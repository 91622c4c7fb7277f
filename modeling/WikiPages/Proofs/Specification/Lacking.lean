import WikiPages.Dictionary
import WikiPages.Proofs.Success
import WikiPages.Proofs.Template.Entries
import WikiPages.Proofs.Text.Scan
import WikiPages.Proofs.Text.Words
import WikiPages.Proofs.Xml.Lacking

namespace WikiPages

open Text

variable {a b s : Text} {c : Char} {entry : Text × Text}

namespace Override

theorem subset_of_mem_pairs (h : entry ∈ pairs s) : entry.1 ⊆ s ∧ entry.2 ⊆ s := by
  have ⟨piece, hp, he⟩ := List.mem_filterMap.mp h
  have ⟨group, hg, hp⟩ := List.mem_flatMap.mp hp
  have ⟨⟨key, value⟩, hs, he⟩ := Option.map_eq_some_iff.mp he
  have within : piece ⊆ s := List.Subset.trans (subset_of_mem_splitWhere hp) (subset_of_mem_splitWhere hg)
  have ⟨hk, hv⟩ := subset_of_splitOnce? hs
  rw [← he]
  exact ⟨List.Subset.trans (trim_sublist key).subset (List.Subset.trans hk within),
    List.Subset.trans (trim_sublist value).subset (List.Subset.trans hv within)⟩

theorem lacks_pairs (h : c ∉ s) : ∀ entry ∈ pairs s, c ∉ entry.1 ∧ c ∉ entry.2 :=
  fun _ he => ⟨fun hc => h ((subset_of_mem_pairs he).1 hc), fun hc => h ((subset_of_mem_pairs he).2 hc)⟩

theorem lacks_splitTitle (h : c ∉ s) (hs : c ∉ [' ', ',']) :
    c ∉ (splitTitle s).1 ∧ ∀ entry ∈ (splitTitle s).2, c ∉ entry.1 ∧ c ∉ entry.2 := by
  have all : ∀ word ∈ (words s).reverse, c ∉ word :=
    fun word hw hc => h (subset_of_mem_words (List.mem_reverse.mp hw) hc)
  rw [splitTitle, List.span_eq_takeWhile_dropWhile]
  dsimp only
  split
  case isTrue => exact ⟨h, nofun⟩
  case isFalse =>
    have blank : c ∉ [' '] := fun hc => hs (by simp [List.mem_singleton.mp hc])
    have comma : c ∉ [','] := fun hc => hs (by simp [List.mem_singleton.mp hc])
    refine ⟨not_mem_join blank fun word hw => all word ?_,
      lacks_pairs (not_mem_join comma fun word hw => all word ?_)⟩
    · exact (List.dropWhile_suffix isWord).subset (List.mem_reverse.mp hw)
    · exact (List.takeWhile_prefix isWord).subset hw

end Override

def Substitution.Lacks (c : Char) (σ : Substitution) : Prop := ∀ entry ∈ σ.entries, c ∉ entry.1 ∧ c ∉ entry.2

instance {σ : Substitution} : Decidable (σ.Lacks c) :=
  inferInstanceAs (Decidable (∀ entry ∈ σ.entries, _ ∧ _))

theorem Substitution.lacks_insertAll {σ : Substitution} {pairs : List (Text × Text)} (h : σ.Lacks c)
    (hp : ∀ entry ∈ pairs, c ∉ entry.1 ∧ c ∉ entry.2) : (σ.insertAll pairs).Lacks c :=
  fun entry he => (mem_entries_insertAll he).elim (hp entry) (h entry)

structure Parameter.Lacks (c : Char) (p : Parameter) : Prop where
  name      : c ∉ p.name
  style     : c ∉ p.style
  overrides : p.overrides.Lacks c

instance {p : Parameter} : Decidable (p.Lacks c) :=
  decidable_of_iff (c ∉ p.name ∧ c ∉ p.style ∧ p.overrides.Lacks c)
    ⟨fun ⟨name, style, overrides⟩ => ⟨name, style, overrides⟩, fun h => ⟨h.name, h.style, h.overrides⟩⟩

structure Directive.Lacks (c : Char) (d : Directive) : Prop where
  title      : c ∉ d.title
  overrides  : d.overrides.Lacks c
  parameters : ∀ p ∈ d.parameters, p.Lacks c

instance {d : Directive} : Decidable (d.Lacks c) :=
  decidable_of_iff (c ∉ d.title ∧ d.overrides.Lacks c ∧ ∀ p ∈ d.parameters, p.Lacks c)
    ⟨fun ⟨title, overrides, parameters⟩ => ⟨title, overrides, parameters⟩,
      fun h => ⟨h.title, h.overrides, h.parameters⟩⟩

structure Block.Lacks (c : Char) (block : Block) : Prop where
  title      : c ∉ block.title
  overrides  : block.overrides.Lacks c
  parameters : ∀ p ∈ block.parameters, p.Lacks c
  data       : ∀ d ∈ block.data, d.Lacks c

instance {block : Block} : Decidable (block.Lacks c) :=
  decidable_of_iff
    (c ∉ block.title ∧ block.overrides.Lacks c ∧ (∀ p ∈ block.parameters, p.Lacks c) ∧ ∀ d ∈ block.data, d.Lacks c)
    ⟨fun ⟨title, overrides, parameters, data⟩ => ⟨title, overrides, parameters, data⟩,
      fun h => ⟨h.title, h.overrides, h.parameters, h.data⟩⟩

namespace Parameter

theorem lacks_splitOverrides (h : c ∉ s) : c ∉ (splitOverrides s).1 ∧ c ∉ (splitOverrides s).2 := by
  rw [splitOverrides]
  split
  case isFalse => exact ⟨List.not_mem_nil, h⟩
  case isTrue =>
    split
    case h_2 => exact ⟨List.not_mem_nil, h⟩
    case h_1 rest groups hs =>
      have ⟨hr, hg⟩ := subset_of_splitOnce? hs
      refine ⟨fun hc => h ?_, fun hc => h ?_⟩
      · exact List.mem_reverse.mp (hg (List.mem_reverse.mp hc))
      · exact List.mem_reverse.mp (hr (List.mem_reverse.mp ((trim_sublist _).subset hc)))

theorem lacks_parse (h : c ∉ s) (hc : c ≠ '-') : (parse s).Lacks c := by
  have ⟨hg, hr⟩ := lacks_splitOverrides fun hc => h ((trim_sublist s).subset hc)
  have overrides : (Substitution.ofList (Override.values (Override.pairs (splitOverrides (trim s)).1))).Lacks c :=
    Substitution.lacks_insertAll nofun fun entry he => Override.lacks_pairs hg entry (List.mem_filter.mp he).1
  rw [parse]
  dsimp only
  split
  case h_2 => exact ⟨hr, List.not_mem_nil, overrides⟩
  case h_1 name variant hs =>
    have ⟨hn, hv⟩ := subset_of_splitOnce? hs
    refine ⟨fun hc => hr (hn ((trim_sublist name).subset hc)), ?_, overrides⟩
    have free : c ∉ replaceAll variantSeparator ['-'] (trim variant) :=
      not_mem_replaceAll (fun hc => hr (hv ((trim_sublist variant).subset hc))) (by simpa using hc)
    rw [style]
    dsimp only
    split
    case isTrue => exact List.not_mem_nil
    case isFalse => exact free

theorem lacks_list (h : c ∉ s) (hc : c ≠ '-') : ∀ p ∈ list s, p.Lacks c := by
  intro p hp
  have ⟨piece, hf, he⟩ := List.mem_map.mp hp
  have ⟨part, hs, ht⟩ := List.mem_map.mp (List.mem_filter.mp hf).1
  refine he ▸ lacks_parse (fun hc => h ?_) hc
  exact subset_of_mem_splitWhere hs ((trim_sublist part).subset (ht ▸ hc))

theorem raw_subset {p : Parameter} (h : p ∈ list s) : p.raw ⊆ s := by
  have ⟨piece, hf, he⟩ := List.mem_map.mp h
  have ⟨part, hs, ht⟩ := List.mem_map.mp (List.mem_filter.mp hf).1
  rw [← he, raw_parse, ← ht]
  exact List.Subset.trans (trim_sublist _).subset
    (List.Subset.trans (trim_sublist part).subset (subset_of_mem_splitWhere hs))

end Parameter

namespace Directive

theorem lacks_read (h : c ∉ s) : c ∉ (Head.read s).groups ∧ c ∉ (Head.read s).title := by
  rw [Head.read]
  generalize s.takeWhile _ = kind
  have rest : c ∉ s.drop kind.length := fun hc => h (List.drop_subset _ s hc)
  rw [← Override.groups_append false (s.drop kind.length), List.mem_append, not_or] at rest
  exact ⟨rest.1, fun hc => rest.2 ((trim_sublist _).subset hc)⟩

theorem lacks_ofParts (ha : c ∉ a) (hb : c ∉ b) (hc : c ∉ [' ', ',', '-']) : (ofParts a b).Lacks c := by
  have dash : c ≠ '-' := fun he => hc (he ▸ by simp)
  have join : c ∉ [' ', ','] := fun hm => hc (by simp at hm ⊢; tauto)
  have ⟨first, rest⟩ : c ∉ ((splitOnce? ['|'] a).getD (a, [])).1 ∧ c ∉ ((splitOnce? ['|'] a).getD (a, [])).2 := by
    cases hs : splitOnce? ['|'] a
    case none => exact ⟨ha, List.not_mem_nil⟩
    case some parts =>
      have ⟨hf, hr⟩ := subset_of_splitOnce? hs
      exact ⟨fun hc => ha (hf hc), fun hc => ha (hr hc)⟩
  rw [ofParts]
  generalize (splitOnce? ['|'] a).getD (a, []) = parts at first rest
  have ⟨groups, title⟩ := lacks_read fun hc => first ((trim_sublist _).subset hc)
  generalize Head.read (trim parts.1) = head at groups title
  have ⟨kept, words⟩ := Override.lacks_splitTitle title join
  generalize Override.splitTitle head.title = split at kept words
  refine ⟨kept, Substitution.lacks_insertAll nofun fun entry he => ?_, List.forall_mem_append.mpr ?_⟩
  · rcases List.mem_append.mp (List.mem_filter.mp he).1 with he | he
    · exact Override.lacks_pairs groups entry he
    · exact words entry he
  · exact ⟨Parameter.lacks_list rest dash, Parameter.lacks_list hb dash⟩

theorem raw_subset_ofParts {p : Parameter} (h : p ∈ (ofParts a b).parameters) : p.raw ⊆ a ++ b := by
  rcases List.mem_append.mp h with h | h
  case inr => exact List.Subset.trans (Parameter.raw_subset h) (List.subset_append_right a b)
  case inl =>
    refine List.Subset.trans (Parameter.raw_subset h) (List.Subset.trans ?_ (List.subset_append_left a b))
    cases hs : splitOnce? ['|'] a
    case none => exact List.nil_subset a
    case some => exact (subset_of_splitOnce? hs).2

theorem subset_of_braces? (h : braces? s = some (a, b)) : '}' ∉ a ∧ a ++ b ⊆ s := by
  induction s
  case nil => cases h
  case cons d s hi =>
    rw [braces?] at h
    split at h
    case isTrue => cases h
    case isFalse =>
      split at h
      case h_1 hs =>
        cases h
        have ⟨closed, within⟩ := hi hs
        exact ⟨closed, List.Subset.trans within (List.subset_cons_self d s)⟩
      case h_2 =>
        split at h
        case isFalse => cases h
        case isTrue =>
          have ⟨hs, _⟩ := Option.filter_eq_some_iff.mp h
          have ⟨first, second⟩ := subset_of_splitOnce? hs
          exact ⟨not_mem_of_splitOnce? hs,
            List.Subset.trans (List.append_subset.mpr ⟨first, second⟩) (List.subset_cons_self d s)⟩

theorem lacks_parse (h : c ∉ s) (hc : c ∉ [' ', ',', '-']) :
    (parse s).Lacks c ∧ ∀ p ∈ (parse s).parameters, c ∉ p.raw := by
  rw [parse]
  split
  case h_1 body trailing hs =>
    have ⟨_, within⟩ := subset_of_braces? hs
    have ⟨ha, hb⟩ := not_or.mp (mt List.mem_append.mpr fun hm => h (within hm))
    exact ⟨lacks_ofParts ha hb hc, fun p hp hm => h (within (raw_subset_ofParts hp hm))⟩
  case h_2 =>
    have dash : c ≠ '-' := fun he => hc (he ▸ by simp)
    have free : c ∉ Line.withoutMarkers s := fun hm => h ((List.dropWhile_suffix _).subset hm)
    exact ⟨⟨List.not_mem_nil, nofun, Parameter.lacks_list free dash⟩, fun p hp hm => free (Parameter.raw_subset hp hm)⟩

theorem closed_parse (s : Text) : (parse s).overrides.Lacks '}' := by
  rw [parse]
  split
  case h_1 body trailing hs =>
    exact (lacks_ofParts (b := []) (subset_of_braces? hs).1 List.not_mem_nil (by decide)).overrides
  case h_2 => exact nofun

end Directive

theorem Block.exists_withData {fetch : Fetch} {d : Directive} {block : Block}
    (hf : ∀ locator ∈ d.locator, ∀ document, fetch locator = .ok document → document.Lacks c)
    (h : ofDirective fetch d = .ok block) :
    ∃ data, block = withData d data ∧ ∀ document ∈ data, Xml.Document.Lacks c document := by
  rw [ofDirective] at h
  split at h
  case h_1 =>
    cases h
    exact ⟨none, rfl, by simp⟩
  case h_2 locator hl =>
    obtain ⟨document, loaded, he⟩ := exists_of_map h
    exact ⟨some document, he.symm, by rintro _ ⟨⟩; exact hf locator hl document loaded⟩

theorem Directive.Lacks.withData {d : Directive} {data : Option Xml.Document} (h : d.Lacks c)
    (hd : ∀ document ∈ data, document.Lacks c) : (Block.withData d data).Lacks c :=
  ⟨h.title, h.overrides, h.parameters, hd⟩

def Dictionary.Lacks (c : Char) (d : Dictionary) : Prop := ∀ entry ∈ d.values, c ∉ entry.2

namespace Dictionary

variable {c : Char} {d : Dictionary} {field property : Text}

theorem Lacks.behavior? (h : d.Lacks c) : ∀ value ∈ d.behavior? field property, c ∉ value := by
  intro value hv
  rw [Dictionary.behavior?] at hv
  rcases Option.or_eq_some_iff.mp hv with hv | ⟨_, hv⟩
  · exact h _ (mem_of_lookup hv)
  · exact h _ (mem_of_lookup hv)

theorem Lacks.not_mem_getD_behavior? (h : d.Lacks c) (field property : Text) :
    c ∉ (d.behavior? field property).getD [] :=
  Binding.not_mem_getD h.behavior?

theorem Lacks.not_mem_inputOf (h : d.Lacks c) (hc : c ∉ defaultInput) : c ∉ d.inputOf field := by
  rw [inputOf]
  cases hv : (d.behavior? field input).filter (· ≠ [])
  case none => exact hc
  case some value => exact h.behavior? value (Option.filter_eq_some_iff.mp hv).1

end Dictionary

end WikiPages
