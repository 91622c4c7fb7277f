import Mathlib.Data.List.Flatten
import Mathlib.Data.List.Perm.Subperm
import WikiPages.Proofs.Cleanup.Attributes
import WikiPages.Proofs.Html.Ids

namespace WikiPages.Html

open Text Cleanup

variable {m n m' : Mode} {a b s t : Text} {c : Char}

section Wrappers

theorem text_of_takes_opening (h : m.Takes '<') : m = .text := by
  cases m
  case text => rfl
  case tag | id | value => exact absurd rfl h.1
  case behind => exact absurd h (by decide)

theorem next_closing (h : m.Takes '>') : m.next '>' = .text := by
  cases m
  case text => exact absurd rfl h.2
  case tag | behind => rfl
  case id | value => exact absurd rfl h.2.1

theorem eq_of_length_eq {taken rest : Text} (h : a ++ b = taken ++ rest) (hl : a.length = taken.length) : a = taken :=
  (List.append_inj h hl).1

theorem Reads.text_of_closing (h : Reads m (a ++ ['>']) n) : n = .text := by
  have ⟨_, _, last⟩ := h.exists_of_append
  have ⟨takes, rest⟩ := reads_cons.mp last
  exact (reads_nil.mp rest).symm.trans (next_closing takes)

theorem reads_of_emptyWrapper (h : emptyWrapper (a ++ b) = some ((), a.length)) (hr : Reads m (a ++ b) m') :
    m = .text ∧ Reads m a m := by
  have element {taken rest : Text} (hs : a ++ b = '<' :: taken ++ rest) (hl : a.length = ('<' :: taken).length)
      (hm : m = .text → Reads m ('<' :: taken) m) : m = .text ∧ Reads m a m := by
    rw [hs] at hr
    have here := text_of_takes_opening (reads_cons.mp hr).1
    exact ⟨here, eq_of_length_eq hs hl ▸ hm here⟩
  rw [emptyWrapper] at h
  rcases Option.or_eq_some_iff.mp h with h | ⟨_, h⟩
  · rcases Option.or_eq_some_iff.mp h with h | ⟨_, h⟩
    · obtain ⟨⟨rest, hs⟩, hl⟩ := Pattern.exactly_eq_some_iff.mp h
      refine element hs.symm hl ?_
      rintro rfl
      decide
    · obtain ⟨⟨rest, hs⟩, hl⟩ := Pattern.exactly_eq_some_iff.mp h
      refine element hs.symm hl ?_
      rintro rfl
      decide
  · obtain ⟨inside, rest, _, hs, hl⟩ := exists_of_emptyHeading h
    have parts : a ++ b = (lit "<h2" ++ inside ++ ['>']) ++ lit "</h2>" ++ rest := by simp [hs]
    have width : a.length = ((lit "<h2" ++ inside ++ ['>']) ++ lit "</h2>").length := by simp [hl, lit]
    refine element parts width ?_
    rintro rfl
    rw [parts, List.append_assoc] at hr
    obtain ⟨n, first, _⟩ := hr.exists_of_append
    have here := first.text_of_closing
    subst here
    have second : Reads .text (lit "</h2>") .text := by decide
    exact first.append second

theorem emptyWrapper_pos (s : Text) (x : Unit) (width : Nat) (h : emptyWrapper s = some (x, width)) : 0 < width := by
  have exactly {old : Text} (hne : 0 < old.length) (he : Pattern.exactly old s = some (x, width)) : 0 < width :=
    (Pattern.exactly_eq_some_iff.mp he).2 ▸ hne
  rw [emptyWrapper] at h
  rcases Option.or_eq_some_iff.mp h with h | ⟨_, h⟩
  · rcases Option.or_eq_some_iff.mp h with h | ⟨_, h⟩
    · exact exactly (by decide) h
    · exact exactly (by decide) h
  · obtain ⟨_, _, _, _, hl⟩ := exists_of_emptyHeading h
    omega

theorem reads_dropEmptyWrappers (h : Reads m s .text) :
    Reads m (dropEmptyWrappers s) .text ∧ (idsFrom m (dropEmptyWrappers s)).Sublist (idsFrom m s) := by
  rw [dropEmptyWrappers, Pattern.replace]
  have scans := Pattern.scans_cut emptyWrapper_bounded emptyWrapper_pos s
  generalize emptyWrapper.cut s = pieces at scans
  induction scans generalizing m
  case nil => exact ⟨h, List.Sublist.refl _⟩
  case char hi =>
    obtain ⟨takes, rest⟩ := reads_cons.mp h
    obtain ⟨reads, fewer⟩ := hi rest
    exact ⟨.cons takes reads, (List.append_sublist_append_left _).mpr fewer⟩
  case found hit _ hi =>
    obtain ⟨_, element⟩ := reads_of_emptyWrapper hit h
    obtain ⟨reads, fewer⟩ := hi (h.behind element)
    rw [element.idsFrom_append]
    exact ⟨reads, fewer.trans (List.sublist_append_right _ _)⟩

end Wrappers

section Attributes

def Follows (m m' : Mode) : Prop := m' = m ∨ m = .behind ∧ ∃ word, m' = .tag word

theorem Follows.step (h : Follows m m') (ht : m.Takes c) :
    m'.Takes c ∧ m'.next c = m.next c ∧ m'.given c = m.given c := by
  rcases h with rfl | ⟨rfl, word, rfl⟩
  · exact ⟨ht, rfl, rfl⟩
  · have takes : c ≠ '<' ∧ c ≠ '$' ∧ c ≠ lf := by rcases ht with rfl | rfl <;> decide
    refine ⟨takes, ?_, rfl⟩
    rcases ht with rfl | rfl <;> rfl

theorem Reads.open (h : Reads m a n) (hm : m.Open) (ha : ∀ c ∈ a, c ≠ '\x22' ∧ c ≠ '<') : n.Open := by
  induction h
  case nil => exact hm
  case cons m _ c _ _ _ hi =>
    have ⟨⟨quote, opening⟩, rest⟩ := List.forall_mem_cons.mp ha
    refine hi ?_ rest
    cases m
    case text | id | value => simp [Mode.next, Mode.Open, opening, quote]
    case tag | behind => cases hm

theorem reads_quotes (h : Reads m (['\x22', '\x22'] ++ b) m') :
    (∃ word, m = .tag word) ∧ Reads m ['\x22', '\x22'] .behind := by
  have ⟨first, rest⟩ := reads_cons.mp h
  have second := (reads_cons.mp rest).1
  have reject : ¬ Mode.behind.Takes '\x22' := by decide
  cases m
  case text => exact absurd rfl first.1
  case behind => exact absurd first reject
  case id | value => exact absurd second reject
  case tag word =>
    refine ⟨⟨word, rfl⟩, .cons first (.cons second ?_)⟩
    have last : ((Mode.tag word).next '\x22').next '\x22' = .behind := by
      by_cases hw : word = lit "id=" <;> simp [Mode.next, hw]
    exact last ▸ .nil

theorem exists_of_emptyAttribute {width : Nat} (h : emptyAttribute s = some ((), width)) :
    ∃ name rest, s = name ++ ['='] ++ (['\x22', '\x22'] ++ rest) ∧ width = name.length + 3 ∧
      ∀ c ∈ name, c ≠ '\x22' ∧ c ≠ '<' := by
  by_cases hv : emptyValue <+: behindName s
  case neg =>
    rw [emptyAttribute_of_no_value hv] at h
    cases h
  case pos =>
    rw [emptyAttribute_of_value hv] at h
    have ⟨rest, hr⟩ := hv
    refine ⟨s.takeWhile isBlank ++ (s.dropWhile isBlank).takeWhile isNameChar, rest, ?_, ?_, ?_⟩
    · rw [List.append_assoc, List.append_assoc]
      nth_rewrite 1 [← List.takeWhile_append_dropWhile (p := isBlank) (l := s)]
      nth_rewrite 1 [← List.takeWhile_append_dropWhile (p := isNameChar) (l := s.dropWhile isBlank)]
      rw [behindName] at hr
      rw [← hr]
      rfl
    · cases h
      rw [List.length_append]
    · intro c hc
      have spoken : isBlank c = true ∨ isNameChar c = true :=
        (List.mem_append.mp hc).imp (List.mem_takeWhile_imp ·) (List.mem_takeWhile_imp ·)
      constructor
      all_goals
        rintro rfl
        exact absurd spoken (by decide)

theorem reads_of_emptyAttribute (h : emptyAttribute (a ++ b) = some ((), a.length)) (hr : Reads m (a ++ b) m') :
    Reads m a .behind ∧ (m = .behind ∨ ∃ word, m = .tag word) := by
  have ⟨name, rest, hs, hl, free⟩ := exists_of_emptyAttribute h
  have whole : a = name ++ ['='] ++ ['\x22', '\x22'] :=
    eq_of_length_eq (hs.trans (List.append_assoc _ _ rest).symm) (by simp [hl])
  rw [hs] at hr
  have ⟨n, first, second⟩ := hr.exists_of_append
  have ⟨⟨word, tag⟩, quotes⟩ := reads_quotes second
  subst tag
  refine ⟨whole ▸ first.append quotes, ?_⟩
  -- a reader in the text or in a value would still be there
  have closed : ¬ m.Open := fun hm => first.open hm (List.forall_mem_append.mpr ⟨free, by decide⟩)
  cases m
  case behind => exact .inl rfl
  case tag word => exact .inr ⟨word, rfl⟩
  case text | id | value => exact absurd trivial closed

theorem reads_dropEmptyAttributes (h : Reads m s .text) (hm : Follows m m') :
    Reads m' (dropEmptyAttributes s) .text ∧
      (idsFrom m' (dropEmptyAttributes s)).Sublist (idsFrom m s) := by
  rw [dropEmptyAttributes, Pattern.replace]
  have scans := emptyAttribute_local.scans s
  generalize emptyAttribute.cut s = pieces at scans
  induction scans generalizing m m'
  case nil =>
    cases h
    rcases hm with rfl | ⟨hm, _⟩
    · exact ⟨.nil, List.Sublist.refl _⟩
    · cases hm
  case char hi =>
    obtain ⟨takes, rest⟩ := reads_cons.mp h
    obtain ⟨takes', next, given⟩ := hm.step takes
    obtain ⟨reads, fewer⟩ := hi rest (.inl next)
    refine ⟨.cons takes' reads, ?_⟩
    change (m'.given _ ++ _).Sublist (m.given _ ++ _)
    rw [given]
    exact (List.append_sublist_append_left _).mpr fewer
  case found hit _ hi =>
    obtain ⟨empty, here⟩ := reads_of_emptyAttribute hit h
    have behind : Follows .behind m' := by
      rcases hm with rfl | ⟨_, tag⟩
      · exact here.imp_right fun tag => ⟨rfl, tag⟩
      · exact .inr ⟨rfl, tag⟩
    obtain ⟨reads, fewer⟩ := hi (h.behind empty) behind
    rw [empty.idsFrom_append]
    exact ⟨reads, fewer.trans (List.sublist_append_right _ _)⟩

end Attributes

section Heads

variable {inside head line : Text} {lines seen others : List Text}

theorem exists_of_headSection {width : Nat} (h : headSection s = some (inside, width)) :
    ∃ rest, s = headStart ++ (inside ++ (headEnd ++ rest)) ∧ width = (headStart ++ inside ++ headEnd).length := by
  by_cases hp : headStart <+: s
  case neg =>
    rw [headSection_of_not_start hp] at h
    cases h
  case pos =>
    have ⟨s, hs⟩ := hp
    subst hs
    rw [headSection_start] at h
    have ⟨⟨inside', rest⟩, hc, he⟩ := Option.map_eq_some_iff.mp h
    cases he
    exact ⟨rest, by rw [splitOnce?_eq_some hc, List.append_assoc], by simp [Nat.add_assoc]⟩

theorem headSection_bounded : headSection.Bounded := by
  intro s inside width h
  have ⟨rest, hs, hw⟩ := exists_of_headSection h
  rw [hs, hw]
  simp only [List.length_append]
  omega

theorem headSection_pos (s inside : Text) (width : Nat) (h : headSection s = some (inside, width)) : 0 < width := by
  have ⟨_, _, hw⟩ := exists_of_headSection h
  rw [hw, List.length_append]
  exact Nat.add_pos_right _ (by decide)

theorem markup_headTags : (Markup headStart ∧ ids headStart = []) ∧ Markup headEnd ∧ ids headEnd = [] := by
  decide

theorem reads_of_headSection (h : headSection (a ++ b) = some (inside, a.length)) (hr : Reads m (a ++ b) .text) :
    m = .text ∧ Markup inside ∧ Reads m a m ∧ idsFrom m a = ids inside := by
  have ⟨rest, hs, hl⟩ := exists_of_headSection h
  have parts : a ++ b = (headStart ++ inside ++ headEnd) ++ rest := by simp [hs]
  have whole := eq_of_length_eq parts hl
  rw [hs] at hr
  have here := text_of_takes_opening (reads_cons.mp hr).1
  subst here
  have ⟨⟨start, before⟩, stop, behind⟩ := markup_headTags
  have ⟨n, first, second⟩ := (hr.behind start).exists_of_append
  have there := text_of_takes_opening (reads_cons.mp second).1
  subst there
  refine ⟨rfl, first, whole ▸ (start.append first).append stop, ?_⟩
  change ids a = _
  rw [whole, ids_append (start.append first), ids_append start, before, behind, List.nil_append, List.append_nil]

-- The ids around the head sections stay. Those of the head sections are lost for those of the first one.
theorem reads_replaceHeads (h : Reads m s .text) (hh : Markup head) :
    (∀ inside ∈ headSection.finds s, Markup inside) ∧ Reads m (replaceHeads head (headSection.cut s)) .text ∧
      ∃ around, (idsFrom m s).Perm ((headSection.finds s).flatMap ids ++ around) ∧
        (idsFrom m (replaceHeads head (headSection.cut s))).Perm
          ((if headSection.finds s = [] then [] else ids head) ++ around) := by
  rw [Pattern.finds]
  have scans := Pattern.scans_cut headSection_bounded headSection_pos s
  generalize headSection.cut s = pieces at scans
  induction scans generalizing m head
  case nil => exact ⟨List.forall_mem_nil _, h, [], .nil, .nil⟩
  case char c s pieces _ _ hi =>
    obtain ⟨takes, rest⟩ := reads_cons.mp h
    obtain ⟨inner, reads, around, all, left⟩ := hi rest hh
    refine ⟨inner, .cons takes reads, m.given c ++ around, ?_, ?_⟩
    · exact (all.append_left _).trans (List.perm_append_comm_assoc _ _ _)
    · exact (left.append_left _).trans (List.perm_append_comm_assoc _ _ _)
  case found taken s inside pieces hit _ hi =>
    obtain ⟨here, inner, section', same⟩ := reads_of_headSection hit h
    subst here
    obtain ⟨others, reads, around, all, left⟩ := hi (h.behind section') .nil
    have found : (Piece.found inside :: pieces).filterMap Piece.found? =
        inside :: pieces.filterMap Piece.found? := rfl
    have none : (if pieces.filterMap Piece.found? = [] then [] else ids []) = [] := by split <;> rfl
    rw [none] at left
    rw [found]
    refine ⟨List.forall_mem_cons.mpr ⟨inner, others⟩, hh.append reads, around, ?_, ?_⟩
    · rw [section'.idsFrom_append, same, List.flatMap_cons, List.append_assoc]
      exact all.append_left _
    · rw [if_neg (List.cons_ne_nil _ _), replaceHeads, hh.idsFrom_append]
      exact left.append_left _

theorem markup_split (h : Markup s) : (∀ line ∈ split lf s, Markup line) ∧ (split lf s).flatMap ids = ids s := by
  induction hn : s.length using Nat.strong_induction_on generalizing s
  case h n hi =>
    by_cases hm : lf ∈ s
    case neg =>
      rw [split_of_free hm]
      exact ⟨List.forall_mem_singleton.mpr h, List.flatMap_singleton ..⟩
    case pos =>
      have ⟨front, back, hs, hf⟩ := List.eq_append_cons_of_mem hm
      subst hs
      have ⟨n', first, second⟩ := h.exists_of_append
      have ⟨takes, rest⟩ := reads_cons.mp second
      have here : n' = .text := by
        cases n'
        case text => rfl
        case tag | id | value => exact absurd rfl takes.2.2
        case behind => exact absurd takes (by decide)
      subst here
      have ⟨markup, same⟩ := hi back.length (by simp [← hn]; omega) rest rfl
      rw [split_append, split_of_free hf, List.singleton_append, List.flatMap_cons, same, ids_append first]
      exact ⟨List.forall_mem_cons.mpr ⟨first, markup⟩, rfl⟩

theorem markup_headLines (h : Markup inside) :
    (∀ line ∈ headLines inside, Markup line) ∧ (headLines inside).flatMap ids = ids inside := by
  have ⟨markup, same⟩ := markup_split h
  rw [headLines, ← same]
  generalize split lf inside = all at markup
  induction all
  case nil => exact ⟨nofun, rfl⟩
  case cons line all hi =>
    have ⟨first, rest⟩ := List.forall_mem_cons.mp markup
    have ⟨trimmed, kept⟩ := first.trim
    have ⟨others, same⟩ := hi rest
    rw [List.map_cons, List.flatMap_cons, ← kept, ← same]
    by_cases hl : trim line = []
    · rw [List.filter_cons_of_neg (by simpa using hl), hl]
      exact ⟨others, rfl⟩
    · rw [List.filter_cons_of_pos (by simpa using hl)]
      exact ⟨List.forall_mem_cons.mpr ⟨trimmed, others⟩, rfl⟩

theorem newLines_sublist (seen lines : List Text) : (newLines seen lines).Sublist lines := by
  induction lines generalizing seen
  case nil => exact .slnil
  case cons line lines hi =>
    rw [newLines]
    split
    case isTrue => exact (hi seen).cons line
    case isFalse => exact (hi _).cons_cons line

theorem markup_addLine (hs : Markup s) (hl : Markup line) :
    Markup (addLine s line) ∧ ids (addLine s line) = ids s ++ ids line := by
  have feed : Markup lineBreak ∧ ids lineBreak = [] := by decide
  have front : Markup (if s.getLast? = some lf then s else s ++ lineBreak) ∧
      ids (if s.getLast? = some lf then s else s ++ lineBreak) = ids s := by
    split
    · exact ⟨hs, rfl⟩
    · exact ⟨hs.append feed.1, by rw [ids_append hs, feed.2, List.append_nil]⟩
  refine ⟨(front.1.append hl).append feed.1, ?_⟩
  rw [addLine, ids_append (front.1.append hl), ids_append front.1, front.2, feed.2, List.append_nil]

theorem markup_foldl_addLine (hs : Markup s) (hl : ∀ line ∈ lines, Markup line) :
    Markup (lines.foldl addLine s) ∧ ids (lines.foldl addLine s) = ids s ++ lines.flatMap ids := by
  induction lines generalizing s
  case nil => exact ⟨hs, (List.append_nil _).symm⟩
  case cons line lines hi =>
    have ⟨first, rest⟩ := List.forall_mem_cons.mp hl
    have ⟨added, same⟩ := markup_addLine hs first
    have ⟨markup, all⟩ := hi added rest
    exact ⟨markup, by rw [List.foldl_cons, all, same, List.flatMap_cons, List.append_assoc]⟩

theorem markup_mergedHead {first : Text} (hf : Markup first) (ho : ∀ other ∈ others, Markup other) :
    Markup (mergedHead first others) ∧
      (ids (mergedHead first others)).Sublist (ids first ++ others.flatMap ids) := by
  have ⟨⟨start, before⟩, stop, behind⟩ := markup_headTags
  have fewer := newLines_sublist (headLines first) (others.flatMap headLines)
  have lines : ∀ line ∈ newLines (headLines first) (others.flatMap headLines), Markup line := by
    intro line hl
    have ⟨other, hm, hl⟩ := List.mem_flatMap.mp (fewer.subset hl)
    exact (markup_headLines (ho other hm)).1 line hl
  have ⟨markup, same⟩ := markup_foldl_addLine (start.append hf) lines
  have all : (others.flatMap headLines).flatMap ids = others.flatMap ids := by
    rw [List.flatMap_assoc]
    exact List.flatMap_congr fun other hm => (markup_headLines (ho other hm)).2
  refine ⟨markup.append stop, ?_⟩
  rw [mergedHead, ids_append markup, same, ids_append start, before, behind, List.nil_append, List.append_nil, ← all]
  exact (List.append_sublist_append_left _).mpr (fewer.flatMap ids)

theorem markup_mergeHeads (h : Markup s) : Markup (mergeHeads s) ∧ (ids (mergeHeads s)).Subperm (ids s) := by
  rw [mergeHeads]
  split
  case h_2 => exact ⟨h, List.Subperm.refl _⟩
  case h_1 first second others found =>
    obtain ⟨inner, _⟩ := reads_replaceHeads h .nil
    rw [found, List.forall_mem_cons] at inner
    obtain ⟨merged, fewer⟩ := markup_mergedHead inner.1 inner.2
    obtain ⟨_, reads, around, all, left⟩ := reads_replaceHeads h merged
    rw [found, if_neg (List.cons_ne_nil _ _)] at left
    rw [found, List.flatMap_cons] at all
    refine ⟨reads, left.subperm.trans (List.Subperm.trans ?_ all.symm.subperm)⟩
    exact ((List.append_sublist_append_right around).mpr fewer).subperm

end Heads

-- No id occurs more often on a clean page.
theorem subperm_ids_clean (h : Markup s) : (ids (clean s)).Subperm (ids s) := by
  have ⟨wrappers, fewer⟩ := reads_dropEmptyWrappers h
  have ⟨attributes, fewer'⟩ := reads_dropEmptyAttributes wrappers (.inl rfl)
  exact (markup_mergeHeads attributes).2.trans (fewer'.trans fewer).subperm

end WikiPages.Html
