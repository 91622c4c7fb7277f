import WikiPages.Proofs.Cleanup.Leftovers

namespace WikiPages.Text

variable {a b w : Text}

theorem infix_append_cases (h : w <:+: a ++ b) :
    w <:+: a ∨ w <:+: b ∨ ∃ u v, u ≠ [] ∧ v ≠ [] ∧ w = u ++ v ∧ u <:+ a ∧ v <+: b := by
  obtain ⟨front, back, parts⟩ := h
  rw [List.append_assoc] at parts
  rcases List.append_eq_append_iff.mp parts with ⟨u, ha, hw⟩ | ⟨more, _, hb⟩
  case inr => exact .inr (.inl ⟨more, back, by rw [hb, List.append_assoc]⟩)
  rcases List.append_eq_append_iff.mp hw with ⟨more, hu, _⟩ | ⟨v, hw, hb⟩
  · exact .inl ⟨front, more, by rw [ha, hu, List.append_assoc]⟩
  rcases eq_or_ne u [] with rfl | hu
  · exact .inr (.inl ⟨[], back, by simp [hw, hb]⟩)
  rcases eq_or_ne v [] with rfl | hv
  · exact .inl ⟨front, [], by simp [hw, ha]⟩
  exact .inr (.inr ⟨u, v, hu, hv, hw, ⟨front, ha.symm⟩, ⟨back, hb.symm⟩⟩)

theorem infix_behind (h : w <:+: a ++ b) (hne : w ≠ []) (ha : ∀ c ∈ a, c ∉ w) : w <:+: b := by
  rcases infix_append_cases h with h | h | ⟨u, v, hu, _, rfl, hs, _⟩
  · obtain ⟨c, _, rfl⟩ := List.exists_cons_of_ne_nil hne
    exact absurd List.mem_cons_self (ha c (h.subset List.mem_cons_self))
  · exact h
  · obtain ⟨c, _, rfl⟩ := List.exists_cons_of_ne_nil hu
    exact absurd (by simp) (ha c (hs.subset List.mem_cons_self))

theorem infix_before (h : w <:+: a ++ b) (hne : w ≠ []) (hb : ∀ c ∈ b, c ∉ w) : w <:+: a := by
  rcases infix_append_cases h with h | h | ⟨u, v, _, hv, rfl, _, hp⟩
  · exact h
  · obtain ⟨c, _, rfl⟩ := List.exists_cons_of_ne_nil hne
    exact absurd List.mem_cons_self (hb c (h.subset List.mem_cons_self))
  · obtain ⟨c, _, rfl⟩ := List.exists_cons_of_ne_nil hv
    exact absurd (by simp) (hb c (hp.subset List.mem_cons_self))

theorem infix_beside {c : Char} (h : w <:+: a ++ c :: b) (hne : w ≠ []) (hc : c ∉ w) : w <:+: a ∨ w <:+: b := by
  have border : ∀ d ∈ [c], d ∉ w := by simpa using hc
  rcases infix_append_cases h with h | h | ⟨u, v, _, hv, rfl, _, hp⟩
  · exact .inl h
  · exact .inr (infix_behind (a := [c]) h hne border)
  · obtain ⟨d, _, rfl⟩ := List.exists_cons_of_ne_nil hv
    obtain rfl := (List.cons_prefix_cons.mp hp).1
    exact absurd (by simp) hc

theorem infix_of_quiet (quiet : ∀ t ≠ [], t <:+ a → ¬ w <+: t ++ b) (h : w <:+: a ++ b) : w <:+: b := by
  induction a
  case nil => exact h
  case cons c a hi =>
    rcases List.infix_cons_iff.mp h with h | h
    · exact absurd h (quiet (c :: a) (List.cons_ne_nil c a) (List.suffix_refl _))
    · exact hi (fun t hne ht => quiet t hne (ht.trans (List.suffix_cons c a))) h

end WikiPages.Text

namespace WikiPages.Cleanup

open Text Pattern

variable {s t a b w start stop front gap : Text} {sections : List (Text × Text)}

section Single

theorem Sections.none_around (h : Sections s front sections) (paired : Paired s) :
    ∀ a inside b, front ++ sections.flatMap Prod.snd ≠ a ++ (headStart ++ (inside ++ (headEnd ++ b))) := by
  induction h
  case last none => simpa using none
  case cons s front inside gap sections first _ _ hi =>
    have around := hi paired.right.right.right.right
    have front' : Paired front := paired.left
    intro a inside b he
    rw [List.flatMap_cons] at he
    rcases List.append_eq_append_iff.mp he with ⟨more, _, hm⟩ | ⟨more, hf, hm⟩
    · exact around _ _ _ hm
    rcases eq_or_ne more [] with rfl | hne
    · exact around [] inside b hm.symm
    rcases List.append_eq_append_iff.mp hm with ⟨rest, hr, _⟩ | ⟨rest, hr, _⟩
    · exact first ⟨a, rest, by rw [hf, hr, List.append_assoc]⟩
    rcases eq_or_ne rest [] with rfl | hrest
    · exact first ⟨a, [], by rw [hf, hr]; simp⟩
    -- the start of a section is not cut at the end of a text with paired brackets
    · exact front'.not_cut (s := lit "head") (by decide) hne hrest hr ⟨a, hf.symm⟩

theorem single_mergeHeads (paired : Paired s) : (headSection.finds (mergeHeads s)).length ≤ 1 := by
  by_cases hl : (headSection.finds s).length ≤ 1
  case pos => rwa [mergeHeads_of_single hl]
  case neg =>
    obtain ⟨front, first, gap, others, parts, more⟩ := exists_sections_several (Nat.lt_of_not_le hl)
    obtain ⟨added, _, merged, _, _, cut⟩ := parts.mergeHeads_several more
    have closed := (List.forall_mem_cons.mp cut.closed).1
    obtain ⟨s', rest, rfl⟩ := parts.exists_rest
    have around := rest.none_around paired.right.right.right.right
    have single := Sections.cons cut.first closed (.last around)
    rw [merged, single.finds]
    rfl

end Single

section Lines

variable {first added : Text} {others : List Text}

theorem infix_of_mem_spokenLines {line : Text} (h : line ∈ spokenLines s) : line <:+: s := by
  rw [spokenLines_eq] at h
  obtain ⟨piece, hp, rfl⟩ := List.mem_map.mp (List.mem_filter.mp h).1
  obtain ⟨before, after, around, _, _⟩ := exists_blanks_around piece
  exact List.IsInfix.trans ⟨before, after, around.symm⟩ (infix_of_mem_split hp)

theorem infix_spokenLines_iff (hne : w ≠ []) (solid : ∀ c ∈ w, isBlank c = false) :
    w <:+: s ↔ ∃ line ∈ spokenLines s, w <:+: line := by
  constructor
  case mpr =>
    rintro ⟨line, hl, h⟩
    exact h.trans (infix_of_mem_spokenLines hl)
  case mp =>
    induction hn : s.length using Nat.strong_induction_on generalizing s
    case h n hi =>
      intro h
      by_cases hm : lf ∈ s
      case pos =>
        obtain ⟨front, back, rfl, free⟩ := List.eq_append_cons_of_mem hm
        have unbroken : lf ∉ w := fun hm => absurd (solid _ hm) (by decide)
        have shorter : front.length < n ∧ back.length < n := by
          rw [List.length_append, List.length_cons] at hn
          omega
        rw [spokenLines_append]
        rcases infix_beside h hne unbroken with h | h
        · obtain ⟨line, hl, h⟩ := hi _ shorter.1 rfl h
          exact ⟨line, List.mem_append_left _ hl, h⟩
        · obtain ⟨line, hl, h⟩ := hi _ shorter.2 rfl h
          exact ⟨line, List.mem_append_right _ hl, h⟩
      case neg =>
        obtain ⟨before, after, around, blank, blank'⟩ := exists_blanks_around s
        have apart {t : Text} (blank : ∀ c ∈ t, isBlank c = true) : ∀ c ∈ t, c ∉ w :=
          fun c hc hm => absurd (blank c hc) (by simp [solid c hm])
        rw [around] at h
        have inner := infix_behind (a := before) (infix_before h hne (apart blank')) hne (apart blank)
        have line : trim s ≠ [] := by
          intro he
          rw [he] at inner
          exact hne (List.eq_nil_of_infix_nil inner)
        refine ⟨trim s, ?_, inner⟩
        rw [spokenLines_eq, split_of_free hm]
        simpa using line

theorem Gathers.infix_iff (h : Gathers first others added) (hne : w ≠ []) (solid : ∀ c ∈ w, isBlank c = false) :
    w <:+: first ++ added ↔ w <:+: first ∨ ∃ other ∈ others, w <:+: other := by
  constructor
  case mp =>
    intro here
    obtain ⟨line, hl, here⟩ := (infix_spokenLines_iff hne solid).mp here
    rcases (h.union line).mp hl with hl | ⟨other, ho, hl⟩
    · exact .inl (here.trans (infix_of_mem_spokenLines hl))
    · exact .inr ⟨other, ho, here.trans (infix_of_mem_spokenLines hl)⟩
  case mpr =>
    rintro (here | ⟨other, ho, here⟩)
    · exact here.trans (List.prefix_append _ _).isInfix
    · obtain ⟨line, hl, here⟩ := (infix_spokenLines_iff hne solid).mp here
      exact here.trans (infix_of_mem_spokenLines ((h.union line).mpr (.inr ⟨other, ho, hl⟩)))

end Lines

section Borders

variable {inside : Text}

namespace TitleTags

theorem eq_of_suffix (tags : TitleTags start stop) (h : '<' ∉ s) (hs : start <:+ '<' :: s) : start = '<' :: s := by
  obtain ⟨x, y, rfl, _⟩ := tags.shape
  rcases List.suffix_cons_iff.mp hs with he | hs
  · exact he
  · exact absurd (hs.subset List.mem_cons_self) h

theorem not_head (tags : TitleTags start stop) : start ≠ headStart ∧ start ≠ headEnd := by
  cases tags
  case legend => decide
  case caption => decide
  case heading => simp [headStart, headEnd, lit]

theorem infix_append (tags : TitleTags start stop) (paired : Paired a) (h : start ++ stop <:+: a ++ b) :
    start ++ stop <:+: a ∨ start ++ stop <:+: b ∨ start <:+ a ∧ stop <+: b := by
  rcases infix_append_cases h with h | h | ⟨u, v, hu, hv, he, hs, hp⟩
  · exact .inl h
  · exact .inr (.inl h)
  · obtain ⟨rfl, rfl⟩ := tags.cut paired hu hv he hs
    exact .inr (.inr ⟨hs, hp⟩)

theorem infix_behind_tag (tags : TitleTags start stop) (hs : '<' ∉ s) (other : start ≠ '<' :: (s ++ ['>']))
    (h : start ++ stop <:+: '<' :: (s ++ ['>']) ++ b) : start ++ stop <:+: b := by
  have free : '<' ∉ s ++ ['>'] := by simp [hs]
  rcases tags.infix_append (paired_tag hs) h with h | h | ⟨h, _⟩
  · exact absurd h (tags.not_infix_tag free)
  · exact h
  · exact absurd (tags.eq_of_suffix free h) other

theorem infix_around (tags : TitleTags start stop) (heading : lit "<h2" <+: start) (paired : Paired front)
    (none : ¬ lit "<h2" <:+: inside) (h : start ++ stop <:+: front ++ (headStart ++ (inside ++ (headEnd ++ b)))) :
    start ++ stop <:+: front ∨ start ++ stop <:+: b := by
  have cuts : Cuts headEnd (lit "<h2") := by decide
  have outside : ∀ t ≠ [], t <:+ inside → ¬ start ++ stop <+: t ++ (headEnd ++ b) := by
    intro t hne ht hp
    have first := (heading.trans (List.prefix_append start stop)).trans hp
    exact none (((cuts.prefix_iff hne).mp first).isInfix.trans ht.isInfix)
  rcases tags.infix_append paired h with h | h | ⟨_, h⟩
  · exact .inl h
  · have h : start ++ stop <:+: inside ++ (headEnd ++ b) :=
      tags.infix_behind_tag (s := lit "head") (by decide) tags.not_head.1 h
    have h := infix_of_quiet outside h
    exact .inr (tags.infix_behind_tag (s := lit "/head") (by decide) tags.not_head.2 h)
  · obtain ⟨_, y, _, rfl, _⟩ := tags.shape
    exact absurd (List.cons_prefix_cons.mp (List.cons_prefix_cons.mp h).2).1 (by decide)

end TitleTags

theorem infix_section_of_cuts (hne : w ≠ []) (begins : Cuts headStart w ∧ Avoids headStart w)
    (ends : Cuts headEnd w ∧ Avoids headEnd w) :
    w <:+: front ++ (headStart ++ (inside ++ (headEnd ++ b))) ↔ w <:+: front ∨ w <:+: inside ∨ w <:+: b := by
  rw [begins.1.infix_iff hne, begins.2.infix_iff, ends.1.infix_iff hne, ends.2.infix_iff]

namespace Leftover

theorem infix_section (hw : Leftover w) (paired : Paired front) (none : ¬ lit "<h2" <:+: inside) :
    w <:+: front ++ (headStart ++ (inside ++ (headEnd ++ b))) ↔ w <:+: front ∨ w <:+: inside ∨ w <:+: b := by
  cases hw
  case value => exact infix_section_of_cuts (by decide) (by decide) (by decide)
  case wrapper start stop tags =>
    cases tags
    case legend => exact infix_section_of_cuts (by decide) (by decide) (by decide)
    case caption => exact infix_section_of_cuts (by decide) (by decide) (by decide)
    case heading name one =>
      have tags : TitleTags (lit "<h2" ++ (name ++ ['>'])) (lit "</h2>") := .heading one
      constructor
      case mp =>
        intro h
        exact (tags.infix_around (List.prefix_append _ _) paired none h).imp_right .inr
      case mpr =>
        rintro (h | h | h)
        · exact h.trans (List.prefix_append _ _).isInfix
        · exact h.trans ⟨front ++ headStart, headEnd ++ b, by simp⟩
        · exact h.trans ⟨front ++ (headStart ++ (inside ++ headEnd)), [], by simp⟩

theorem infix_lines {first added : Text} {others : List Text} (hw : Leftover w) (h : Gathers first others added)
    (none : ¬ lit "<h2" <:+: first) (all : ∀ other ∈ others, ¬ lit "<h2" <:+: other) :
    w <:+: first ++ added ↔ w <:+: first ∨ ∃ other ∈ others, w <:+: other := by
  cases hw
  case value => exact h.infix_iff (by decide) (by decide)
  case wrapper start stop tags =>
    cases tags
    case legend => exact h.infix_iff (by decide) (by decide)
    case caption => exact h.infix_iff (by decide) (by decide)
    case heading name one =>
      have start : lit "<h2" <:+: lit "<h2" ++ (name ++ ['>']) ++ lit "</h2>" := ⟨[], name ++ ['>'] ++ lit "</h2>", by simp⟩
      have merged : ¬ lit "<h2" <:+: first ++ added := by
        rw [h.infix_iff (by decide) (by decide), not_or]
        exact ⟨none, fun ⟨other, ho, hi⟩ => all other ho hi⟩
      constructor
      case mp => exact fun hi => absurd (start.trans hi) merged
      case mpr =>
        rintro (hi | ⟨other, ho, hi⟩)
        · exact absurd (start.trans hi) none
        · exact absurd (start.trans hi) (all other ho)

end Leftover
end Borders

section Merging

-- Text that is not joined with what comes behind it to an empty element or an empty value.
structure Unjoined (s : Text) : Prop where
  title : ∀ start stop, TitleTags start stop → ¬ start <:+ s
  value : ∀ c ∈ s.getLast?, c ≠ '=' ∧ c ≠ '\x22'

-- With several head sections: in none of them a heading begins, and nothing is joined where those behind the first go.
def HeadsApart (s : Text) : Prop := ∃ front sections, Sections s front sections ∧ (2 ≤ sections.length →
  (∀ entry ∈ sections, ¬ lit "<h2" <:+: entry.1) ∧ ∀ entry ∈ sections.dropLast, Unjoined entry.2)

theorem Leftover.infix_unjoined (hw : Leftover w) (paired : Paired a) (apart : Unjoined a) :
    w <:+: a ++ b ↔ w <:+: a ∨ w <:+: b := by
  constructor
  case mpr =>
    rintro (h | h)
    · exact h.trans (List.prefix_append _ _).isInfix
    · exact h.trans (List.suffix_append _ _).isInfix
  case mp =>
    intro h
    cases hw
    case wrapper start stop tags =>
      rcases tags.infix_append paired h with h | h | ⟨h, _⟩
      · exact .inl h
      · exact .inr h
      · exact absurd h (apart.title start stop tags)
    case value =>
      rcases infix_append_cases h with h | h | ⟨u, v, hu, hv, he, hs, _⟩
      · exact .inl h
      · exact .inr h
      · obtain ⟨u, c, rfl⟩ := (List.eq_nil_or_concat' u).resolve_left hu
        obtain ⟨front, rfl⟩ := hs
        have inside : c ∈ emptyValue := he ▸ (by simp)
        have last := apart.value c (by simp)
        have : c = '=' ∨ c = '\x22' ∨ c = '\x22' := by simpa [emptyValue, lit] using inside
        tauto

theorem Sections.infix_iff (h : Sections s front sections) (hw : Leftover w) (paired : Paired s)
    (none : ∀ entry ∈ sections, ¬ lit "<h2" <:+: entry.1) :
    w <:+: s ↔ w <:+: front ∨ (∃ entry ∈ sections, w <:+: entry.1) ∨ ∃ entry ∈ sections, w <:+: entry.2 := by
  induction h
  case last => simp
  case cons s front inside gap sections _ _ _ hi =>
    have ⟨first, rest⟩ := List.forall_mem_cons.mp none
    have before : Paired front := paired.left
    rw [hw.infix_section before first, hi paired.right.right.right.right rest]
    simp only [List.mem_cons, or_and_right, exists_or, exists_eq_left, or_assoc, or_left_comm]

theorem Sections.infix_around_iff (h : Sections s front sections) (hw : Leftover w) (paired : Paired s)
    (first : sections ≠ [] → Unjoined front) (apart : ∀ entry ∈ sections.dropLast, Unjoined entry.2) :
    w <:+: front ++ sections.flatMap Prod.snd ↔ w <:+: front ∨ ∃ entry ∈ sections, w <:+: entry.2 := by
  induction h
  case last => simp
  case cons s front inside gap sections _ _ _ hi =>
    have gap' : sections ≠ [] → Unjoined gap := fun hne => apart (inside, gap) (by simp [List.dropLast_cons_of_ne_nil hne])
    have rest : ∀ entry ∈ sections.dropLast, Unjoined entry.2 := by
      intro entry he
      have hne : sections ≠ [] := by
        rintro rfl
        cases he
      exact apart entry (by simp [List.dropLast_cons_of_ne_nil hne, he])
    have before : Paired front := paired.left
    rw [List.flatMap_cons, hw.infix_unjoined before (first (List.cons_ne_nil _ _)),
      hi paired.right.right.right.right gap' rest]
    simp only [List.mem_cons, or_and_right, exists_or, exists_eq_left]

theorem leftover_mergeHeads_iff (hw : Leftover w) (paired : Paired s) (apart : HeadsApart s) :
    w <:+: mergeHeads s ↔ w <:+: s := by
  by_cases hl : (headSection.finds s).length ≤ 1
  case pos => rw [mergeHeads_of_single hl]
  case neg =>
    obtain ⟨front, first, gap, others, parts, more⟩ := exists_sections_several (Nat.lt_of_not_le hl)
    obtain ⟨_, _, parts', apart⟩ := apart
    obtain ⟨rfl, rfl⟩ := parts.unique parts' rfl
    obtain ⟨none, apart⟩ := apart (Nat.succ_le_succ (List.length_pos_iff.mpr more))
    obtain ⟨added, gathers, merged, _⟩ := parts.mergeHeads_several more
    obtain ⟨closed, all⟩ := List.forall_mem_cons.mp none
    rw [List.dropLast_cons_of_ne_nil more] at apart
    obtain ⟨between, apart⟩ := List.forall_mem_cons.mp apart
    obtain ⟨s', rest, rfl⟩ := parts.exists_rest
    have before : Paired front := paired.left
    have behind : Paired s' := paired.right.right.right.right
    have later : ∀ other ∈ others.map Prod.fst, ¬ lit "<h2" <:+: other := List.forall_mem_map.mpr all
    have unheaded : ¬ lit "<h2" <:+: first ++ added := by
      rw [gathers.infix_iff (by decide) (by decide), not_or]
      exact ⟨closed, fun ⟨other, ho, hi⟩ => later other ho hi⟩
    rw [merged, hw.infix_section before unheaded, hw.infix_lines gathers closed later,
      rest.infix_around_iff hw behind (fun _ => between) apart, hw.infix_section before closed,
      rest.infix_iff hw behind all]
    simp only [List.mem_map, exists_exists_and_eq_and, or_assoc, or_left_comm]

end Merging

-- A page stays as it is when it is cleaned again if and only if nothing is left in it that cleaning looks for. If no tag
-- begins in another one, a clean page has one head section at most; and something is left if and only if an element has
-- become empty on the way or an empty value stands around others, where the merging of head sections brings nothing
-- together.
theorem clean_again_iff (s : Text) :
    (clean (clean s) = clean s ↔ Finished (clean s)) ∧
      (Paired s → (headSection.finds (clean s)).length ≤ 1 ∧
        (HeadsApart (dropEmptyAttributes (dropEmptyWrappers s)) →
          (Finished (clean s) ↔ ¬ Hollow s ∧ ¬ Torn (dropEmptyWrappers s)))) := by
  refine ⟨clean_eq_self_iff, fun paired => ?_⟩
  have paired' : Paired (dropEmptyAttributes (dropEmptyWrappers s)) := paired.dropEmptyWrappers.dropEmptyAttributes
  have single : (headSection.finds (clean s)).length ≤ 1 := single_mergeHeads paired'
  refine ⟨single, fun apart => ?_⟩
  rw [← leftover_iff paired]
  constructor
  case mp => exact fun finished w hw hi => finished.none w hw ((leftover_mergeHeads_iff hw paired' apart).mpr hi)
  case mpr =>
    intro none
    exact ⟨fun w hw hi => none w hw ((leftover_mergeHeads_iff hw paired' apart).mp hi), single⟩

def headed : Text := lit "<head>a</head><legend class=\"b\" title=''></legend><head>c</head>"

theorem clean_again_headed :
    Paired headed ∧ HeadsApart (dropEmptyAttributes (dropEmptyWrappers headed)) ∧
      clean headed = lit "<head>a\nc\n</head><legend class=\"b\" title=''></legend>" ∧
      clean (clean headed) = clean headed ∧ ¬ Hollow headed ∧ ¬ Torn (dropEmptyWrappers headed) := by
  have paired : Paired headed := by
    have parts : headed = tag (lit "head") ++ (lit "a" ++ (tag (lit "/head") ++ (tag (lit "legend class=\"b\" title=''") ++
        (tag (lit "/legend") ++ (tag (lit "head") ++ (lit "c" ++ tag (lit "/head"))))))) := by decide +kernel
    rw [parts]
    have each {inner rest : Text} (h : '<' ∉ inner) (hr : Paired rest) : Paired (tag inner ++ rest) := (paired_tag h).append hr
    have run {front rest : Text} (h : '<' ∉ front) (hr : Paired rest) : Paired (front ++ rest) := (paired_of_free h).append hr
    exact each (by decide) <| run (by decide) <| each (by decide) <| each (by decide) <| each (by decide) <|
      each (by decide) <| run (by decide) <| paired_tag (by decide)
  have text : dropEmptyAttributes (dropEmptyWrappers headed) =
      [] ++ (headStart ++ (lit "a" ++ (headEnd ++ (lit "<legend class=\"b\" title=''></legend>" ++
        (headStart ++ (lit "c" ++ (headEnd ++ []))))))) := by decide +kernel
  have apart : HeadsApart (dropEmptyAttributes (dropEmptyWrappers headed)) := by
    have last : Sections [] [] [] := .last fun a inside b he => by simp [headStart, lit] at he
    refine ⟨[], [(lit "a", lit "<legend class=\"b\" title=''></legend>"), (lit "c", [])], ?_, fun _ => ⟨by decide, ?_⟩⟩
    · rw [text]
      exact .cons (by decide) (by decide) (.cons (by decide) (by decide) last)
    · rintro _ (_ | ⟨_, ⟨⟩⟩)
      constructor
      case title =>
        intro start stop tags hs
        cases tags
        case legend => exact absurd hs (by decide)
        case caption => exact absurd hs (by decide)
        case heading => exact absurd ((List.prefix_append _ _).isInfix.trans hs.isInfix) (by decide)
      case value =>
        have last : (lit "<legend class=\"b\" title=''></legend>").getLast? = some '>' := by decide
        rw [last]
        rintro _ ⟨⟩
        decide
  have again : clean (clean headed) = clean headed := by decide +kernel
  obtain ⟨same, rest⟩ := clean_again_iff headed
  obtain ⟨_, finished⟩ := rest paired
  exact ⟨paired, apart, by decide +kernel, again, (finished apart).mp (same.mp again)⟩

-- Once its empty attribute is gone, the element has none.
theorem not_clean_again_legend :
    Paired (lit "<legend class=\"\"></legend>") ∧
      clean (lit "<legend class=\"\"></legend>") = lit "<legend></legend>" ∧
      clean (clean (lit "<legend class=\"\"></legend>")) = [] := by
  have paired : Paired (tag (lit "legend class=\"\"") ++ tag (lit "/legend")) :=
    (paired_tag (by decide)).append (paired_tag (by decide))
  exact ⟨paired, by decide +kernel⟩

-- An empty value around another one is left, and so is one that is written with blank characters.
example : clean (lit "<p title='==\"\"\"\"' class = \"\"></p>") = lit "<p title='=\"\"' class = \"\"></p>" := by
  decide +kernel

-- Where a head section is all that an element holds, merging it away leaves the element empty.
example : clean (lit "<head></head><legend><head></head></legend>") = lit "<head></head><legend></legend>" := by
  decide +kernel

end WikiPages.Cleanup
