import WikiPages.Cleanup
import WikiPages.Proofs.Text.Scan

namespace WikiPages.Cleanup

open Text Pattern

variable {a b s part rest : Text} {c : Char}

def headingFrom (s : Text) : Option (Unit × Nat) := do
  let (inside, behind) ← splitOnce? ['>'] s
  let _ ← (lit "</h2>").isPrefixOf? behind
  some ((), inside.length + 9)

theorem emptyHeading_start (s : Text) : emptyHeading (lit "<h2" ++ s) = headingFrom s := by
  rw [emptyHeading, isPrefixOf?_append]
  rfl

theorem emptyHeading_of_not_start (h : ¬ lit "<h2" <+: s) : emptyHeading s = none := by
  rw [emptyHeading, isPrefixOf?_eq_none_iff.mpr h]
  rfl

theorem headingFrom_append (h : '>' ∉ a) (behind : Text) :
    headingFrom (a ++ '>' :: behind) =
      if lit "</h2>" <+: behind then some ((), a.length + 9) else none := by
  rw [headingFrom, splitOnce?_of_free h]
  split
  case isTrue hp =>
    have ⟨rest, hr⟩ := hp
    change (lit "</h2>").isPrefixOf? behind >>= _ = _
    rw [← hr, isPrefixOf?_append]
    rfl
  case isFalse hp =>
    change (lit "</h2>").isPrefixOf? behind >>= _ = _
    rw [isPrefixOf?_eq_none_iff.mpr hp]
    rfl

theorem headingFrom_of_free (h : '>' ∉ s) : headingFrom s = none := by
  have : splitOnce? ['>'] (s ++ []) = _ := splitOnce?_of_free_append h
  rw [List.append_nil] at this
  rw [headingFrom, this]
  rfl

theorem exists_of_emptyHeading {width : Nat} (h : emptyHeading s = some ((), width)) :
    ∃ inside rest, '>' ∉ inside ∧ s = lit "<h2" ++ (inside ++ ('>' :: (lit "</h2>" ++ rest))) ∧
      width = inside.length + 9 := by
  by_cases hp : lit "<h2" <+: s
  case neg =>
    rw [emptyHeading_of_not_start hp] at h
    cases h
  case pos =>
    have ⟨s, hs⟩ := hp
    subst hs
    rw [emptyHeading_start] at h
    by_cases hm : '>' ∈ s
    case neg =>
      rw [headingFrom_of_free hm] at h
      cases h
    case pos =>
      have ⟨inside, behind, he, hi⟩ := List.eq_append_cons_of_mem hm
      subst he
      rw [headingFrom_append hi] at h
      split at h
      case isTrue hb =>
        have ⟨rest, hr⟩ := hb
        cases h
        exact ⟨inside, rest, hi, by rw [hr], rfl⟩
      case isFalse => cases h

theorem emptyHeading_bounded : emptyHeading.Bounded := by
  intro s x width h
  obtain ⟨inside, rest, _, rfl, rfl⟩ := exists_of_emptyHeading h
  simp [lit]

theorem emptyWrapper_bounded : emptyWrapper.Bounded := by
  intro s x width h
  rw [emptyWrapper] at h
  cases hl : exactly (lit "<legend></legend>") s
  case some =>
    rw [hl] at h
    exact exactly_bounded s x width (hl.trans h)
  case none =>
    cases hc : exactly (lit "<caption></caption>") s
    case some =>
      rw [hl, hc] at h
      exact exactly_bounded s x width (hc.trans h)
    case none =>
      rw [hl, hc] at h
      exact emptyHeading_bounded s x width h

-- A part behind which no empty wrapper that begins in front of it can end.
structure CutsWrappers (part : Text) : Prop where
  legend  : Cuts part (lit "<legend></legend>")
  caption : Cuts part (lit "<caption></caption>")
  start   : Cuts part (lit "<h2")
  stop    : Cuts part (lit "</h2>") ∧ Clash (lit "</h2>") part
  inside  : ∃ inside behind, part = inside ++ '>' :: behind ∧ '>' ∉ inside ∧
    Clash (lit "</h2>") behind

theorem headingFrom_cut (h : CutsWrappers part) :
    headingFrom (s ++ (part ++ rest)) = headingFrom s := by
  by_cases hm : '>' ∈ s
  case pos =>
    have ⟨a, behind, he, ha⟩ := List.eq_append_cons_of_mem hm
    subst he
    have hb : lit "</h2>" <+: behind ++ (part ++ rest) ↔ lit "</h2>" <+: behind := by
      cases behind
      case nil =>
        constructor <;> intro hp
        · exact absurd hp h.stop.2.misses
        · exact absurd hp (by decide)
      case cons => exact h.stop.1.prefix_iff (List.cons_ne_nil _ _)
    rw [List.append_assoc, List.cons_append, headingFrom_append ha, headingFrom_append ha]
    simp only [hb]
  case neg =>
    have ⟨inside, behind, he, hi, hc⟩ := h.inside
    have hw : s ++ (part ++ rest) = (s ++ inside) ++ '>' :: (behind ++ rest) := by simp [he]
    have hf : '>' ∉ s ++ inside := by
      rw [List.mem_append, not_or]
      exact ⟨hm, hi⟩
    rw [hw, headingFrom_append hf, if_neg hc.misses, headingFrom_of_free hm]

theorem emptyHeading_append (h : CutsWrappers part) (hs : s ≠ []) :
    emptyHeading (s ++ (part ++ rest)) = emptyHeading s := by
  by_cases hp : lit "<h2" <+: s
  case pos =>
    have ⟨s, he⟩ := hp
    rw [← he, List.append_assoc, emptyHeading_start, emptyHeading_start, headingFrom_cut h]
  case neg =>
    rw [emptyHeading_of_not_start hp, emptyHeading_of_not_start (mt (h.start.prefix_iff hs).mp hp)]

theorem emptyWrapper_apart (h : CutsWrappers part) : emptyWrapper.Apart a (part ++ rest) := by
  intro s hs _
  rw [emptyWrapper, emptyWrapper, exactly_append h.legend hs, exactly_append h.caption hs,
    emptyHeading_append h hs]

theorem emptyWrapper_of_free (h : '<' ∉ a) : emptyWrapper.Quiet a b := by
  intro s hs ha
  cases s
  case nil => contradiction
  case cons c s =>
    have hc : '<' ≠ c := by
      rintro rfl
      exact h (ha.subset List.mem_cons_self)
    have hp (name : Text) : ¬ '<' :: name <+: c :: (s ++ b) :=
      fun hp => hc (List.cons_prefix_cons.mp hp).1
    have hl : ¬ lit "<legend></legend>" <+: c :: (s ++ b) := hp _
    have hk : ¬ lit "<caption></caption>" <+: c :: (s ++ b) := hp _
    have hh : ¬ lit "<h2" <+: c :: (s ++ b) := hp _
    rw [List.cons_append, emptyWrapper, exactly_of_miss hl, exactly_of_miss hk,
      emptyHeading_of_not_start hh]
    rfl

theorem takeWhile_append_of_stop {p : Char → Bool} (h : p c = false) :
    (s ++ c :: rest).takeWhile p = s.takeWhile p := by
  induction s
  case nil => simp [h]
  case cons d s hi => simp [List.takeWhile_cons, hi]

theorem dropWhile_append_of_stop {p : Char → Bool} (h : p c = false) :
    (s ++ c :: rest).dropWhile p = s.dropWhile p ++ c :: rest := by
  induction s
  case nil => simp [h]
  case cons d s hi =>
    rw [List.cons_append, List.dropWhile_cons, List.dropWhile_cons, hi]
    split <;> rfl

def Stops (c : Char) : Prop := isBlank c = false ∧ isNameChar c = false

instance : Decidable (Stops c) :=
  inferInstanceAs (Decidable (_ ∧ _))

def behindName (s : Text) : Text := (s.dropWhile isBlank).dropWhile isNameChar

theorem behindName_append (h : Stops c) : behindName (s ++ c :: rest) = behindName s ++ c :: rest := by
  rw [behindName, dropWhile_append_of_stop h.1, dropWhile_append_of_stop h.2, behindName]

theorem behindName_suffix : behindName s <:+ s :=
  (List.dropWhile_suffix _).trans (List.dropWhile_suffix _)

def emptyValue : Text := lit "=\"\""

theorem emptyAttribute_of_value (h : emptyValue <+: behindName s) :
    emptyAttribute s = some ((), (s.takeWhile isBlank).length +
      ((s.dropWhile isBlank).takeWhile isNameChar).length + 3) := by
  have ⟨rest, hr⟩ := h
  rw [behindName] at hr
  rw [emptyAttribute, ← hr]
  exact congrArg (Option.map _) (isPrefixOf?_append emptyValue rest)

theorem emptyAttribute_of_no_value (h : ¬ emptyValue <+: behindName s) : emptyAttribute s = none := by
  have := isPrefixOf?_eq_none_iff.mpr h
  rw [emptyAttribute]
  exact congrArg _ this

theorem emptyAttribute_bounded : emptyAttribute.Bounded := by
  intro s x width h
  by_cases hv : emptyValue <+: behindName s
  case pos =>
    rw [emptyAttribute_of_value hv] at h
    have hb := congrArg List.length (@List.takeWhile_append_dropWhile _ isBlank s)
    have hn := congrArg List.length (@List.takeWhile_append_dropWhile _ isNameChar (s.dropWhile isBlank))
    have hl : 3 ≤ (behindName s).length := hv.length_le
    rw [List.length_append] at hb hn
    rw [behindName] at hl
    cases h
    omega
  case neg =>
    rw [emptyAttribute_of_no_value hv] at h
    cases h

theorem not_emptyValue_of_ne (h : '=' ≠ c) : ¬ emptyValue <+: c :: rest :=
  fun hp => h (List.cons_prefix_cons.mp hp).1

theorem emptyAttribute_append (h : Stops c) (hc : Cuts [c] emptyValue) (hv : ¬ emptyValue <+: c :: rest) :
    emptyAttribute (s ++ c :: rest) = emptyAttribute s := by
  have hv : emptyValue <+: behindName (s ++ c :: rest) ↔ emptyValue <+: behindName s := by
    rw [behindName_append h]
    cases behindName s
    case nil =>
      constructor <;> intro hp
      · exact absurd hp hv
      · exact absurd hp (by decide)
    case cons => exact hc.prefix_iff (List.cons_ne_nil _ _)
  by_cases hp : emptyValue <+: behindName s
  case pos =>
    rw [emptyAttribute_of_value hp, emptyAttribute_of_value (hv.mpr hp), takeWhile_append_of_stop h.1,
      dropWhile_append_of_stop h.1, takeWhile_append_of_stop h.2]
  case neg =>
    rw [emptyAttribute_of_no_value hp, emptyAttribute_of_no_value (mt hv.mp hp)]

theorem emptyAttribute_apart : emptyAttribute.Apart a ('<' :: rest) :=
  fun _ _ _ => emptyAttribute_append (by decide) (by decide) (not_emptyValue_of_ne (by decide))

theorem emptyAttribute_of_free (h : '=' ∉ a) (hs : Stops c) (hv : ¬ emptyValue <+: c :: rest) :
    emptyAttribute.Quiet a (c :: rest) := by
  intro s _ ha
  apply emptyAttribute_of_no_value
  rw [behindName_append hs]
  have hb : '=' ∉ behindName s := fun hm => h (ha.subset (behindName_suffix.subset hm))
  cases hc : behindName s
  case nil => exact hv
  case cons d t =>
    intro hp
    have hd : '=' = d := (List.cons_prefix_cons.mp hp).1
    exact hb (hc ▸ hd ▸ List.mem_cons_self)

theorem dropEmptyAttributes_of_free (h : '=' ∉ a) (hs : Stops c) (hv : ¬ emptyValue <+: c :: rest) :
    dropEmptyAttributes (a ++ c :: rest) = a ++ dropEmptyAttributes (c :: rest) :=
  replace_of_quiet (emptyAttribute_of_free h hs hv)

theorem not_emptyValue (h : '\x22' ≠ c) : ¬ emptyValue <+: '=' :: '\x22' :: c :: rest :=
  fun hp => h (List.cons_prefix_cons.mp (List.cons_prefix_cons.mp (List.cons_prefix_cons.mp hp).2).2).1

theorem dropEmptyAttributes_value (h : '\x22' ≠ c) :
    dropEmptyAttributes ('=' :: '\x22' :: c :: rest) =
      '=' :: '\x22' :: dropEmptyAttributes (c :: rest) := by
  have hm : emptyAttribute ('=' :: '\x22' :: c :: rest) = none :=
    emptyAttribute_of_no_value (not_emptyValue h)
  rw [dropEmptyAttributes, replace_of_miss hm]
  rfl

theorem dropEmptyWrappers_of_free (h : '<' ∉ a) :
    dropEmptyWrappers (a ++ b) = a ++ dropEmptyWrappers b :=
  replace_of_quiet (emptyWrapper_of_free h)

theorem headSection_of_not_start (h : ¬ headStart <+: s) : headSection s = none := by
  rw [headSection, isPrefixOf?_eq_none_iff.mpr h]
  rfl

theorem headSection_start (s : Text) : headSection (headStart ++ s) =
    (splitOnce? headEnd s).map fun (inside, _) =>
      (inside, headStart.length + inside.length + headEnd.length) := by
  rw [headSection, isPrefixOf?_append, Option.map_eq_bind]
  rfl

-- A part behind which no head section that begins in front of it can end.
structure CutsHeads (part rest : Text) : Prop where
  start : Cuts part headStart
  stop  : Cuts part headEnd
  none  : ¬ headEnd <:+: part ++ rest

theorem headSection_within (h : CutsHeads part rest) : headSection.Within a (part ++ rest) := by
  intro s hs _ x width hw
  by_cases hp : headStart <+: s ++ (part ++ rest)
  case neg =>
    rw [headSection_of_not_start hp] at hw
    cases hw
  case pos =>
    have ⟨t, ht⟩ := (h.start.prefix_iff hs).mp hp
    rw [← ht, List.append_assoc, headSection_start] at hw
    have ⟨⟨inside, behind⟩, hc, he⟩ := Option.map_eq_some_iff.mp hw
    cases he
    have hc := splitOnce?_eq_some hc
    rw [List.append_assoc] at hc
    cases List.append_eq_append_iff.mp hc
    case inl hl =>
      have ⟨front, _, hr⟩ := hl
      exact absurd ⟨front, behind, hr ▸ List.append_assoc _ _ _⟩ h.none
    case inr hr =>
      have ⟨back, hi, hr⟩ := hr
      cases back
      case nil => exact absurd ⟨[], behind, hr⟩ h.none
      case cons d back =>
        have hb : headEnd <+: d :: back :=
          (h.stop.prefix_iff (List.cons_ne_nil d back)).mp ⟨behind, hr⟩
        have hb := hb.length_le
        rw [← ht, hi, List.length_append, List.length_append]
        omega

theorem headSection_quiet (h : ¬ headEnd <:+: s) : headSection.Quiet s [] := by
  intro t _ ht
  rw [List.append_nil]
  by_cases hp : headStart <+: t
  case neg => exact headSection_of_not_start hp
  case pos =>
    have ⟨u, hu⟩ := hp
    have hn : ¬ headEnd <:+: u := by
      intro hi
      refine h (hi.trans ?_)
      exact ((List.suffix_append headStart u).trans (hu ▸ ht)).isInfix
    rw [← hu, headSection_start, splitOnce?_eq_none_iff.mpr hn]
    rfl

theorem exists_replaceHeads (head : Text) (pieces : List (Piece Text)) (s : Text) :
    ∃ front, replaceHeads head (pieces ++ s.map .char) = front ++ s := by
  induction pieces generalizing head
  case nil =>
    refine ⟨[], ?_⟩
    induction s
    case nil => rfl
    case cons c s hi => exact congrArg (c :: ·) hi
  case cons piece pieces hi =>
    cases piece
    case char c =>
      have ⟨front, hf⟩ := hi head
      exact ⟨c :: front, congrArg (c :: ·) hf⟩
    case found inside =>
      have ⟨front, hf⟩ := hi []
      exact ⟨head ++ front, by rw [List.append_assoc, ← hf]; rfl⟩

theorem exists_mergeHeads (h : CutsHeads part rest) (a : Text) :
    ∃ front, mergeHeads (a ++ (part ++ rest)) = front ++ (part ++ rest) := by
  have ⟨pieces, hp⟩ := exists_cut_append (@headSection_within a part rest h)
  have hq := cut_of_quiet (headSection_quiet h.none)
  rw [List.append_nil] at hq
  rw [hq, cut_nil, List.append_nil] at hp
  rw [mergeHeads]
  split
  case h_1 => exact hp ▸ exists_replaceHeads _ _ _
  case h_2 => exact ⟨a, rfl⟩

end WikiPages.Cleanup
