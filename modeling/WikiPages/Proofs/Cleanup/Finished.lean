import WikiPages.Proofs.Cleanup.Heads
import WikiPages.Proofs.Html.Cleaning

namespace WikiPages.Text.Pattern

variable {α : Type} {m : Pattern α} {s : Text}

theorem replace_eq_self_iff (hb : m.Bounded) (hp : ∀ s x width, m s = some (x, width) → 0 < width) :
    m.replace (fun _ => []) s = s ↔ m.Quiet s [] := by
  constructor
  case mpr =>
    intro h
    have := replace_of_quiet (f := fun _ => []) h
    rwa [List.append_nil, replace_nil, List.append_nil] at this
  case mp =>
    induction s
    case nil => exact fun _ t hne ht => absurd (List.suffix_nil.mp ht) hne
    case cons c s hi =>
      intro h
      cases hm : m (c :: s)
      case none =>
        rw [replace_of_miss hm] at h
        have hi := hi (List.cons.inj h).2
        intro t hne ht
        rcases List.suffix_cons_iff.mp ht with rfl | ht
        · rwa [List.append_nil]
        · exact hi t hne ht
      case some found =>
        -- what is found is missing behind
        obtain ⟨taken, rest, parts, width, hit⟩ := hb.exists_hit hm
        have given : taken ≠ [] := List.ne_nil_of_length_pos (width ▸ hp _ _ _ hm)
        rw [parts, replace_of_hit given hit, List.nil_append] at h
        have lengths := (replace_sublist m rest).length_le
        rw [h, List.length_append] at lengths
        have := List.length_pos_of_ne_nil given
        omega

end WikiPages.Text.Pattern

namespace WikiPages.Cleanup

open Text Pattern

variable {s t w front first : Text} {sections : List (Text × Text)} {others : List Text}

section Leftovers

-- The tags of an element that titles something, as they stand around nothing when it is dropped.
inductive TitleTags : Text → Text → Prop
  | legend  : TitleTags (lit "<legend>") (lit "</legend>")
  | caption : TitleTags (lit "<caption>") (lit "</caption>")
  | heading {inside : Text} (one : '>' ∉ inside) : TitleTags (lit "<h2" ++ (inside ++ ['>'])) (lit "</h2>")

-- What is dropped from a text: an element without content, and the empty value of an attribute.
inductive Leftover : Text → Prop
  | wrapper {start stop : Text} (tags : TitleTags start stop) : Leftover (start ++ stop)
  | value : Leftover emptyValue

theorem emptyWrapper_eq_none_iff :
    emptyWrapper s = none ↔ ∀ start stop, TitleTags start stop → ¬ start ++ stop <+: s := by
  have heading : emptyHeading s = none ↔
      ∀ inside, '>' ∉ inside → ¬ lit "<h2" ++ (inside ++ ['>']) ++ lit "</h2>" <+: s := by
    constructor
    case mp =>
      rintro h inside one ⟨rest, rfl⟩
      have parts : lit "<h2" ++ (inside ++ ['>']) ++ lit "</h2>" ++ rest =
          lit "<h2" ++ (inside ++ '>' :: (lit "</h2>" ++ rest)) := by simp
      rw [parts, emptyHeading_start, headingFrom_append one, if_pos (List.prefix_append _ _)] at h
      cases h
    case mpr =>
      intro h
      cases hw : emptyHeading s
      case none => rfl
      case some found =>
        obtain ⟨inside, rest, one, hs, _⟩ := exists_of_emptyHeading hw
        exact absurd ⟨rest, by simp [hs]⟩ (h inside one)
  rw [emptyWrapper, Option.or_eq_none_iff, Option.or_eq_none_iff, exactly_eq_none_iff, exactly_eq_none_iff, heading]
  constructor
  case mp =>
    rintro ⟨⟨legend, caption⟩, heading⟩ start stop (_ | _ | one)
    · exact legend
    · exact caption
    · exact heading _ one
  case mpr => exact fun h => ⟨⟨h _ _ .legend, h _ _ .caption⟩, fun inside one => h _ _ (.heading one)⟩

theorem dropEmptyWrappers_eq_self_iff :
    dropEmptyWrappers s = s ↔ ∀ start stop, TitleTags start stop → ¬ start ++ stop <:+: s := by
  rw [dropEmptyWrappers, replace_eq_self_iff emptyWrapper_bounded Html.emptyWrapper_pos]
  constructor
  case mp =>
    rintro h start stop tags ⟨a, b, hs⟩
    have hne : start ++ stop ++ b ≠ [] := by
      cases tags <;> simp [lit]
    have := h (start ++ stop ++ b) hne ⟨a, (List.append_assoc _ _ _).symm.trans hs⟩
    rw [List.append_nil] at this
    exact emptyWrapper_eq_none_iff.mp this start stop tags (List.prefix_append _ _)
  case mpr =>
    intro h t _ ht
    rw [List.append_nil]
    exact emptyWrapper_eq_none_iff.mpr fun start stop tags hp => h start stop tags (hp.isInfix.trans ht.isInfix)

theorem dropEmptyAttributes_eq_self_iff : dropEmptyAttributes s = s ↔ ¬ emptyValue <:+: s := by
  rw [dropEmptyAttributes, replace_eq_self_iff emptyAttribute_local.bounded emptyAttribute_local.takes]
  constructor
  case mp =>
    rintro h ⟨a, b, hs⟩
    have quiet := h (emptyValue ++ b) (by simp [emptyValue, lit]) ⟨a, (List.append_assoc _ _ _).symm.trans hs⟩
    have nameless : behindName (emptyValue ++ b) = emptyValue ++ b := rfl
    rw [List.append_nil, emptyAttribute_of_value (nameless ▸ List.prefix_append emptyValue b)] at quiet
    cases quiet
  case mpr =>
    intro h t _ ht
    rw [List.append_nil]
    refine emptyAttribute_of_no_value fun hp => h ?_
    exact hp.isInfix.trans (behindName_suffix.isInfix.trans ht.isInfix)

end Leftovers

section Lengths

variable {lines : List Text} {inside gap : Text}

def sectionText (entry : Text × Text) : Text := headStart ++ (entry.1 ++ (headEnd ++ entry.2))

theorem Sections.text_eq (h : Sections s front sections) : s = front ++ sections.flatMap sectionText := by
  induction h
  case last => simp
  case cons hi => simp [sectionText, ← hi]

theorem length_join (lines : List Text) (hne : lines ≠ []) :
    (lines.flatMap (· ++ lineBreak)).length = (join lineBreak lines).length + 1 := by
  induction lines using join.induct
  case case1 => contradiction
  case case2 => simp [lineBreak]
  case case3 t u lines hi =>
    rw [List.flatMap_cons, List.length_append, hi (List.cons_ne_nil _ _), join_cons_cons]
    simp only [List.length_append]
    omega

theorem length_spokenLines_le (inside : Text) :
    ((spokenLines inside).flatMap (· ++ lineBreak)).length ≤ inside.length + 1 := by
  have trimmed (lines : List Text) :
      (((lines.map trim).filter (· ≠ [])).flatMap (· ++ lineBreak)).length ≤ (lines.flatMap (· ++ lineBreak)).length := by
    induction lines
    case nil => rfl
    case cons line lines hi =>
      have := (trim_sublist line).length_le
      rw [List.map_cons, List.filter_cons]
      split <;> simp only [List.flatMap_cons, List.length_append] <;> omega
  have whole := length_join (split lf inside) (splitWhere_ne_nil _ _)
  have back : join lineBreak (split lf inside) = inside := join_split lf inside
  rw [back] at whole
  exact whole ▸ spokenLines_eq inside ▸ trimmed (split lf inside)

theorem length_mergeHeads_lt (h : 2 ≤ (headSection.finds s).length) : (mergeHeads s).length < s.length := by
  obtain ⟨front, first, gap, others, parts, more⟩ := exists_sections_several h
  obtain ⟨added, gathers, merged, _⟩ := parts.mergeHeads_several more
  have own : added.length ≤ 1 + (((others.map Prod.fst).flatMap spokenLines).flatMap (· ++ lineBreak)).length := by
    have fewer : (fresh first (others.map Prod.fst)).Sublist ((others.map Prod.fst).flatMap spokenLines) := by
      rw [fresh, ← newLines_eq_eraseDups]
      exact Html.newLines_sublist _ _
    have fewer := (fewer.flatMap (· ++ lineBreak)).length_le
    rw [gathers.written, ownLines, List.length_append]
    split <;> simp [lineBreak] at fewer ⊢ <;> omega
  have saved (others : List (Text × Text)) :
      (((others.map Prod.fst).flatMap spokenLines).flatMap (· ++ lineBreak)).length + (others.flatMap Prod.snd).length +
          12 * others.length ≤
        (others.flatMap sectionText).length := by
    induction others
    case nil => rfl
    case cons entry others hi =>
      have := length_spokenLines_le entry.1
      have tags : headStart.length = 6 ∧ headEnd.length = 7 := by decide
      simp only [List.map_cons, List.flatMap_cons, List.flatMap_append, List.length_append, List.length_cons,
        sectionText, tags]
      omega
  have saved := saved others
  have several := List.length_pos_iff.mpr more
  rw [merged]
  conv_rhs => rw [parts.text_eq]
  simp only [List.flatMap_cons, List.length_append, sectionText]
  omega

theorem mergeHeads_eq_nil_iff : mergeHeads s = [] ↔ s = [] := by
  constructor
  case mpr =>
    rintro rfl
    rfl
  case mp =>
    intro h
    by_cases hl : (headSection.finds s).length ≤ 1
    · rwa [mergeHeads_of_single hl] at h
    · obtain ⟨front, first, gap, others, parts, more⟩ := exists_sections_several (Nat.lt_of_not_le hl)
      obtain ⟨added, _, merged, _⟩ := parts.mergeHeads_several more
      simp [merged, headStart, lit] at h

end Lengths

-- What cleaning looks for is nowhere in a text.
structure Finished (s : Text) : Prop where
  none : ∀ w, Leftover w → ¬ w <:+: s
  head : (headSection.finds s).length ≤ 1

-- A text stays as it is if and only if there is nothing in it that cleaning looks for.
theorem clean_eq_self_iff : clean s = s ↔ Finished s := by
  constructor
  case mp =>
    intro h
    have fewer : (dropEmptyWrappers s).Sublist s := replace_sublist _ _
    have fewer' : (dropEmptyAttributes (dropEmptyWrappers s)).Sublist (dropEmptyWrappers s) := replace_sublist _ _
    have single : (headSection.finds (dropEmptyAttributes (dropEmptyWrappers s))).length ≤ 1 := by
      by_contra several
      have shorter := length_mergeHeads_lt (Nat.lt_of_not_le several)
      rw [← clean, h] at shorter
      exact absurd (fewer'.trans fewer).length_le (Nat.not_le_of_lt shorter)
    rw [clean, mergeHeads_of_single single] at h
    -- no pass adds anything, so that each of them leaves the text as it is
    have back : s.Sublist (dropEmptyWrappers s) := by rwa [h] at fewer'
    have first : dropEmptyWrappers s = s := fewer.antisymm back
    rw [first] at h single
    refine ⟨?_, h ▸ single⟩
    rintro _ (tags | _)
    · exact dropEmptyWrappers_eq_self_iff.mp first _ _ tags
    · exact dropEmptyAttributes_eq_self_iff.mp h
  case mpr =>
    rintro ⟨none, head⟩
    have first := dropEmptyWrappers_eq_self_iff.mpr fun _ _ tags => none _ (.wrapper tags)
    have second := dropEmptyAttributes_eq_self_iff.mpr (none _ .value)
    rw [clean, first, second, mergeHeads_of_single head]

end WikiPages.Cleanup
