import WikiPages.Proofs.Template.AtOnce
import WikiPages.Proofs.Template.Leaks

namespace WikiPages.Hole

open Text

variable {a inside s t : Text} {c : Char}

inductive Strips : Text → Text → Prop
  | nil : Strips [] []
  | char {c : Char} {s t : Text} (plain : c ≠ '$') (rest : Strips s t) : Strips (c :: s) (c :: t)
  | kept {inside s t : Text} (plain : IsInside inside) (menu : ¬ IsBare inside) (rest : Strips s t) :
    Strips (of inside ++ s) (of inside ++ t)
  | dropped {before inside after s t : Text} (plain : IsInside inside) (bare : IsBare inside)
    (blanks : ∀ c ∈ before ++ after, isBlank c = true) (rest : Strips s t) :
    Strips (before ++ (of inside ++ (after ++ s))) t

theorem Strips.blanks (h : Strips s t) (ha : ∀ c ∈ a, isBlank c = true) : Strips (a ++ s) (a ++ t) := by
  induction a
  case nil => exact h
  case cons c a hi =>
    have ⟨blank, rest⟩ := List.forall_mem_cons.mp ha
    have plain : c ≠ '$' := by
      rintro rfl
      exact absurd blank (by decide)
    exact .char plain (hi rest)

theorem leadingBlank_append (s : Text) : (leadingBlank s).1 ++ (leadingBlank s).2 = s := by
  cases s
  case nil => rfl
  case cons c s =>
    rw [leadingBlank]
    split <;> rfl

theorem Clean.leadingBlank (h : Clean s) : Clean (leadingBlank s).2 := by
  cases h
  case nil => exact .nil
  case char c s plain rest =>
    rw [Hole.leadingBlank]
    split
    case isTrue => exact rest
    case isFalse => exact .char plain rest
  case hole inside s plain rest =>
    have same : Hole.leadingBlank (of inside ++ s) = ([], of inside ++ s) := rfl
    rw [same]
    exact .hole plain rest

theorem stripUnfilled_of {before : Text} (hi : '}' ∉ inside) (hb : leadingBlank (before ++ (of inside ++ s)) =
    (before, of inside ++ s)) :
    stripUnfilled (before ++ (of inside ++ s)) =
      (if menuPrefix.isPrefixOf inside then before ++ of inside ++ (leadingBlank s).1 else []) ++
        stripUnfilled (leadingBlank s).2 := by
  have whole : before ++ (of inside ++ s) = (before ++ of inside ++ (leadingBlank s).1) ++ (leadingBlank s).2 := by
    rw [List.append_assoc, leadingBlank_append, List.append_assoc]
  have found : unfilled (before ++ (of inside ++ s)) =
      some (if menuPrefix.isPrefixOf inside then before ++ of inside ++ (leadingBlank s).1 else [],
        (before ++ of inside ++ (leadingBlank s).1).length) := by
    rw [unfilled, hb]
    dsimp only
    rw [read?_of hi]
    rfl
  rw [whole] at found ⊢
  exact Pattern.replace_of_hit (by simp [of, opening]) found

theorem strips_of (before : Text) (hi : IsInside inside) (hb : leadingBlank (before ++ (of inside ++ s)) =
    (before, of inside ++ s)) (rest : Strips (leadingBlank s).2 (stripUnfilled (leadingBlank s).2)) :
    Strips (before ++ (of inside ++ s)) (stripUnfilled (before ++ (of inside ++ s))) := by
  have front : ∀ c ∈ before, isBlank c = true := by
    have same : (leadingBlank (before ++ (of inside ++ s))).1 = before := congrArg Prod.fst hb
    exact fun c hc => blank_of_leadingBlank (same.symm ▸ hc)
  have back : ∀ c ∈ (leadingBlank s).1, isBlank c = true := fun c => blank_of_leadingBlank
  rw [stripUnfilled_of hi.closing hb]
  nth_rewrite 1 [← leadingBlank_append s]
  split
  case isTrue menu =>
    rw [List.append_assoc, List.append_assoc]
    exact (Strips.kept hi (not_not.mpr (List.isPrefixOf_iff_prefix.mp menu)) (rest.blanks back)).blanks front
  case isFalse bare =>
    exact .dropped hi (fun hm => bare (List.isPrefixOf_iff_prefix.mpr hm)) (List.forall_mem_append.mpr ⟨front, back⟩) rest

theorem stripUnfilled_of_none (h : read? (leadingBlank (c :: s)).2 = none) :
    stripUnfilled (c :: s) = c :: stripUnfilled s := by
  refine Pattern.replace_of_miss ?_
  simp only [unfilled, h]
  rfl

theorem stripUnfilled_cons (hc : c ≠ '$') (hs : isBlank c = true → s.head? ≠ some '$') :
    stripUnfilled (c :: s) = c :: stripUnfilled s := by
  refine stripUnfilled_of_none ?_
  rw [leadingBlank]
  split
  case isFalse => exact read?_of_ne hc
  case isTrue blank =>
    cases s
    case nil => rfl
    case cons d s => exact read?_of_ne fun he => hs blank (he ▸ rfl)

theorem length_leadingBlank_lt (inside s : Text) : (leadingBlank s).2.length < (of inside ++ s).length := by
  have := leadingBlank_sublist (s := s) |>.length_le
  simp [of, opening]
  omega

theorem strips_stripUnfilled (h : Clean s) : Strips s (stripUnfilled s) := by
  induction hn : s.length using Nat.strong_induction_on generalizing s
  case h n hi =>
    cases h
    case nil => exact .nil
    case hole inside s plain rest =>
      have shorter : (leadingBlank s).2.length < n := hn ▸ length_leadingBlank_lt inside s
      exact strips_of [] plain rfl (hi _ shorter rest.leadingBlank rfl)
    case char c s plain rest =>
      by_cases hs : isBlank c = true → s.head? ≠ some '$'
      case pos =>
        rw [stripUnfilled_cons plain hs]
        exact .char plain (hi s.length (by simp [← hn]) rest rfl)
      case neg =>
        obtain ⟨blank, head⟩ := Classical.not_imp.mp hs
        cases rest
        case nil => exact absurd (Option.some_ne_none '$').symm head
        case char d s other _ => exact absurd (Option.some.inj (not_not.mp head)) other
        case hole inside s inner rest =>
          have shorter : (leadingBlank s).2.length < n :=
            hn ▸ (length_leadingBlank_lt inside s).trans (Nat.lt_succ_self _)
          exact strips_of [c] inner (if_pos blank) (hi _ shorter rest.leadingBlank rfl)

theorem free_of_blanks (h : ∀ c ∈ a, isBlank c = true) : '$' ∉ a := fun hm => absurd (h '$' hm) (by decide)

theorem insides_around {before after : Text} (hi : IsInside inside) (blanks : ∀ c ∈ before ++ after, isBlank c = true) :
    insides (before ++ (of inside ++ (after ++ s))) = inside :: insides s := by
  have ⟨front, back⟩ := List.forall_mem_append.mp blanks
  rw [insides_append_of_free (free_of_blanks front), insides_of hi.closing, insides_append_of_free (free_of_blanks back)]

theorem Strips.insides_eq (h : Strips s t) : Clean t ∧ insides t = (insides s).filter (¬ IsBare ·) := by
  induction h
  case nil => exact ⟨.nil, rfl⟩
  case char plain _ hi =>
    have ⟨clean, same⟩ := hi
    exact ⟨.char plain clean, by rw [insides_cons plain, insides_cons plain, same]⟩
  case kept plain menu _ hi =>
    have ⟨clean, same⟩ := hi
    refine ⟨.hole plain clean, ?_⟩
    rw [insides_of plain.closing, insides_of plain.closing, List.filter_cons_of_pos (by simpa using menu), same]
  case dropped before inside after s t plain bare blanks _ hi =>
    have ⟨clean, same⟩ := hi
    exact ⟨clean, by rw [insides_around plain blanks, List.filter_cons_of_neg (by simpa using bare), same]⟩

section Pieces

variable {after : Option Text}

def beginsBare : List (Piece Text) → Bool
  | .found inside :: _ => decide (IsBare inside)
  | _                  => false

-- What is left of characters and holes when the holes are taken out, but for those of menus. `after` is the hole
-- directly in front. A blank goes with the hole behind which it stands, or else with the one in front of which it does.
def left : (after : Option Text) → List (Piece Text) → Text
  | _, [] => []
  | _, .found inside :: rest => (if IsBare inside then [] else of inside) ++ left (some inside) rest
  | after, .char c :: rest =>
    let goes := (after.map fun inside => decide (IsBare inside)).getD (beginsBare rest)
    (if isBlank c && goes then [] else [c]) ++ left none rest

theorem cut_any_of_none (h : read? (c :: s) = none) : any.cut (c :: s) = .char c :: any.cut s :=
  Pattern.cut_of_miss (by rw [any, h]; rfl)

theorem cut_any_of (h : '}' ∉ inside) (s : Text) : any.cut (of inside ++ s) = .found inside :: any.cut s :=
  Pattern.cut_of_hit (of_ne_nil inside) (any_of h s)

theorem beginsBare_cut_any (h : read? s = none) : beginsBare (any.cut s) = false := by
  cases s
  case nil => rfl
  case cons c s =>
    rw [cut_any_of_none h]
    rfl

theorem read?_eq_none_of_blank (h : isBlank c = true) : read? (c :: s) = none :=
  read?_of_ne fun he => absurd h (he ▸ by decide)

theorem left_cut_any (inside s : Text) : left (some inside) (any.cut s) =
    (if IsBare inside then [] else (leadingBlank s).1) ++ left none (any.cut (leadingBlank s).2) := by
  cases s
  case nil => by_cases bare : IsBare inside <;> simp [bare, leadingBlank, left]
  case cons c s =>
    cases hb : isBlank c
    case true =>
      rw [cut_any_of_none (read?_eq_none_of_blank hb), left]
      by_cases bare : IsBare inside <;> simp [bare, leadingBlank, hb]
    case false =>
      have same : leadingBlank (c :: s) = ([], c :: s) := by simp [leadingBlank, hb]
      rw [same, ite_self, List.nil_append]
      cases hr : read? (c :: s)
      case none => rw [cut_any_of_none hr, left, left, hb, Bool.false_and, Bool.false_and]
      case some found =>
        obtain ⟨hs, closing⟩ := read?_eq_some_iff.mp hr
        rw [hs, cut_any_of closing]
        rfl

theorem stripUnfilled_eq_left (s : Text) : stripUnfilled s = left none (any.cut s) := by
  induction hn : s.length using Nat.strong_induction_on generalizing s
  case h n hi =>
    have atHole (before : Text) {inside rest : Text} (closing : '}' ∉ inside) (shorter : (of inside ++ rest).length ≤ n)
        (hb : leadingBlank (before ++ (of inside ++ rest)) = (before, of inside ++ rest)) :
        stripUnfilled (before ++ (of inside ++ rest)) =
          (if IsBare inside then [] else before) ++ left none (any.cut (of inside ++ rest)) := by
      have := length_leadingBlank_lt inside rest
      rw [stripUnfilled_of closing hb, hi _ (by omega) _ rfl, cut_any_of closing, left, left_cut_any]
      by_cases bare : IsBare inside
      case pos =>
        have other : menuPrefix.isPrefixOf inside = false := Bool.not_eq_true _ ▸ (bare <| List.isPrefixOf_iff_prefix.mp ·)
        simp [bare, other]
      case neg =>
        have menu : menuPrefix.isPrefixOf inside = true := List.isPrefixOf_iff_prefix.mpr (not_not.mp bare)
        simp [bare, menu]
    cases s
    case nil => rfl
    case cons c s =>
      cases hr : read? (c :: s)
      case some found =>
        obtain ⟨hs, closing⟩ := read?_eq_some_iff.mp hr
        rw [hs] at hn ⊢
        have := atHole [] closing (Nat.le_of_eq hn) rfl
        rwa [ite_self] at this
      case none =>
        rw [cut_any_of_none hr, left]
        by_cases here : isBlank c = true ∧ read? s ≠ none
        case pos =>
          obtain ⟨blank, found⟩ := here
          obtain ⟨⟨inside, rest⟩, hr⟩ := Option.ne_none_iff_exists'.mp found
          obtain ⟨rfl, closing⟩ := read?_eq_some_iff.mp hr
          have := atHole [c] closing (by rw [← hn]; exact Nat.le_succ _) (if_pos blank)
          rw [cut_any_of closing] at this ⊢
          by_cases bare : IsBare inside <;> simpa [beginsBare, blank, bare] using this
        case neg =>
          have quiet : read? (leadingBlank (c :: s)).2 = none := by
            rw [leadingBlank]
            split
            case isTrue blank => exact not_not.mp (not_and.mp here blank)
            case isFalse => exact hr
          have stays : (isBlank c && beginsBare (any.cut s)) = false := by
            cases hb : isBlank c
            case false => rfl
            case true => exact beginsBare_cut_any (not_not.mp (not_and.mp here hb))
          rw [stripUnfilled_of_none quiet, hi s.length (by simp [← hn]) s rfl]
          simp [stays]

end Pieces
end WikiPages.Hole
