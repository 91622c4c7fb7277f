import WikiPages.Proofs.Template.Filling
import WikiPages.Proofs.Template.Showing

namespace WikiPages.Hole

open Text

variable {a inside rest s : Text} {c : Char} {back pieces : List (Piece Text)}

def menuPrefix : Text := menuKind ++ [':']

def IsBare (inside : Text) : Prop := ¬ menuPrefix <+: inside

instance : DecidablePred IsBare := fun inside =>
  inferInstanceAs (Decidable (¬ menuPrefix <+: inside))

abbrev Leaks (s : Text) : Prop := Shows IsBare s

theorem leaks_cons : Leaks (c :: s) ↔ Opens IsBare (c :: s) ∨ Leaks s := shows_cons

-- A hole with perhaps a blank on either side.
def Kept (a : Text) : Prop :=
  ∃ before inside after, a = before ++ of inside ++ after ∧ '{' ∉ before ∧ '$' ∉ after

def Sorted (pieces : List (Piece Text)) : Prop := ∀ a, .found a ∈ pieces → a = [] ∨ Kept a

theorem blank_of_leadingBlank (hc : c ∈ (leadingBlank s).1) : isBlank c = true := by
  cases s
  case nil => cases hc
  case cons d s =>
    rw [leadingBlank] at hc
    split at hc
    case isTrue hb => exact List.mem_singleton.mp hc ▸ hb
    case isFalse => cases hc

theorem leadingBlank_sublist : (leadingBlank s).2.Sublist s := by
  cases s
  case nil => exact .slnil
  case cons c s =>
    rw [leadingBlank]
    split
    case isTrue => exact List.sublist_cons_self c s
    case isFalse => exact List.Sublist.refl _

theorem sorted_cut (s : Text) : Sorted (unfilled.cut s) := by
  intro a ha
  have ⟨t, width, hm⟩ := Pattern.exists_of_found ha
  rw [unfilled] at hm
  obtain ⟨⟨inside, rest⟩, _, he⟩ := Option.map_eq_some_iff.mp hm
  have ha := (Prod.mk.inj he).1
  split at ha
  case isFalse => exact .inl ha.symm
  case isTrue =>
    refine .inr ⟨(leadingBlank t).1, inside, (leadingBlank rest).1, ha.symm, ?_, ?_⟩
    all_goals exact fun hm => absurd (blank_of_leadingBlank hm) (by decide)

def shown (pieces : List (Piece Text)) : Text :=
  pieces.flatMap fun
    | .char c  => [c]
    | .found a => a

theorem shown_char : shown (.char c :: pieces) = c :: shown pieces := rfl

theorem shown_found : shown (.found a :: pieces) = a ++ shown pieces := rfl

theorem shown_cut (s : Text) : shown (unfilled.cut s) = stripUnfilled s := by
  rw [shown, stripUnfilled, Pattern.replace]
  congr 1
  funext p
  cases p <;> rfl

theorem Sorted.tail {p : Piece Text} (h : Sorted (p :: pieces)) : Sorted pieces :=
  fun a ha => h a (List.mem_cons_of_mem p ha)

theorem Sorted.right {front : List (Piece Text)} (h : Sorted (front ++ pieces)) : Sorted pieces :=
  fun a ha => h a (List.mem_append_right front ha)

theorem Sorted.opens_iff (h : Sorted back) :
    Opens IsBare ('$' :: shown back) ↔ ∃ gaps behind, back = gaps ++ .char '{' :: behind ∧
      (∀ p ∈ gaps, p = .found []) ∧ Opens IsBare (opening ++ shown behind) := by
  constructor
  case mpr =>
    rintro ⟨gaps, behind, rfl, hg, ho⟩
    have : shown (gaps ++ .char '{' :: behind) = '{' :: shown behind := by
      have : gaps.flatMap (fun | .char c => [c] | .found a => a) = ([] : Text) := by
        refine List.flatMap_eq_nil_iff.mpr fun p hp => ?_
        rw [hg p hp]
      rw [shown, List.flatMap_append, this]
      rfl
    rw [this]
    exact ho
  case mp =>
    intro ho
    induction back
    case nil => exact absurd ho.closing_mem (by decide)
    case cons p back hi =>
      cases p
      case char c =>
        rw [shown_char] at ho
        cases ho.next
        exact ⟨[], back, rfl, by simp, ho⟩
      case found a =>
        rcases h a List.mem_cons_self with rfl | ⟨before, inside, after, rfl, hb, _⟩
        · have ⟨gaps, behind, he, hg, ho⟩ := hi h.tail ho
          refine ⟨.found [] :: gaps, behind, congrArg _ he, ?_, ho⟩
          exact List.forall_mem_cons.mpr ⟨rfl, hg⟩
        · rw [shown_found] at ho
          cases before
          case nil => exact absurd ho.next (by decide)
          case cons c before => exact absurd (ho.next ▸ List.mem_cons_self) hb

theorem leaks_shown_char : Leaks (shown (.char c :: pieces)) ↔
    (c = '$' ∧ Opens IsBare ('$' :: shown pieces)) ∨ Leaks (shown pieces) := by
  have : Opens IsBare (c :: shown pieces) ↔ c = '$' ∧ Opens IsBare ('$' :: shown pieces) := by
    constructor
    case mp => exact fun ho => ⟨ho.head, ho.head ▸ ho⟩
    case mpr => exact fun ⟨hc, ho⟩ => hc ▸ ho
  rw [shown_char, leaks_cons, this]

theorem leaks_shown_found (h : a = [] ∨ Kept a) :
    Leaks (shown (.found a :: pieces)) ↔ Leaks a ∨ Leaks (shown pieces) := by
  rw [shown_found]
  rcases h with rfl | ⟨before, inside, after, rfl, _, ha⟩
  · exact (or_iff_right not_shows_nil).symm
  · have : before ++ of inside ++ after = before ++ opening ++ inside ++ '}' :: after := by
      simp [of, closing]
    rw [this]
    exact shows_append_of_closed ha

def OpensWithin (pieces : List (Piece Text)) : Prop :=
  ∃ front back, pieces = front ++ .char '$' :: back ∧ Opens IsBare ('$' :: shown back)

theorem opensWithin_cons {p : Piece Text} : OpensWithin (p :: pieces) ↔
    (p = .char '$' ∧ Opens IsBare ('$' :: shown pieces)) ∨ OpensWithin pieces := by
  constructor
  case mp =>
    rintro ⟨front, back, he, ho⟩
    cases front
    case nil =>
      cases he
      exact .inl ⟨rfl, ho⟩
    case cons => exact .inr ⟨_, back, (List.cons.inj he).2, ho⟩
  case mpr =>
    rintro (⟨rfl, ho⟩ | ⟨front, back, rfl, ho⟩)
    · exact ⟨[], pieces, rfl, ho⟩
    · exact ⟨p :: front, back, rfl, ho⟩

theorem Sorted.leaks_iff (h : Sorted pieces) :
    Leaks (shown pieces) ↔ (∃ a, .found a ∈ pieces ∧ Leaks a) ∨ OpensWithin pieces := by
  induction pieces
  case nil => simp [shown, not_shows_nil, OpensWithin]
  case cons p pieces hi =>
    rw [opensWithin_cons]
    cases p
    case char c =>
      have found : (∃ a, .found a ∈ .char c :: pieces ∧ Leaks a) ↔
          ∃ a, .found a ∈ pieces ∧ Leaks a := by
        simp
      rw [leaks_shown_char, hi h.tail, found, Piece.char.injEq, or_left_comm]
    case found a =>
      have found : (∃ b, .found b ∈ .found a :: pieces ∧ Leaks b) ↔
          Leaks a ∨ ∃ b, .found b ∈ pieces ∧ Leaks b := by
        simp [or_and_right, exists_or]
      have first : ¬ (Piece.found a = .char '$' ∧ Opens IsBare ('$' :: shown pieces)) :=
        fun hp => nomatch hp.1
      rw [leaks_shown_found (h a List.mem_cons_self), hi h.tail, found, or_iff_right first, or_assoc]

theorem stripUnfilled_of_unclosed (h : '}' ∉ s) : stripUnfilled s = s := by
  have hq : unfilled.Quiet s [] := by
    intro t _ ht
    have hn : '}' ∉ (leadingBlank t).2 := fun hm => h (ht.subset (leadingBlank_sublist.subset hm))
    rw [List.append_nil]
    exact Option.map_eq_none_iff.mpr (read?_eq_none_of_free hn)
  have := Pattern.replace_of_quiet (f := id) hq
  simpa [stripUnfilled] using this

-- Gaps stand between a `$` and a `{`, which then open a hole.
def Joins (pieces : List (Piece Text)) : Prop :=
  ∃ front gaps behind, pieces = front ++ .char '$' :: (gaps ++ .char '{' :: behind) ∧
    gaps ≠ [] ∧ (∀ p ∈ gaps, p = .found []) ∧ Opens IsBare (opening ++ shown behind)

-- A `$` and a `{` without a gap open nothing, since otherwise a hole would have been found there.
theorem not_opens_of_cut {front behind : List (Piece Text)}
    (h : unfilled.cut s = front ++ .char '$' :: .char '{' :: behind) :
    ¬ Opens IsBare (opening ++ shown behind) := by
  have ⟨rest, hm, hr⟩ := Pattern.exists_of_char h
  obtain ⟨rest, rfl, hb⟩ := Pattern.cut_eq_char_cons hr
  have hn : '}' ∉ rest := not_mem_of_read?_eq_none (Option.map_eq_none_iff.mp hm)
  intro ho
  have := ho.closing_mem
  rw [← hb, shown_cut, stripUnfilled_of_unclosed hn] at this
  simp [opening, hn] at this

theorem found_mem_cut : .found a ∈ unfilled.cut s ↔ a ∈ unfilled.finds s := by
  rw [Pattern.finds, List.mem_filterMap]
  constructor
  case mp => exact fun ha => ⟨_, ha, rfl⟩
  case mpr =>
    rintro ⟨p, hp, ha⟩
    cases p
    case char => cases ha
    case found => exact Option.some.inj ha ▸ hp

theorem joins_cut_iff : Joins (unfilled.cut s) ↔ OpensWithin (unfilled.cut s) := by
  have sorted {front back} (he : unfilled.cut s = front ++ .char '$' :: back) : Sorted back :=
    (he ▸ sorted_cut s).right.tail
  refine exists_congr fun front => ?_
  constructor
  case mp =>
    rintro ⟨gaps, behind, he, _, hg, ho⟩
    exact ⟨_, he, (sorted he).opens_iff.mpr ⟨gaps, behind, rfl, hg, ho⟩⟩
  case mpr =>
    rintro ⟨back, he, ho⟩
    obtain ⟨gaps, behind, rfl, hg, ho⟩ := (sorted he).opens_iff.mp ho
    refine ⟨gaps, behind, he, ?_, hg, ho⟩
    rintro rfl
    exact not_opens_of_cut he ho

-- What lets a hole through when the text is stripped: a menu hole goes around it, or gaps close up to an
-- opening.
def Reopens (s : Text) : Prop := (∃ a ∈ unfilled.finds s, Leaks a) ∨ Joins (unfilled.cut s)

theorem leaks_stripUnfilled_iff : Leaks (stripUnfilled s) ↔ Reopens s := by
  rw [← shown_cut, (sorted_cut s).leaks_iff, Reopens, joins_cut_iff]
  simp only [found_mem_cut]

end WikiPages.Hole
