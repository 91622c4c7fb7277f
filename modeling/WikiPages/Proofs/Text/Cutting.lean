import Mathlib.Data.List.Infix
import WikiPages.Text.Basic

namespace WikiPages.Text

variable {a b s sep rest : Text} {c : Char}

theorem forall_mem_of_all {P : Char → Prop} [DecidablePred P] (h : (s.all fun c => P c) = true) :
    ∀ c ∈ s, P c :=
  fun c hc => of_decide_eq_true (List.all_eq_true.mp h c hc)

theorem isPrefixOf?_eq_none_iff : sep.isPrefixOf? s = none ↔ ¬ sep <+: s := by
  constructor
  case mp =>
    rintro h ⟨rest, rfl⟩
    simp at h
  case mpr =>
    intro h
    cases hp : sep.isPrefixOf? s
    case none => rfl
    case some rest => exact absurd ⟨rest, (eq_append_of_isPrefixOf? hp).symm⟩ h

theorem splitOnce?_append (sep rest : Text) : splitOnce? sep (sep ++ rest) = some ([], rest) := by
  rw [splitOnce?.eq_def, isPrefixOf?_append]

theorem splitOnce?_eq_none_iff : splitOnce? sep s = none ↔ ¬ sep <:+: s := by
  induction s
  case nil =>
    rw [splitOnce?.eq_def, List.infix_nil, ← List.prefix_nil, ← isPrefixOf?_eq_none_iff]
    cases sep.isPrefixOf? [] <;> simp
  case cons c s hi =>
    rw [List.infix_cons_iff, not_or, ← hi, ← isPrefixOf?_eq_none_iff, splitOnce?.eq_def]
    cases sep.isPrefixOf? (c :: s) <;> simp

theorem contains_eq_false_iff : contains sep s = false ↔ ¬ sep <:+: s := by
  rw [← splitOnce?_eq_none_iff, contains, Option.isSome_eq_false_iff, Option.isNone_iff_eq_none]

theorem not_infix_of_splitOnce? (hne : sep ≠ []) (h : splitOnce? sep s = some (a, b)) :
    ¬ sep <:+: a ++ sep.dropLast := by
  have hl : sep.dropLast.length < sep.length := by
    have := List.length_pos_iff.mpr hne
    rw [List.length_dropLast]
    omega
  induction s generalizing a
  case nil => simp [splitOnce?_nil sep hne] at h
  case cons c s hi =>
    cases hp : sep.isPrefixOf? (c :: s)
    case some =>
      rw [splitOnce?.eq_def, hp] at h
      cases h
      intro hx
      have := hx.length_le
      rw [List.nil_append] at this
      omega
    case none =>
      rw [splitOnce?_cons hp] at h
      obtain ⟨⟨front, back⟩, hs, he⟩ := Option.map_eq_some_iff.mp h
      cases he
      rw [List.cons_append, List.infix_cons_iff, not_or]
      refine ⟨?_, hi hs⟩
      intro hx
      apply isPrefixOf?_eq_none_iff.mp hp
      have hle : sep.length ≤ (c :: (front ++ sep.dropLast)).length := hx.length_le
      rw [splitOnce?_eq_some hs]
      have : c :: (front ++ sep ++ b) =
          c :: (front ++ sep.dropLast) ++ ([sep.getLast hne] ++ b) := by
        conv_lhs => rw [← List.dropLast_append_getLast hne]
        simp
      rw [this]
      exact hx.trans (List.prefix_append _ _)

theorem splitOnce?_of_absent (h : ¬ sep <:+: a ++ sep.dropLast) :
    splitOnce? sep (a ++ sep ++ b) = some (a, b) := by
  induction a
  case nil => exact splitOnce?_append sep b
  case cons c a hi =>
    rw [List.cons_append, List.infix_cons_iff, not_or] at h
    have hp : ¬ sep <+: c :: (a ++ sep ++ b) := by
      intro hx
      refine h.1 (List.prefix_of_prefix_length_le hx ?_ ?_)
      · rw [List.append_assoc]
        refine (List.prefix_cons_inj c).mpr (List.prefix_append_right_inj a |>.mpr ?_)
        exact (List.dropLast_prefix sep).trans (List.prefix_append _ _)
      · simp
        omega
    rw [List.cons_append, List.cons_append, splitOnce?_cons (isPrefixOf?_eq_none_iff.mpr hp), hi h.2]
    rfl

theorem splitOnce?_eq_some_iff (hne : sep ≠ []) :
    splitOnce? sep s = some (a, b) ↔ s = a ++ sep ++ b ∧ ¬ sep <:+: a ++ sep.dropLast := by
  constructor
  case mp => exact fun h => ⟨splitOnce?_eq_some h, not_infix_of_splitOnce? hne h⟩
  case mpr => exact fun ⟨hs, hn⟩ => hs ▸ splitOnce?_of_absent hn

theorem not_mem_of_splitOnce? (h : splitOnce? [c] s = some (a, b)) : c ∉ a := by
  intro hm
  have ⟨front, back, parts⟩ := List.append_of_mem hm
  refine not_infix_of_splitOnce? (List.cons_ne_nil c []) h ⟨front, back, ?_⟩
  simp [parts]

theorem splitOnce?_of_free_append {sep : Text} (h : c ∉ a) :
    splitOnce? (c :: sep) (a ++ b) =
      (splitOnce? (c :: sep) b).map (Prod.map (a ++ ·) id) := by
  induction a
  case nil =>
    rw [List.nil_append]
    cases splitOnce? (c :: sep) b <;> rfl
  case cons d a hi =>
    have ⟨hd, ha⟩ := not_or.mp fun hm => h (List.mem_cons.mpr hm)
    have : (c :: sep).isPrefixOf? (d :: (a ++ b)) = none := by simp [isPrefixOf?_cons_cons, hd]
    rw [List.cons_append, splitOnce?_cons this, hi ha, Option.map_map]
    rfl

theorem append_cons_inj_of_free {s' : Text} (ha : c ∉ a) (hb : c ∉ b) (h : a ++ c :: s = b ++ c :: s') :
    a = b ∧ s = s' := by
  have cut : splitOnce? [c] (a ++ c :: s) = some (a, s) := splitOnce?_of_free ha
  rw [h, splitOnce?_of_free hb] at cut
  obtain ⟨rfl, rfl⟩ := Prod.mk.inj (Option.some.inj cut)
  exact ⟨rfl, rfl⟩

theorem splitWhere_of_free {p : Char → Bool} (h : ∀ c ∈ s, p c = false) : splitWhere p s = [s] := by
  induction s
  case nil => rfl
  case cons c s hi =>
    have ⟨hc, hs⟩ := List.forall_mem_cons.mp h
    simp [splitWhere, hc, hi hs]

theorem splitWhere_append {p : Char → Bool} (h : p c = true) (front back : Text) :
    splitWhere p (front ++ c :: back) = splitWhere p front ++ splitWhere p back := by
  induction front
  case nil => simp [splitWhere, h]
  case cons d front hi =>
    simp only [List.cons_append, splitWhere, hi]
    split
    · rfl
    · cases hs : splitWhere p front
      case nil => exact absurd hs (splitWhere_ne_nil _ _)
      case cons piece pieces => rfl

theorem split_of_free (h : c ∉ s) : split c s = [s] :=
  splitWhere_of_free fun _ hd => beq_false_of_ne fun he => h (he ▸ hd)

theorem split_append (front back : Text) : split c (front ++ c :: back) = split c front ++ split c back :=
  splitWhere_append (p := (· == c)) (beq_self_eq_true c) front back

theorem split_join {pieces : List Text} (hne : pieces ≠ []) (h : ∀ piece ∈ pieces, c ∉ piece) :
    split c (join [c] pieces) = pieces := by
  induction pieces
  case nil => contradiction
  case cons piece pieces hi =>
    have ⟨first, others⟩ := List.forall_mem_cons.mp h
    cases pieces
    case nil => exact split_of_free first
    case cons next pieces =>
      rw [join_cons_cons, List.append_assoc, List.singleton_append, split_append, split_of_free first,
        hi (List.cons_ne_nil _ _) others]
      rfl

theorem join_append {front back : List Text} (hf : front ≠ []) (hb : back ≠ []) :
    join sep (front ++ back) = join sep front ++ sep ++ join sep back := by
  induction front
  case nil => contradiction
  case cons piece front hi =>
    cases front
    case nil =>
      have ⟨next, rest, h⟩ := List.exists_cons_of_ne_nil hb
      rw [h]
      rfl
    case cons next front =>
      rw [List.cons_append, List.cons_append, join_cons_cons, join_cons_cons, ← List.cons_append,
        hi (List.cons_ne_nil _ _)]
      simp only [List.append_assoc]

theorem not_mem_join {pieces : List Text} (hs : c ∉ sep) (h : ∀ piece ∈ pieces, c ∉ piece) :
    c ∉ join sep pieces := by
  induction pieces using join.induct
  case case1 => exact List.not_mem_nil
  case case2 piece => exact h piece List.mem_cons_self
  case case3 first second pieces hi =>
    have ⟨hf, h⟩ := List.forall_mem_cons.mp h
    rw [join_cons_cons]
    exact List.not_mem_append (List.not_mem_append hf hs) (hi h)

end WikiPages.Text
