import Mathlib.Data.List.Infix
import WikiPages.Proofs.Text.Cutting
import WikiPages.Template.Hole

namespace WikiPages.Hole

open Text

variable {P : Text → Prop} {a inside rest s : Text} {c : Char}

theorem read?_eq_some_iff : read? s = some (inside, rest) ↔ s = of inside ++ rest ∧ '}' ∉ inside := by
  constructor
  case mp =>
    intro h
    obtain ⟨behind, hp, hs⟩ := Option.bind_eq_some_iff.mp h
    obtain ⟨he, hn⟩ := (splitOnce?_eq_some_iff (by decide)).mp hs
    refine ⟨?_, fun hm => hn ?_⟩
    · rw [eq_append_of_isPrefixOf? hp, he]
      simp [of]
    · obtain ⟨front, back, hi⟩ := List.append_of_mem hm
      exact ⟨front, back, by simp [closing, hi]⟩
  case mpr =>
    rintro ⟨rfl, hi⟩
    exact read?_of hi rest

theorem read?_eq_none_of_free (h : '}' ∉ s) : read? s = none := by
  cases hr : read? s
  case none => rfl
  case some found =>
    have ⟨hs, _⟩ := read?_eq_some_iff.mp hr
    exact absurd (by rw [hs]; simp [of, closing]) h

theorem not_mem_of_read?_eq_none (h : read? (opening ++ s) = none) : '}' ∉ s := by
  rw [read?, isPrefixOf?_append] at h
  intro hm
  obtain ⟨front, back, hs⟩ := List.append_of_mem hm
  exact splitOnce?_eq_none_iff.mp h ⟨front, back, by simp [closing, hs]⟩

def Opens (P : Text → Prop) (s : Text) : Prop := ∃ inside, P inside ∧ '}' ∉ inside ∧ of inside <+: s

def Shows (P : Text → Prop) (s : Text) : Prop := ∃ inside, P inside ∧ '}' ∉ inside ∧ of inside <:+: s

theorem opens_iff : Opens P s ↔ ∃ found ∈ read? s, P found.1 := by
  constructor
  case mp =>
    rintro ⟨inside, hp, hi, rest, rfl⟩
    exact ⟨(inside, rest), read?_of hi rest, hp⟩
  case mpr =>
    rintro ⟨⟨inside, rest⟩, hr, hp⟩
    have ⟨hs, hi⟩ := read?_eq_some_iff.mp hr
    exact ⟨inside, hp, hi, rest, hs.symm⟩

theorem shows_iff : Shows P s ↔ ∃ t ∈ s.tails, Opens P t := by
  constructor
  case mp =>
    rintro ⟨inside, hp, hi, hs⟩
    have ⟨t, ht, hs⟩ := List.infix_iff_prefix_suffix.mp hs
    exact ⟨t, (List.mem_tails t s).mpr hs, inside, hp, hi, ht⟩
  case mpr =>
    rintro ⟨t, hs, inside, hp, hi, ht⟩
    exact ⟨inside, hp, hi, ht.isInfix.trans ((List.mem_tails t s).mp hs).isInfix⟩

instance [DecidablePred P] : Decidable (Opens P s) :=
  decidable_of_iff _ opens_iff.symm

instance [DecidablePred P] : Decidable (Shows P s) :=
  decidable_of_iff _ shows_iff.symm

theorem not_shows_nil : ¬ Shows P [] := by
  rintro ⟨inside, _, _, hi⟩
  exact of_ne_nil inside (List.infix_nil.mp hi)

theorem shows_cons : Shows P (c :: s) ↔ Opens P (c :: s) ∨ Shows P s := by
  simp only [Shows, Opens, List.infix_cons_iff, and_or_left, exists_or]

theorem Opens.head (h : Opens P (c :: s)) : c = '$' := by
  have ⟨_, _, _, hp⟩ := h
  exact (List.cons_prefix_cons.mp hp).1.symm

theorem Opens.next (h : Opens P ('$' :: c :: s)) : c = '{' := by
  have ⟨_, _, _, hp⟩ := h
  exact (List.cons_prefix_cons.mp (List.cons_prefix_cons.mp hp).2).1.symm

theorem Opens.closing_mem (h : Opens P s) : '}' ∈ s := by
  have ⟨_, _, _, hp⟩ := h
  exact hp.subset (by simp [of, closing])

theorem shows_append_of_free (h : '$' ∉ a) : Shows P (a ++ s) ↔ Shows P s := by
  induction a
  case nil => exact Iff.rfl
  case cons c a hi =>
    have ho : ¬ Opens P (c :: (a ++ s)) := fun ho => h (ho.head ▸ List.mem_cons_self)
    rw [List.cons_append, shows_cons, or_iff_right ho, hi fun hm => h (List.mem_cons_of_mem c hm)]

theorem not_shows_of_free (h : '$' ∉ a) : ¬ Shows P a := by
  have := (shows_append_of_free (P := P) (s := []) h).mp
  rw [List.append_nil] at this
  exact fun hl => not_shows_nil (this hl)

theorem opens_append_iff : Opens P (s ++ '}' :: rest) ↔ Opens P (s ++ ['}']) := by
  have hle : s ++ ['}'] <+: s ++ '}' :: rest := by simp
  constructor
  case mpr => exact fun ⟨inside, hp, hi, hs⟩ => ⟨inside, hp, hi, hs.trans hle⟩
  case mp =>
    rintro ⟨inside, hp, hi, hs⟩
    refine ⟨inside, hp, hi, ?_⟩
    rcases List.prefix_or_prefix_of_prefix hs hle with h | h
    · exact h
    · -- the closing of the hole is the first one, so that it cannot lie behind another
      have hl : s ++ ['}'] = of inside ∨ s ++ ['}'] <+: opening ++ inside := List.prefix_concat_iff.mp h
      rcases hl with hl | hl
      · exact hl ▸ List.prefix_refl _
      · have hm : '}' ∈ opening ++ inside := hl.subset (by simp)
        simp [opening, hi] at hm

theorem shows_append_of_closed (ha : '$' ∉ a) :
    Shows P (s ++ '}' :: a ++ rest) ↔ Shows P (s ++ '}' :: a) ∨ Shows P rest := by
  have hc : '$' ∉ '}' :: a := by simp [ha]
  induction s
  case nil =>
    rw [List.nil_append, shows_append_of_free hc, or_iff_right (not_shows_of_free hc)]
  case cons c s hi =>
    have : Opens P (c :: (s ++ '}' :: a ++ rest)) ↔ Opens P (c :: (s ++ '}' :: a)) := by
      rw [List.append_assoc]
      exact (opens_append_iff (s := c :: s)).trans (opens_append_iff (s := c :: s)).symm
    rw [List.cons_append, List.cons_append, shows_cons, shows_cons, this, or_assoc]
    exact or_congr_right hi

end WikiPages.Hole
