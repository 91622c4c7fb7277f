import Mathlib.Data.List.TakeWhile
import WikiPages.Text.Blank

namespace WikiPages.Text

variable {a b s : Text}

-- What holds of all characters of a text is decided by these, not by a search through every character there is.
instance (priority := high) {P : Char → Prop} [DecidablePred P] : Decidable (∀ c ∈ s, P c) := List.decidableBAll P s

structure IsTrimmed (s : Text) : Prop where
  first : ∀ c ∈ s.head?, isBlank c = false
  last  : ∀ c ∈ s.getLast?, isBlank c = false

-- Only the ends are looked at. That there are but finitely many characters would not help.
instance : Decidable (IsTrimmed s) :=
  decidable_of_iff ((s.head?.all fun c => !isBlank c) = true ∧ (s.getLast?.all fun c => !isBlank c) = true)
    ⟨fun ⟨first, last⟩ => ⟨by simpa [Option.all_eq_true] using first, by simpa [Option.all_eq_true] using last⟩,
      fun h => ⟨by simpa [Option.all_eq_true] using h.first, by simpa [Option.all_eq_true] using h.last⟩⟩

theorem dropWhile_isBlank_of_first (h : ∀ c ∈ s.head?, isBlank c = false) : s.dropWhile isBlank = s := by
  cases s
  case nil => rfl
  case cons c s => rw [List.dropWhile_cons_of_neg (by simp [h c rfl])]

theorem first_dropWhile_isBlank (s : Text) : ∀ c ∈ (s.dropWhile isBlank).head?, isBlank c = false := by
  intro c hc
  have := List.head?_dropWhile_not isBlank s
  rw [Option.mem_def.mp hc] at this
  exact this

theorem prefix_trimStart (s : Text) : trim s <+: trimStart s :=
  List.reverse_suffix.mp ((List.reverse_reverse _).symm ▸ List.dropWhile_suffix isBlank)

theorem isTrimmed_trim (s : Text) : IsTrimmed (trim s) where
  first := by
    intro c hc
    apply first_dropWhile_isBlank s c
    have ⟨rest, hr⟩ := prefix_trimStart s
    rw [show s.dropWhile isBlank = trim s ++ rest from hr.symm, List.head?_append, Option.mem_def.mp hc]
    rfl
  last  := by
    rw [trim, trimEnd, List.getLast?_reverse]
    exact first_dropWhile_isBlank _

theorem IsTrimmed.trim_eq (h : IsTrimmed s) : trim s = s := by
  have hl : ∀ c ∈ s.reverse.head?, isBlank c = false := List.head?_reverse (l := s) ▸ h.last
  rw [trim, trimStart, dropWhile_isBlank_of_first h.first, trimEnd, dropWhile_isBlank_of_first hl,
    List.reverse_reverse]

theorem IsTrimmed.append (ha : IsTrimmed a) (hne : a ≠ []) (hb : ∀ c ∈ b.getLast?, isBlank c = false) :
    IsTrimmed (a ++ b) where
  first := by
    rw [List.head?_append, Option.or_of_isSome (List.isSome_head?.mpr hne)]
    exact ha.first
  last  := by
    rw [List.getLast?_append]
    cases hl : b.getLast?
    case none => exact ha.last
    case some d =>
      rw [hl] at hb
      exact hb

theorem isTrimmed_of_ends {c d : Char} (hc : isBlank c = false) (hd : isBlank d = false) (s : Text) :
    IsTrimmed (c :: (s ++ [d])) where
  first := by
    rintro _ ⟨⟩
    exact hc
  last  := by
    rw [← List.cons_append, List.getLast?_concat]
    rintro _ ⟨⟩
    exact hd

theorem trim_within (ha : ∀ c ∈ a, isBlank c = true) (hb : ∀ c ∈ b, isBlank c = true) :
    trim (a ++ s ++ b) = trim s := by
  rw [trim, trimStart, List.append_assoc, List.dropWhile_append_of_pos ha, List.dropWhile_append]
  split
  case isTrue h =>
    have hs : trimStart s = [] := List.isEmpty_iff.mp h
    have hb : b.dropWhile isBlank = [] := List.dropWhile_eq_nil_iff.mpr hb
    rw [trim, hs, hb]
  case isFalse => exact trimEnd_append_blank hb

theorem trim_sublist (s : Text) : (trim s).Sublist s := by
  have hs : ((trimStart s).reverse.dropWhile isBlank).reverse.Sublist (trimStart s).reverse.reverse :=
    (List.dropWhile_sublist _).reverse
  rw [List.reverse_reverse] at hs
  exact hs.trans (List.dropWhile_sublist _)

end WikiPages.Text
