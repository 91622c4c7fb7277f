import WikiPages.Proofs.Identifier.Token

namespace WikiPages.Identifier

open Text

variable {c : Char} {s : Text}

def letters (s : Text) : Text := s.filter Char.isLower

theorem toNat_of_isLower (h : c.isLower = true) : c.toNat < 128 := by
  have := isLower_iff.mp h
  omega

theorem lowerChar_of_isLower (h : c.isLower = true) : lowerChar c = [c] := by
  have hl := isLower_iff.mp h
  have hu : ¬ (c.val ≥ 'A'.val ∧ c.val ≤ 'Z'.val) := by
    rintro ⟨_, hc⟩
    have : c.toNat ≤ 90 := UInt32.le_iff_toNat_le.mp hc
    omega
  have hc : c.toLower = c := dif_neg hu
  rw [lowerChar_of_ascii (toNat_of_isLower h), hc]

theorem tokenChar?_of_isLower (h : c.isLower = true) : tokenChar? c = some c := by
  have hn : ¬ (c = ' ' ∨ c = '\t' ∨ c = '\n' ∨ c = '\r' ∨ c = '/' ∨ c = '\\') := by
    rintro (rfl | rfl | rfl | rfl | rfl | rfl) <;> cases h
  rw [tokenChar?, if_neg hn, if_pos (by simp [isTokenChar, h])]

theorem letters_sublist_lowercase (before s : Text) :
    (letters s).Sublist (lowercase.go before s) := by
  induction s generalizing before
  case nil => exact .slnil
  case cons c s hi =>
    rw [lowercase.go, letters, List.filter_cons]
    split
    case isTrue h =>
      have hc : c ≠ capitalSigma := by
        rintro rfl
        cases h
      rw [if_neg hc, lowerChar_of_isLower h]
      exact (hi _).cons_cons c
    case isFalse => exact (hi _).trans (List.sublist_append_right _ _)

theorem filterMap_letters {f : Char → Option Char} (h : ∀ c, c.isLower = true → f c = some c) :
    (letters s).filterMap f = letters s := by
  induction s
  case nil => rfl
  case cons c s hi =>
    rw [letters] at hi ⊢
    rw [List.filter_cons]
    split
    case isTrue hc => rw [List.filterMap_cons_some (h c hc), hi]
    case isFalse => exact hi

theorem length_letters_le (s : Text) : (letters s).length ≤ (normalize s).length := by
  have hu : (letters s).Sublist (unaccented (lowercase s)) := by
    have := (letters_sublist_lowercase [] s).filterMap asciiBase?
    rwa [filterMap_letters fun c h => asciiBase?_of_ascii (toNat_of_isLower h)] at this
  have ht : (letters s).Sublist ((unaccented (lowercase s)).filterMap tokenChar?) := by
    have := hu.filterMap tokenChar?
    rwa [filterMap_letters fun c h => tokenChar?_of_isLower h] at this
  rw [normalize]
  split
  case h_1 h => exact Nat.le_trans (h ▸ ht).length_le (Nat.zero_le _)
  case h_2 => exact ht.length_le

end WikiPages.Identifier
