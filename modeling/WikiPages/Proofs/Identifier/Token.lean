import WikiPages.Identifier.Basic
import WikiPages.Xml.Char

namespace WikiPages.Identifier

variable {c : Char}

theorem isLower_iff : c.isLower = true ↔ 97 ≤ c.toNat ∧ c.toNat ≤ 122 := by
  change (decide (97 ≤ c.val) && decide (c.val ≤ 122)) = true ↔ _
  simp [UInt32.le_iff_toNat_le]

theorem isUpper_iff : c.isUpper = true ↔ 65 ≤ c.toNat ∧ c.toNat ≤ 90 := by
  change decide (65 ≤ c.val ∧ c.val ≤ 90) = true ↔ _
  simp [UInt32.le_iff_toNat_le]

theorem isDigit_iff : c.isDigit = true ↔ 48 ≤ c.toNat ∧ c.toNat ≤ 57 := by
  change (decide (48 ≤ c.val) && decide (c.val ≤ 57)) = true ↔ _
  simp [UInt32.le_iff_toNat_le]

theorem toNat_of_isTokenChar (h : isTokenChar c = true) :
    (97 ≤ c.toNat ∧ c.toNat ≤ 122) ∨ (48 ≤ c.toNat ∧ c.toNat ≤ 57) ∨ c.toNat = 95 ∨ c.toNat = 45 := by
  simp only [isTokenChar, Bool.or_eq_true, isLower_iff, isDigit_iff, beq_iff_eq] at h
  rcases h with ((h | h) | rfl) | rfl
  · exact .inl h
  · exact .inr (.inl h)
  · exact .inr (.inr (.inl rfl))
  · exact .inr (.inr (.inr rfl))

theorem ne_of_isTokenChar {d : Char} (h : isTokenChar c = true) (hd : isTokenChar d = false) : c ≠ d := by
  rintro rfl
  rw [h] at hd
  cases hd

theorem isNameChar_of_isTokenChar (h : isTokenChar c = true) : Xml.isNameChar c = true := by
  have := toNat_of_isTokenChar h
  simp [Xml.isNameChar, Xml.isNameStart, Xml.within, Xml.nameStartRanges, Xml.nameRestRanges]
  omega

theorem isNameStart_of_letter (h : (Text.isAsciiLetter c || c == '_') = true) :
    Xml.isNameStart c = true := by
  simp only [Text.isAsciiLetter, Bool.or_eq_true, isUpper_iff, isLower_iff, beq_iff_eq] at h
  rcases h with h | rfl
  · simp [Xml.isNameStart, Xml.within, Xml.nameStartRanges]
    omega
  · rfl

theorem isChar_of_isTokenChar (h : isTokenChar c = true) : Xml.isChar c = true := by
  have := toNat_of_isTokenChar h
  have hs : ¬ c.toNat < 32 := by omega
  simp [Xml.isChar, hs]
  omega

end WikiPages.Identifier
