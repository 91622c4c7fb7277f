import Mathlib
import WikiPages.Page.Draft
import WikiPages.Proofs.Identifier.Letters
import WikiPages.Proofs.Text.Case

namespace WikiPages.Identifier

open Text

variable {c d : Char} {s t : Text}

-- What a character leaves in an identifier. It does not depend on the text around it, as neither form of the lower
-- case of a sigma leaves anything.
def kept (c : Char) : Text :=
  if c = capitalSigma then [] else (unaccented (lowerChar c)).filterMap tokenChar?

theorem filterMap_lowercase (before s : Text) :
    (unaccented (lowercase.go before s)).filterMap tokenChar? = s.flatMap kept := by
  induction s generalizing before
  case nil => rfl
  case cons c s hi =>
    rw [lowercase.go, unaccented_append, List.filterMap_append, hi, List.flatMap_cons, kept]
    split
    case isTrue =>
      have silent (b : Bool) : unaccented [if b then 'ς' else 'σ'] = [] := by revert b; decide +kernel
      rw [silent]
      rfl
    case isFalse => rfl

theorem normalize_eq (s : Text) :
    normalize s = if s.flatMap kept = [] then blank else s.flatMap kept := by
  rw [normalize, lowercase, filterMap_lowercase]
  split
  case h_1 h => rw [h, if_pos rfl]
  case h_2 h => rw [if_neg h]

section Tokens

theorem toNat_lt_of_isTokenChar (h : isTokenChar c = true) : c.toNat < 128 := by
  have := toNat_of_isTokenChar h
  omega

theorem kept_of_isTokenChar (h : isTokenChar c = true) : kept c = [c] := by
  have ascii := toNat_lt_of_isTokenChar h
  have codes := toNat_of_isTokenChar h
  have low : c.toLower = c := toLower_of_no_capital (by omega)
  have token : tokenChar? c = some c := by
    rw [tokenChar?, if_neg, if_pos h]
    rintro (rfl | rfl | rfl | rfl | rfl | rfl) <;> exact absurd h (by decide)
  rw [kept, if_neg (ne_capitalSigma_of_ascii ascii), lowerChar_of_ascii ascii, low]
  simp [unaccented, asciiBase?_of_ascii ascii, token]

theorem flatMap_kept_of_token (h : ∀ c ∈ s, isTokenChar c = true) : s.flatMap kept = s := by
  induction s
  case nil => rfl
  case cons c s hi =>
    have ⟨first, rest⟩ := List.forall_mem_cons.mp h
    rw [List.flatMap_cons, kept_of_isTokenChar first, hi rest, List.singleton_append]

theorem normalize_of_token (hne : s ≠ []) (h : ∀ c ∈ s, isTokenChar c = true) : normalize s = s := by
  rw [normalize_eq, flatMap_kept_of_token h, if_neg hne]

end Tokens

section Cases

theorem toLower_of_not_ascii (h : ¬ c.toNat < 128) : c.toLower = c :=
  toLower_of_no_capital (by omega)

theorem kept_congr (h : c.toLower = d.toLower) : kept c = kept d := by
  by_cases hc : c.toNat < 128
  case pos =>
    have hd : d.toNat < 128 := by
      by_contra hd
      rw [toLower_of_not_ascii hd] at h
      exact hd (h ▸ toNat_toLower_lt hc)
    rw [kept, kept, if_neg (ne_capitalSigma_of_ascii hc), if_neg (ne_capitalSigma_of_ascii hd),
      lowerChar_of_ascii hc, lowerChar_of_ascii hd, h]
  case neg =>
    have hd : ¬ d.toNat < 128 := by
      intro hd
      rw [toLower_of_not_ascii hc] at h
      exact hc (h ▸ toNat_toLower_lt hd)
    rw [toLower_of_not_ascii hc, toLower_of_not_ascii hd] at h
    rw [h]

theorem flatMap_kept_congr (h : s.map Char.toLower = t.map Char.toLower) : s.flatMap kept = t.flatMap kept := by
  induction s generalizing t
  case nil => rw [List.map_eq_nil_iff.mp h.symm]
  case cons c s hi =>
    obtain ⟨d, t, rfl, first, rest⟩ := List.map_eq_cons_iff.mp h.symm
    rw [List.flatMap_cons, List.flatMap_cons, kept_congr first, hi rest.symm]

end Cases

-- An identifier is never empty, it is made of small letters, digits, `_` and `-`, it is its own identifier, and it is
-- the same for texts that differ in the case of ASCII letters only. A file is named by one and its extension, so that
-- in front of the extension there is neither a dot nor anything that separates the steps of a path.
theorem normalize_stable (s : Text) :
    (normalize s ≠ [] ∧
      ∀ c ∈ normalize s, ('a' ≤ c ∧ c ≤ 'z') ∨ ('0' ≤ c ∧ c ≤ '9') ∨ c = '_' ∨ c = '-') ∧
    normalize (normalize s) = normalize s ∧
    (∀ t, t.map Char.toLower = s.map Char.toLower → normalize t = normalize s) ∧
    (∀ extension, Cabinet.fileName s extension = normalize s ++ extension) ∧
    Page.fileOf s = normalize s ++ lit ".html" ∧
    '/' ∉ normalize s ∧ '\\' ∉ normalize s ∧ '.' ∉ normalize s := by
  have token := normalize_token s
  have free {d : Char} (hd : isTokenChar d = false) : d ∉ normalize s :=
    fun hm => ne_of_isTokenChar (token d hm) hd rfl
  refine ⟨⟨normalize_ne_nil s, fun c hc => ?_⟩, ?_, fun t h => ?_, fun _ => rfl, rfl, ?_, ?_, ?_⟩
  · have := token c hc
    simpa [isTokenChar, Char.isLower, Char.isDigit, Char.le_def, or_assoc] using this
  · exact normalize_of_token (normalize_ne_nil s) token
  · rw [normalize_eq, normalize_eq, flatMap_kept_congr h]
  · exact free rfl
  · exact free rfl
  · exact free rfl

theorem normalize_stable_mixed :
    (lit "İ/ΑΣ bΣ.Ç").map Char.toLower = (lit "İ/ΑΣ BΣ.Ç").map Char.toLower ∧
      normalize (lit "İ/ΑΣ bΣ.Ç") = normalize (lit "İ/ΑΣ BΣ.Ç") ∧
      normalize (lit "İ/ΑΣ BΣ.Ç") = lit "i__bc" := by
  have same : (lit "İ/ΑΣ bΣ.Ç").map Char.toLower = (lit "İ/ΑΣ BΣ.Ç").map Char.toLower := by decide
  exact ⟨same, (normalize_stable (lit "İ/ΑΣ BΣ.Ç")).2.2.1 _ same, by decide +kernel⟩

end WikiPages.Identifier
