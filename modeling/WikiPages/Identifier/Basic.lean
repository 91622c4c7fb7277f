import WikiPages.Text.Case
import WikiPages.Text.Diacritics

namespace WikiPages.Identifier

def isTokenChar (c : Char) : Bool := c.isLower || c.isDigit || c == '_' || c == '-'

def blank : Text := ['_']

def tokenChar? (c : Char) : Option Char :=
  if c = ' ' ∨ c = '\t' ∨ c = '\n' ∨ c = '\r' ∨ c = '/' ∨ c = '\\' then some '_'
  else if isTokenChar c then some c
  else none

def normalize (s : Text) : Text :=
  match (Text.unaccented (Text.lowercase s)).filterMap tokenChar? with
  | [] => blank
  | token => token

theorem isTokenChar_of_tokenChar? {c d : Char} (h : tokenChar? c = some d) :
    isTokenChar d = true := by
  unfold tokenChar? at h
  split at h
  · cases h
    rfl
  · split at h
    · cases h
      assumption
    · cases h

theorem normalize_ne_nil (s : Text) : normalize s ≠ [] := by
  unfold normalize
  split
  · simp [blank]
  · assumption

theorem normalize_token (s : Text) : ∀ c ∈ normalize s, isTokenChar c = true := by
  unfold normalize
  split
  · simp [blank, isTokenChar]
  · intro c hc
    obtain ⟨_, _, h⟩ := List.mem_filterMap.1 hc
    exact isTokenChar_of_tokenChar? h

end WikiPages.Identifier
