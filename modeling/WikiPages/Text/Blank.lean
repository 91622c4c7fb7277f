import WikiPages.Text.Basic

namespace WikiPages.Text

-- The characters with the Unicode property White_Space.
def isBlank (c : Char) : Bool :=
  let n := c.toNat
  (9 ≤ n && n ≤ 13) || n == 0x20 || n == 0x85 || n == 0xA0 || n == 0x1680
    || (0x2000 ≤ n && n ≤ 0x200A) || n == 0x2028 || n == 0x2029 || n == 0x202F || n == 0x205F
    || n == 0x3000

def trimStart (s : Text) : Text := s.dropWhile isBlank

def trimEnd (s : Text) : Text := (s.reverse.dropWhile isBlank).reverse

def trim (s : Text) : Text := trimEnd (trimStart s)

def allBlank (s : Text) : Bool := s.all isBlank

def words (s : Text) : List Text := (splitWhere isBlank s).filter (· ≠ [])

@[simp] theorem trim_nil : trim [] = [] := rfl

theorem trimEnd_append_blank {s blank : Text} (h : ∀ c ∈ blank, isBlank c = true) :
    trimEnd (s ++ blank) = trimEnd s := by
  unfold trimEnd
  rw [List.reverse_append, List.dropWhile_append_of_pos (by simpa using h)]

end WikiPages.Text
