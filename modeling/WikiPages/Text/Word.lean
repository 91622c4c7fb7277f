import WikiPages.Text.WordTable
import WikiPages.Text.Basic

namespace WikiPages.Text

def inRanges (ranges : List (Nat × Nat)) (n : Nat) : Bool :=
  ranges.any fun (lo, hi) => lo ≤ n && n ≤ hi

def isAsciiLetter (c : Char) : Bool := c.isUpper || c.isLower

def isWordChar (c : Char) : Bool :=
  if c.toNat < 128 then isAsciiLetter c || c.isDigit || c == '_' else inRanges wordRanges c.toNat

end WikiPages.Text
