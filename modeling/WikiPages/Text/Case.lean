import WikiPages.Text.CaseTable
import WikiPages.Text.Word

namespace WikiPages.Text

def lowerChar (c : Char) : Text :=
  let n := c.toNat
  if n < 128 then [c.toLower]
  else if n = 0x130 then ['i', '\u0307']
  else
    match caseRuns.find? fun r => r.first ≤ n && n ≤ r.last && (n - r.first) % r.step == 0 with
    | some r => [Char.ofNat (n + r.shift).toNat]
    | none => [c]

def isCaseIgnorable (c : Char) : Bool :=
  if c.toNat < 128 then c == '\x27' || c == '.' || c == ':' || c == '^' || c == '\x60'
  else inRanges caseIgnorableRanges c.toNat

def isCased (c : Char) : Bool :=
  if c.toNat < 128 then isAsciiLetter c else inRanges casedRanges c.toNat

def meetsCased (s : Text) : Bool :=
  match s.dropWhile isCaseIgnorable with
  | c :: _ => isCased c
  | [] => false

def capitalSigma : Char := 'Σ'

def lowercase (s : Text) : Text := go [] s
where
  -- The text in front is `before`, last character first.
  go (before : Text) : Text → Text
    | [] => []
    | c :: s =>
      (if c = capitalSigma then
        [if meetsCased before && !meetsCased s then 'ς' else 'σ']
      else lowerChar c) ++ go (c :: before) s

@[simp] theorem lowercase_nil : lowercase [] = [] := rfl

theorem lowerChar_of_ascii {c : Char} (h : c.toNat < 128) : lowerChar c = [c.toLower] := by
  simp [lowerChar, h]

end WikiPages.Text
