import WikiPages.Text.Lines
import WikiPages.Text.Scan
import WikiPages.Xml.Char

namespace WikiPages.Xml

open Text

-- The value of a text of digits in some base. None if it is empty, has another character in it or
-- does not fit into 32 bits.
def digitsValue? (base : Nat) (digits : Text) : Option Nat :=
  if digits = [] then none
  else
    (digits.foldlM (fun n c => (digit? c).map (n * base + ·)) 0).filter (· < 0x100000000)
where
  digit? (c : Char) : Option Nat :=
    let value? : Option Nat :=
      if c.isDigit then some (c.toNat - 48)
      else if 'a' ≤ c ∧ c ≤ 'f' then some (c.toNat - 87)
      else if 'A' ≤ c ∧ c ≤ 'F' then some (c.toNat - 55)
      else none
    value?.filter (· < base)

-- The character with a number. A number that belongs to no character stands for U+FFFD.
def numbered? (n : Nat) : Option Char :=
  let c := if n.isValidChar then Char.ofNat n else '\ufffd'
  if isChar c then some c else none

def referent? : Text → Option Char
  | '#' :: 'x' :: digits => (digitsValue? 16 digits).bind numbered?
  | '#' :: digits => (digitsValue? 10 digits).bind numbered?
  | name =>
    if name = lit "quot" then some '\x22'
    else if name = lit "amp" then some '&'
    else if name = lit "apos" then some '\x27'
    else if name = lit "lt" then some '<'
    else if name = lit "gt" then some '>'
    else none

def reference : Pattern Char := fun s =>
  match s with
  | '&' :: s =>
    (splitOnce? [';'] s).bind fun (inside, _) =>
      (referent? inside).map (·, inside.length + 2)
  | _ => none

def isLoneAmpersand : Piece Char → Bool
  | .char c => c == '&'
  | .found _ => false

def characters? (raw : Text) : Option (List (Piece Char)) :=
  let pieces := reference.cut raw
  if pieces.any isLoneAmpersand then none else some pieces

-- Character data with its line ends made line feeds. A referenced carriage return stays, and so
-- does one that stands directly in front of a reference, or at the end directly behind one.
def settleLines (behindReference : Bool) : List (Piece Char) → Text
  | [] => []
  | .found c :: rest => c :: settleLines true rest
  | [.char '\r'] => [if behindReference then '\r' else '\n']
  | .char '\r' :: .char '\n' :: rest => '\n' :: settleLines false rest
  | .char '\r' :: .found c :: rest => '\r' :: c :: settleLines true rest
  | .char c :: rest => (if c = '\r' then '\n' else c) :: settleLines false rest

def decode? (raw : Text) : Option Text := (characters? raw).map (settleLines false)

def settleValue : List (Piece Char) → Text
  | [] => []
  | .found c :: rest => c :: settleValue rest
  | .char '\r' :: .char '\n' :: rest => ' ' :: settleValue rest
  | .char c :: rest => (if isSpace c then ' ' else c) :: settleValue rest

def decodeValue? (raw : Text) : Option Text := (characters? raw).map settleValue

def decodeLiteral (raw : Text) : Text := join lineBreak (lines raw)

theorem cut_of_plain {raw : Text} (h : '&' ∉ raw) :
    reference.cut raw = raw.map Piece.char := by
  induction raw
  case nil => rfl
  case cons c raw hi =>
    simp only [List.mem_cons, not_or] at h
    have hm : reference (c :: raw) = none := by
      unfold reference
      split
      case h_1 he => exact absurd (List.cons.inj he).1.symm h.1
      case h_2 => rfl
    rw [Pattern.cut_of_miss hm, hi h.2]
    rfl

theorem settleLines_of_plain {raw : Text} (h : '\r' ∉ raw) (b : Bool) :
    settleLines b (raw.map Piece.char) = raw := by
  induction raw generalizing b
  case nil => rfl
  case cons c raw hi =>
    simp only [List.mem_cons, not_or] at h
    have hc : c ≠ '\r' := fun e => h.1 e.symm
    rw [List.map_cons, settleLines, if_neg hc, hi h.2]
    all_goals simp_all

theorem decode_of_plain {raw : Text} (ha : '&' ∉ raw) (hr : '\r' ∉ raw) :
    decode? raw = some raw := by
  have hlone : (raw.map Piece.char).any isLoneAmpersand = false := by
    simp only [List.any_map, List.any_eq_false, Function.comp, isLoneAmpersand]
    intro c hc
    simp only [beq_iff_eq]
    rintro rfl
    exact ha hc
  simp [decode?, characters?, cut_of_plain ha, hlone, settleLines_of_plain hr]

end WikiPages.Xml
