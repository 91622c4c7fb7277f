import WikiPages.Text.Scan

namespace WikiPages

open Text

inductive Json where
  | null
  | bool
  | number
  -- The inside of the quotes as written.
  | string (raw : Text)
  | array (items : List Json)
  | object (fields : List (Text × Json))

namespace Json

inductive Token where
  -- A bracket, a brace, a comma or a colon.
  | sign (c : Char)
  -- A value that is neither a list nor a table.
  | value (j : Json)
  | space

def isSpace (c : Char) : Bool := c == ' ' || c == '\t' || c == '\n' || c == '\r'

def isSign (c : Char) : Bool := ['[', ']', '{', '}', ',', ':'].contains c

def isHexDigit (c : Char) : Bool :=
  c.isDigit || ('a' ≤ c && c ≤ 'f') || ('A' ≤ c && c ≤ 'F')

def escaped? (c : Char) : Option Char :=
  if c = '\x22' ∨ c = '\\' ∨ c = '/' then some c
  else if c = 'b' then some '\x08'
  else if c = 'f' then some '\x0c'
  else if c = 'n' then some '\n'
  else if c = 'r' then some '\r'
  else if c = 't' then some '\t'
  else none

def stringInside? : Text → Option (Text × Text)
  | [] => none
  | '\\' :: 'u' :: a :: b :: c :: d :: s =>
    if [a, b, c, d].all isHexDigit then
      (stringInside? s).map fun (inside, rest) => (['\\', 'u', a, b, c, d] ++ inside, rest)
    else none
  | '\\' :: c :: s =>
    if (escaped? c).isSome then
      (stringInside? s).map fun (inside, rest) => ('\\' :: c :: inside, rest)
    else none
  | c :: s =>
    if c = '\x22' then some ([], s)
    else if c = '\\' ∨ c.toNat < 0x20 then none
    else (stringInside? s).map fun (inside, rest) => (c :: inside, rest)

def pastDigits? (s : Text) : Option Text :=
  if s.head?.any Char.isDigit then some (s.dropWhile Char.isDigit) else none

def pastWhole? (s : Text) : Option Text :=
  match s with
  | '0' :: s => some s
  | s => pastDigits? s

def isNumber (s : Text) : Bool :=
  let s := if s.head? = some '-' then s.tail else s
  let rest := do
    let s ← pastWhole? s
    let s ← if s.head? = some '.' then pastDigits? s.tail else some s
    if s.head? = some 'e' ∨ s.head? = some 'E' then
      let s := s.tail
      pastDigits? (if s.head? = some '+' ∨ s.head? = some '-' then s.tail else s)
    else some s
  rest = some []

def isNumberChar (c : Char) : Bool :=
  c.isDigit || c == '-' || c == '+' || c == '.' || c == 'e' || c == 'E'

def word? (s : Text) : Option (Json × Text) :=
  (((lit "null").isPrefixOf? s).map (null, ·)).or
    ((((lit "true").isPrefixOf? s).or ((lit "false").isPrefixOf? s)).map (bool, ·))

def token? (s : Text) : Option (Token × Text) :=
  match s with
  | [] => none
  | c :: rest =>
    if isSpace c then some (.space, rest)
    else if isSign c then some (.sign c, rest)
    else if c = '\x22' then
      (stringInside? rest).map fun (inside, rest) => (.value (string inside), rest)
    else if c = '-' ∨ c.isDigit then
      if isNumber (s.takeWhile isNumberChar) then
        some (.value number, s.dropWhile isNumberChar)
      else none
    else (word? s).map fun (j, rest) => (.value j, rest)

-- A list or table that is not closed yet: what is in it, last first, and of a table the key whose
-- value comes next.
inductive Opened where
  | array (items : List Json)
  | object (fields : List (Text × Json)) (key : Text)

inductive Next where
  -- A value, or the end of a list that has nothing in it yet.
  | value (mayClose : Bool)
  -- A key, or the end of a table that has nothing in it yet.
  | key (fields : List (Text × Json)) (mayClose : Bool)
  | colon (fields : List (Text × Json)) (key : Text)
  -- Whatever follows a value.
  | after (j : Json)

def read? : List Opened → Next → List Token → Option Json
  | [], .after j, [] => some j
  | _, _, [] => none
  | opened, next, .space :: tokens => read? opened next tokens
  | opened, .value _, .value j :: tokens => read? opened (.after j) tokens
  | opened, .value mayClose, .sign c :: tokens =>
    if c = '[' then read? (.array [] :: opened) (.value true) tokens
    else if c = '{' then read? opened (.key [] true) tokens
    else if c = ']' ∧ mayClose then
      match opened with
      | .array _ :: opened => read? opened (.after (array [])) tokens
      | _ => none
    else none
  | opened, .key fields _, .value (string raw) :: tokens => read? opened (.colon fields raw) tokens
  | opened, .key _ mayClose, .sign c :: tokens =>
    if c = '}' ∧ mayClose then read? opened (.after (object [])) tokens else none
  | opened, .colon fields key, .sign c :: tokens =>
    if c = ':' then read? (.object fields key :: opened) (.value false) tokens else none
  | .array items :: opened, .after j, .sign c :: tokens =>
    if c = ',' then read? (.array (j :: items) :: opened) (.value false) tokens
    else if c = ']' then read? opened (.after (array (j :: items).reverse)) tokens
    else none
  | .object fields key :: opened, .after j, .sign c :: tokens =>
    if c = ',' then read? opened (.key ((key, j) :: fields) false) tokens
    else if c = '}' then read? opened (.after (object ((key, j) :: fields).reverse)) tokens
    else none
  | _, _, _ => none

def parse? (s : Text) : Option Json :=
  ((Pattern.ofReader token?).whole? s).bind (read? [] (.value false))

def hexValue (digits : Text) : Nat :=
  digits.foldl (fun n c =>
    16 * n + (if c.isDigit then c.toNat - 48 else (c.toNat ||| 0x20) - 87)) 0

-- The text that the inside of a string stands for. None if half of a surrogate pair stands alone.
def decode? : Text → Option Text
  | [] => some []
  | '\\' :: 'u' :: a :: b :: c :: d :: s =>
    let n := hexValue [a, b, c, d]
    if 0xDC00 ≤ n ∧ n < 0xE000 then none
    else if 0xD800 ≤ n ∧ n < 0xDC00 then
      match s with
      | '\\' :: 'u' :: a :: b :: c :: d :: s =>
        let low := hexValue [a, b, c, d]
        if 0xDC00 ≤ low ∧ low < 0xE000 then
          (decode? s).map (Char.ofNat (0x10000 + (n - 0xD800) * 0x400 + (low - 0xDC00)) :: ·)
        else none
      | _ => none
    else (decode? s).map (Char.ofNat n :: ·)
  | '\\' :: c :: s => (escaped? c).bind fun c => (decode? s).map (c :: ·)
  | c :: s => (decode? s).map (c :: ·)

theorem decode?_plain {s : Text} (h : '\\' ∉ s) : decode? s = some s := by
  induction s
  case nil => rfl
  case cons c s hi =>
    simp only [List.mem_cons, not_or] at h
    have hc : c ≠ '\\' := fun e => h.1 e.symm
    rw [decode?.eq_def]
    split <;> simp_all

end Json
end WikiPages
