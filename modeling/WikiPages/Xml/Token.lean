import WikiPages.Text.Scan
import WikiPages.Xml.Char

namespace WikiPages.Xml

open Text

structure QName where
  scope : Text
  name : Text
  deriving DecidableEq

inductive Token where
  -- Character data as written.
  | text (raw : Text)
  -- The inside of a CDATA section as written.
  | literal (raw : Text)
  -- A comment or processing instruction.
  | remark
  -- A start tag with its attributes as written. An empty-element tag is closed at once.
  | start (name : QName) (attributes : List (QName × Text)) (closed : Bool)
  | stop (name : QName)
  deriving DecidableEq

namespace Token

def skipSpaces (s : Text) : Text := s.dropWhile isSpace

abbrev after? (part : String) (s : Text) : Option Text := (lit part).isPrefixOf? s

def until? (stop : String) (s : Text) : Option (Text × Text) :=
  (splitOnce? (lit stop) s).filter fun (inside, _) => inside.all isChar

def beginsName (s : Text) : Bool := s.head?.any isNameStart

def qname? (s : Text) : Option (QName × Text) :=
  let isPart (c : Char) : Bool := isNameChar c || c == ':'
  let rest := s.dropWhile isPart
  match split ':' (s.takeWhile isPart) with
  | [name] => if beginsName name then some (⟨[], name⟩, rest) else none
  | [scope, name] =>
    if beginsName name ∧ (scope = [] ∨ beginsName scope) then some (⟨scope, name⟩, rest) else none
  | _ => none

-- The part of a tag up to the first `>` outside quotes, and the text behind it.
def tagInside? : (quote : Option Char) → Text → Option (Text × Text)
  | _, [] => none
  | none, c :: s =>
    if c = '>' then some ([], s)
    else
      let quote := if c = '\x22' ∨ c = '\x27' then some c else none
      (tagInside? quote s).map fun (inside, rest) => (c :: inside, rest)
  | some q, c :: s =>
    (tagInside? (if c = q then none else some q) s).map fun (inside, rest) => (c :: inside, rest)

def attribute? (s : Text) : Option ((QName × Text) × Text) := do
  guard (s.head?.any isSpace)
  let (name, s) ← qname? (skipSpaces s)
  let s ← after? "=" (skipSpaces s)
  match skipSpaces s with
  | [] => none
  | q :: s =>
    guard (q = '\x22' ∨ q = '\x27')
    let (value, s) ← splitOnce? [q] s
    guard (value.all fun c => isChar c && c != '<')
    some ((name, value), s)

def start? (s : Text) : Option (Token × Text) := do
  let (name, s) ← qname? s
  let (inside, s) ← tagInside? none s
  -- the slash of an empty-element tag stands directly in front of the `>`
  let closed := inside.getLast? == some '/'
  let inside := if closed then inside.dropLast else inside
  let inside := (inside.reverse.dropWhile isSpace).reverse
  let attributes ← (Pattern.ofReader attribute?).whole? inside
  some (start name attributes closed, s)

def stop? (s : Text) : Option (Token × Text) := do
  let (name, s) ← qname? s
  let s ← after? ">" (skipSpaces s)
  some (stop name, s)

def comment? (s : Text) : Option (Token × Text) := do
  let (inside, s) ← until? "-->" s
  guard (!contains (lit "--") inside && inside.getLast? != some '-')
  some (remark, s)

def instruction? (s : Text) : Option (Token × Text) := do
  guard (!startsWith (lit "xml ") s && beginsNameOrColon s)
  let rest := s.dropWhile fun c => isNameChar c || c == ':'
  let (_, s) ← until? "?>" (skipSpaces rest)
  some (remark, s)
where
  beginsNameOrColon (s : Text) : Bool := s.head?.any fun c => isNameStart c || c == ':'

def literal? (s : Text) : Option (Token × Text) :=
  (until? "]]>" s).map fun (inside, s) => (literal inside, s)

def text? (s : Text) : Option (Token × Text) :=
  let raw := s.takeWhile (· != '<')
  if raw.all isChar && !contains (lit "]]>") raw then some (text raw, s.dropWhile (· != '<'))
  else none

def read? (s : Text) : Option (Token × Text) :=
  match s with
  | '<' :: s =>
    match s with
    | '!' :: s =>
      match after? "--" s, after? "[CDATA[" s with
      | some s, _ => comment? s
      | _, some s => literal? s
      | _, _ => none
    | '?' :: s => instruction? s
    | '/' :: s => stop? s
    | s => start? s
  | s => text? s

def readAll? (s : Text) : Option (List Token) := (Pattern.ofReader read?).whole? s

end Token
end WikiPages.Xml
