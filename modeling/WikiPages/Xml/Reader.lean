import WikiPages.Xml.Document
import WikiPages.Xml.Scope

namespace WikiPages.Xml

open Text

structure Assembly where
  -- Those so far at the level being put together.
  current : Source := .nil
  -- The levels around it: the name of the end tag, and the nodes behind that.
  outer : List (QName × Source) := []

namespace Assembly

def add (a : Assembly) : Event → Option Assembly
  | .characters t =>
    match a.current with
    | .text u next => some { a with current := .text (t ++ u) next }
    | current => some { a with current := .text t current }
  | .remark => some { a with current := .remark a.current }
  | .stop name => some { outer := (name, a.current) :: a.outer }
  | .start name attributes =>
    match a.outer with
    | (expected, behind) :: outer =>
      if expected = name then
        some { current := .element ⟨name.name, attributes⟩ a.current behind, outer := outer }
      else none
    | [] => none

theorem add_start (current behind : Source) (outer : List (QName × Source)) (name : QName)
    (attributes : List (Text × Text)) :
    add ⟨current, (name, behind) :: outer⟩ (.start name attributes) =
      some ⟨.element ⟨name.name, attributes⟩ current behind, outer⟩ :=
  if_pos rfl

end Assembly

def Source.remarks? : Source → Option Nat
  | nil => some 0
  | remark next => next.remarks?.map (· + 1)
  | text .. | element .. => none

def Source.document? : Source → Option Document
  | element tag inner next => next.remarks?.map fun behind => { tag, inner, behind }
  | remark next => next.document?.map fun d => { d with before := d.before + 1 }
  | nil | text .. => none

namespace Document

def ofEvents? (events : List Event) : Option Document := do
  let a ← events.foldrM (fun event a => a.add event) ({} : Assembly)
  if a.outer = [] then a.current.document? else none

-- The text behind a declaration at the start, if there is one. It gives a version, and then perhaps
-- an encoding, and whether the document stands alone.
def skipDeclaration? (s : Text) : Option Text :=
  match Token.after? "<?xml " s with
  | none => some s
  | some inside => do
    let s := Token.skipSpaces inside
    guard (startsWith (lit "version") s)
    let s ← pastPart? s
    let s ← if startsWith (lit "encoding") s then pastPart? s else some s
    let s ← if startsWith (lit "standalone") s then (plainAttribute? s) else some s
    Token.after? "?>" (Token.skipSpaces s)
where
  -- The text behind an attribute that begins here.
  plainAttribute? (s : Text) : Option Text := (Token.attribute? (' ' :: s)).map (·.2)
  -- The text behind an attribute and the white space that has to follow unless the declaration
  -- ends.
  pastPart? (s : Text) : Option Text := do
    let s ← plainAttribute? s
    guard (s.head?.any isSpace || startsWith (lit "?>") s || s.isEmpty)
    some (Token.skipSpaces s)

def byteOrderMark : Char := '\ufeff'

def skipMark (s : Text) : Text := if s.head? = some byteOrderMark then s.tail else s

-- Accepts what is well-formed and has no document type.
def parse? : Reader := fun s => do
  let s ← skipDeclaration? (skipMark s)
  let tokens ← Token.readAll? s
  let events ← Event.ofTokens? [] tokens
  ofEvents? events

end Document
end WikiPages.Xml
