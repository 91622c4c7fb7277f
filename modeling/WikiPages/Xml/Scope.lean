import WikiPages.Xml.Content
import WikiPages.Xml.Reference
import WikiPages.Xml.Token

namespace WikiPages.Xml

open Text

inductive Event where
  | characters (t : Text)
  -- Something passed over, which keeps the text on its two sides apart.
  | remark
  | start (name : QName) (attributes : List (Text × Text))
  | stop (name : QName)
  deriving DecidableEq

abbrev Bindings := List (Text × Text)

namespace Bindings

def xmlScope : Text := lit "xml"

def declaring : Text := lit "xmlns"

def xmlAddress : Text := lit "http://www.w3.org/XML/1998/namespace"

def declaringAddress : Text := lit "http://www.w3.org/2000/xmlns/"

-- The scopes that some attributes bind, unless one is bound to what it must not be bound to.
def declared? : List (QName × Text) → Option Bindings
  | [] => some []
  | (name, address) :: rest => do
    let bound ← declared? rest
    if name.scope = declaring then
      guard (address ≠ declaringAddress)
      -- the scope `xml` and its address belong to each other only
      guard (name.name = xmlScope ↔ address = xmlAddress)
      guard ((bound.lookup name.name).isNone)
      some (if name.name = xmlScope then bound else (name.name, address) :: bound)
    else if name.name = declaring then
      guard (address ≠ xmlAddress ∧ address ≠ declaringAddress)
      some bound
    else some bound

def isDeclaration (name : QName) : Bool := name.scope = declaring || name.name = declaring

-- The address of an attribute's scope, which is none for a name without scope; fails when the scope
-- is not bound.
def address? (bound : Bindings) (scope : Text) : Option (Option Text) :=
  if scope = [] then some none
  else if scope = xmlScope then some (some xmlAddress)
  else (bound.lookup scope).map some

def admits (bound : Bindings) (name : QName) : Bool :=
  name.scope ≠ declaring && (name.scope = [] || (bound.lookup name.scope).isSome)

def enter? (outer : Bindings) (name : QName) (attributes : List (QName × Text)) :
    Option (List (Text × Text) × Bindings) := do
  let values ← attributes.mapM fun (name, raw) => (decodeValue? raw).map (name, ·)
  let bound := (← declared? values) ++ outer
  guard (bound.admits name)
  -- two attributes are the same if their names agree once the scopes are replaced by addresses
  let kept := values.filter fun (name, _) => !isDeclaration name
  let addresses ← kept.mapM fun (name, _) => (bound.address? name.scope).map (·, name.name)
  guard addresses.Nodup
  some (kept.map fun (name, value) => (name.name, value), bound)

end Bindings

namespace Event

-- The events of some tokens, with the bindings in force in each open element, innermost first.
-- Outside the outermost element there may be white space only.
def ofTokens? : (opened : List Bindings) → List Token → Option (List Event)
  | _, [] => some []
  | opened, .remark :: tokens => (ofTokens? opened tokens).map (remark :: ·)
  | [], .text raw :: tokens => if raw.all isSpace then ofTokens? [] tokens else none
  | bound :: opened, .text raw :: tokens => do
    let t ← decode? raw
    (ofTokens? (bound :: opened) tokens).map (characters t :: ·)
  | [], .literal _ :: _ => none
  | bound :: opened, .literal raw :: tokens =>
    (ofTokens? (bound :: opened) tokens).map (characters (decodeLiteral raw) :: ·)
  | opened, .start name attributes closed :: tokens => do
    let (values, bound) ← Bindings.enter? (opened.headD []) name attributes
    if closed then
      (ofTokens? opened tokens).map ([start name values, stop name] ++ ·)
    else (ofTokens? (bound :: opened) tokens).map (start name values :: ·)
  | [], .stop _ :: _ => none
  | _ :: opened, .stop name :: tokens => (ofTokens? opened tokens).map (stop name :: ·)

end Event
end WikiPages.Xml
