import WikiPages.Specification.Directive
import WikiPages.Xml.Loading

namespace WikiPages

-- A directive with the document that it names. Without one it is bound to the data of the run.
structure Block where
  kind : Text
  title : Text := []
  overrides : Substitution := {}
  data : Option Xml.Document := none
  parameters : List Parameter := []
  deriving DecidableEq

namespace Block

def isFree (block : Block) : Bool := block.kind = Directive.freeKind

abbrev Fetch := Text → Except Fault Xml.Document

-- Gets documents from files. A locator that is not absolute is seen from the base directory.
def fetchFrom (reader : Xml.Reader) (tree : FileTree) (base : Option Text) : Fetch := fun locator =>
  if locator = [] then .error (.locator [] .empty)
  else
    let path := match base with
      | some base => Path.join base locator
      | none => locator
    (Xml.Document.load reader tree path).mapError fun fault => .locator locator (.data fault)

def withData (directive : Directive) (data : Option Xml.Document) : Block :=
  { kind := directive.kind, title := directive.title, overrides := directive.overrides, data
    parameters := directive.parameters }

def ofDirective (fetch : Fetch) (directive : Directive) : Except Fault Block :=
  match directive.locator with
  | none => .ok (withData directive none)
  | some locator => (fetch locator).map fun data => withData directive (some data)

def ofLine (fetch : Fetch) (line : Text) : Except Fault Block :=
  ofDirective fetch (Directive.parse line)

theorem ofDirective_eq_ok_of_locator_eq_none {directive : Directive}
    (h : directive.locator = none) (fetch : Fetch) :
    ofDirective fetch directive = .ok (withData directive none) := by
  simp [ofDirective, h]

end Block
end WikiPages
