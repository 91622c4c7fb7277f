import WikiPages.Xml.Tree

namespace WikiPages.Xml

inductive Node where
  | text (t : Text)
  | element (e : Element)
  deriving DecidableEq

structure Place where
  number : Nat
  node : Node
  -- The elements around it, innermost first.
  around : List Element
  deriving DecidableEq

namespace Content

def siblings (around : List Element) : (number : Nat) → Content → List Place
  | _, nil => []
  | number, text t next => ⟨number, .text t, around⟩ :: siblings around (number + 1) next
  | number, element tag inner next =>
    ⟨number, .element ⟨tag, inner⟩, around⟩ ::
      siblings around (number + 1 + inner.size) next

def places (around : List Element) (number : Nat) : Content → List Place
  | nil => []
  | text t next => ⟨number, .text t, around⟩ :: places around (number + 1) next
  | element tag inner next =>
    ⟨number, .element ⟨tag, inner⟩, around⟩ ::
      (places (⟨tag, inner⟩ :: around) (number + 1) inner ++
        places around (number + 1 + inner.size) next)

end Content

namespace Place

def element? (p : Place) : Option Element :=
  match p.node with
  | .element e => some e
  | .text _ => none

def isElement (p : Place) : Bool := p.element?.isSome

def isText (p : Place) : Bool := !p.isElement

def name? (p : Place) : Option Text := p.element?.map (·.name)

def parent? (p : Place) : Option Element := p.around.head?

def allText (p : Place) : Text :=
  match p.node with
  | .text t => t
  | .element e => e.allText

def children (p : Place) : List Place :=
  match p.node with
  | .text _ => []
  | .element e => e.inner.siblings (e :: p.around) (p.number + 1)

def elementChildren (p : Place) : List Place := p.children.filter isElement

def child? (p : Place) (name : Text) : Option Place :=
  p.elementChildren.find? (·.name? = some name)

end Place

namespace Document

def places (d : Document) : List Place := d.content.places [] 1

def rootPlace (d : Document) : Place := ⟨1, .element d.root, []⟩

def place? (d : Document) (number : Nat) : Option Place := d.places.find? (·.number = number)

def elementsAt (d : Document) (context : Option Text) (name : Text) : List Place :=
  (d.tree.elementsAt context name).filterMap d.place?

def rowsAt (d : Document) (context : Option Text) (name : Text) : List Place :=
  (d.tree.rowsAt context name).filterMap d.place?

def textAt? (d : Document) (context : Option Text) (name : Text) : Option Text := d.tree.textAt? context name

def outermostRows (d : Document) : List Place :=
  ((d.tree.documentElement?.map d.tree.elementChildren).getD []).filterMap d.place?

end Document
end WikiPages.Xml
