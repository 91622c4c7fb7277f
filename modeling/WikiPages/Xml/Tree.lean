import WikiPages.Xml.Document

namespace WikiPages.Xml

inductive NodeKind where
  | root
  | element
  | text
  deriving DecidableEq

structure DataNode where
  kind : NodeKind
  name : Text := []
  text : Text := []
  attributes : List (Text × Text) := []
  children : List Nat := []
  parent : Option Nat := none
  deriving DecidableEq

-- A document as it is searched. Nodes are numbered in the order in which they are copied.
structure DataTree where
  nodes : List DataNode := []
  deriving DecidableEq

namespace DataTree

def size (t : DataTree) : Nat := t.nodes.length

def push (t : DataTree) (node : DataNode) : DataTree := ⟨t.nodes ++ [node]⟩

def setChildren (t : DataTree) (node : Nat) (children : List Nat) : DataTree :=
  ⟨t.nodes.modify node fun n => { n with children }⟩

-- Copies nodes that stand next to each other, with what is inside them. Gives the numbers of those that stand next to
-- each other, where remarks have none.
def copy (parent : Nat) : Source → DataTree → List Nat × DataTree
  | .nil, t => ([], t)
  | .text s next, t =>
    let (behind, copied) := copy parent next (t.push { kind := .text, text := s, parent })
    (t.size :: behind, copied)
  | .element tag inner next, t =>
    let node : DataNode := { kind := .element, name := tag.name, attributes := tag.attributes, parent }
    let (inside, copied) := copy t.size inner (t.push node)
    let (behind, copied) := copy parent next (copied.setChildren t.size inside)
    (t.size :: behind, copied)
  | .remark next, t => copy parent next t

section

variable (t : DataTree) (n : Nat)

def kind? : Option NodeKind := t.nodes[n]?.map (·.kind)

def isElement : Bool := t.kind? n = some .element

def isText : Bool := t.kind? n = some .text

def name? : Option Text := t.nodes[n]?.bind fun node => if node.kind = .element then some node.name else none

def text (t : DataTree) (n : Nat) : Text := (t.nodes[n]?.map (·.text)).getD []

def parent? : Option Nat := t.nodes[n]?.bind (·.parent)

def children (t : DataTree) (n : Nat) : List Nat := (t.nodes[n]?.map (·.children)).getD []

def elementChildren : List Nat := (t.children n).filter t.isElement

end

def documentElement? (t : DataTree) : Option Nat := (t.elementChildren 0).head?

def elementsAt (t : DataTree) (context : Option Text) (name : Text) : List Nat :=
  ((List.range t.size).filter fun n => t.isElement n && t.name? n = some name).filter fun n =>
    match context with
    | none => true
    | some context => (t.parent? n).any fun p => t.isElement p && t.name? p = some context

def insert (n : Nat) : List Nat → List Nat
  | [] => [n]
  | m :: rest => if n < m then n :: m :: rest else if n = m then m :: rest else m :: insert n rest

def inOrder (numbers : List Nat) : List Nat := numbers.foldr insert []

def rowsAt (t : DataTree) (context : Option Text) (name : Text) : List Nat :=
  inOrder ((t.elementsAt context name).flatMap t.elementChildren)

-- The text inside a node. Nodes have larger numbers than those that they are inside of, so there are at most as many
-- levels as nodes.
def textInside (t : DataTree) : (levels n : Nat) → Text
  | 0, _ => []
  | levels + 1, n => (t.children n).flatMap fun child => if t.isText child then t.text child else t.textInside levels child

def textContent (t : DataTree) (n : Nat) : Text := if t.isText n then t.text n else t.textInside t.size n

def textAt? (t : DataTree) (context : Option Text) (name : Text) : Option Text :=
  ((t.elementsAt context name).flatMap fun n => (t.children n).filter t.isText).min?.map t.textContent

end DataTree

def Document.tree (d : Document) : DataTree :=
  let (inside, copied) := DataTree.copy 0 d.source (.push {} { kind := .root })
  copied.setChildren 0 inside

end WikiPages.Xml
