import WikiPages.Identifier.Basic
import WikiPages.Specification.Block
import WikiPages.Xml.Place

namespace WikiPages.Binding

open Text Xml

def sharedContext : Text := lit "default"

def paths (pageTitle id title : Text) : List (Text × Text) :=
  let page := Identifier.normalize pageTitle
  let named := Identifier.normalize title
  let names := if title ≠ [] ∧ named ≠ id then [id, named] else [id]
  names.map (page, ·) ++ names.map (sharedContext, ·)

def firstRows (data : Document) (paths : List (Text × Text)) : List Place :=
  (paths.findSome? fun (context, name) =>
    let rows := data.rowsAt (some context) name
    if rows.isEmpty then none else some rows).getD []

def rows (data : Option Document) (block : Block) (pageTitle id : Text) : List Place :=
  match block.data, data with
  -- the page's title plays no part for a document of the block's own
  | some own, _ => own.outermostRows
  | none, some data => firstRows data (paths pageTitle id block.title)
  | none, none => []

def scalar (data : Option Document) (block : Block) (pageTitle id : Text) : Text :=
  let found :=
    match block.data, data with
    | some own, _ => own.textAt? none id
    | none, some data =>
      (paths pageTitle id block.title).findSome? fun (context, name) =>
        data.textAt? (some context) name
    | none, none => none
  found.getD []

-- The fields of a row, one for each parameter. Without parameters it is the first node of the row.
def fields (row : Place) (parameters : List Parameter) : List (Option Place) :=
  if parameters = [] then [row.children.head?]
  else parameters.map fun p => row.child? (Identifier.normalize p.name)

def fieldText (field : Option Place) : Text := (field.map Place.allText).getD []

def owner? (field : Option Place) : Option Element :=
  field.bind fun p => p.element?.or p.parent?

def attributeOf (field : Option Place) (name : Text) : Text :=
  ((owner? field).bind (·.attribute? name)).getD []

def elementOf (field : Option Place) (name : Text) : Text :=
  ((owner? field).bind (·.child? name)).map (·.allText) |>.getD []

theorem rows_of_data {block : Block} {own : Document} (h : block.data = some own)
    (data : Option Document) (pageTitle id : Text) :
    rows data block pageTitle id = own.outermostRows := by
  simp [rows, h]

theorem scalar_of_data {block : Block} {own : Document} (h : block.data = some own)
    (data : Option Document) (pageTitle id : Text) :
    scalar data block pageTitle id = (own.textAt? none id).getD [] := by
  simp [scalar, h]

end WikiPages.Binding
