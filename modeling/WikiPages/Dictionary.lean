import WikiPages.Text.Blank
import WikiPages.Text.Case
import WikiPages.Text.Lines

namespace WikiPages

open Text

-- The latest entry of a key counts, and stands before the earlier ones.
structure Dictionary where
  -- Values by field and property.
  values : List ((Text × Text) × Text) := []
  -- From a field to the field that it is an alias of.
  aliases : List (Text × Text) := []

namespace Dictionary

def description : Text := lit "description"

def placeholder : Text := lit "placeholder"

def input : Text := lit "input"

def defaultInput : Text := lit "text-input"

def fieldKey (field : Text) : Text := lowercase (trim field)

-- Follows aliases from a key. An alias that was followed is not followed again.
def follow : (steps : Nat) → List (Text × Text) → Text → Text
  | 0, _, key => key
  | steps + 1, aliases, key =>
    match aliases.lookup key with
    -- dropping the alias makes sure that a circle is left again
    | some next => follow steps (aliases.filter (·.1 ≠ key)) next
    | none => key

def resolve (d : Dictionary) (field : Text) : Text :=
  follow d.aliases.length d.aliases (fieldKey field)

def set (d : Dictionary) (field property value : Text) : Dictionary :=
  { d with values := ((fieldKey field, lowercase property), value) :: d.values }

-- Makes a field an alias of another, unless that one resolves to the field itself.
def addAlias (d : Dictionary) (field source : Text) : Dictionary :=
  if d.resolve (fieldKey source) = fieldKey field then d
  else { d with aliases := (fieldKey field, fieldKey source) :: d.aliases }

def behavior? (d : Dictionary) (field property : Text) : Option Text :=
  (d.values.lookup (fieldKey field, lowercase property)).or
    (d.values.lookup (d.resolve field, lowercase property))

def descriptionOf (d : Dictionary) (field : Text) : Text := (d.behavior? field description).getD []

def placeholderOf (d : Dictionary) (field : Text) : Text := (d.behavior? field placeholder).getD []

def inputOf (d : Dictionary) (field : Text) : Text :=
  ((d.behavior? field input).filter (· ≠ [])).getD defaultInput

def declare (d : Dictionary) (declaration : Text) : Dictionary × Text :=
  let isNamePart (c : Char) : Bool := c != '=' && c != ':'
  let field := fieldKey (declaration.takeWhile isNamePart)
  match declaration.dropWhile isNamePart with
  | [] => (d, field)
  | c :: rest =>
    if c = '=' then (d.addAlias field (fieldKey rest), field)
    else (d.set field description (trim rest), field)

structure Reading where
  dictionary : Dictionary := {}
  field : Option Text := none

namespace Reading

def line (r : Reading) (written : Text) : Reading :=
  match trim written with
  | '*' :: '*' :: property =>
    match r.field, splitOnce? [':'] property with
    | some field, some (key, value) =>
      { r with dictionary := r.dictionary.set field (trim key) (trim value) }
    | _, _ => r
  | '*' :: declaration =>
    let (dictionary, field) := r.dictionary.declare declaration
    { dictionary, field := some field }
  | _ => r

end Reading

def parse (s : Text) : Dictionary := ((lines s).foldl Reading.line {}).dictionary

theorem resolve_of_not_alias {d : Dictionary} {field : Text}
    (h : d.aliases.lookup (fieldKey field) = none) : d.resolve field = fieldKey field := by
  unfold resolve
  cases d.aliases.length
  case zero => rfl
  case succ => simp [follow, h]

end Dictionary
end WikiPages
