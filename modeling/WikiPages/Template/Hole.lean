import WikiPages.Text.Scan
import WikiPages.Text.Blank

namespace WikiPages.Hole

open Text

def opening : Text := ['$', '{']

def closing : Text := ['}']

def of (inside : Text) : Text := opening ++ inside ++ closing

theorem of_ne_nil (inside : Text) : of inside ≠ [] := by simp [of, opening]

def content : Text := of (lit "content")

def read? (s : Text) : Option (Text × Text) :=
  (opening.isPrefixOf? s).bind (splitOnce? closing)

def named (kind : Text) : Pattern Text := fun s =>
  match read? s with
  | none => none
  | some (inside, _) =>
    match (kind ++ [':']).isPrefixOf? inside with
    | none | some [] => none
    | some argument => some (argument, (of inside).length)

def ofNamed (kind argument : Text) : Text := of (kind ++ ':' :: argument)

def arguments (kind s : Text) : List Text := ((named kind).finds s).eraseDups

def menuKind : Text := lit "automenu"

def leadingBlank (s : Text) : Text × Text :=
  match s with
  | c :: rest => if isBlank c then ([c], rest) else ([], s)
  | [] => ([], [])

-- Finds a hole together with one blank character on either side. Of a menu hole everything is kept,
-- of any other nothing.
def unfilled : Pattern Text := fun s =>
  let (before, s) := leadingBlank s
  (read? s).map fun (inside, rest) =>
    let all := before ++ of inside ++ (leadingBlank rest).1
    (if (menuKind ++ [':']).isPrefixOf inside then all else [], all.length)

def stripUnfilled (s : Text) : Text := unfilled.replace id s

theorem read?_of {inside : Text} (h : '}' ∉ inside) (rest : Text) :
    read? (of inside ++ rest) = some (inside, rest) := by
  have : of inside ++ rest = opening ++ (inside ++ '}' :: rest) := by simp [of, closing]
  rw [this, read?, isPrefixOf?_append]
  exact splitOnce?_of_free h

end WikiPages.Hole
