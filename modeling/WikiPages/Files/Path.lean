import WikiPages.Text.Basic

namespace WikiPages.Path

open Text

def isAbsolute (path : Text) : Bool := path.head? == some '/'

def here : Text := ['.']

def above : Text := ['.', '.']

def climbs (path : Text) : Bool := (split '/' path).contains above

def join (base path : Text) : Text :=
  if isAbsolute path then path
  else if base = [] ∨ base.getLast? = some '/' then base ++ path
  else base ++ '/' :: path

-- The steps to take for a path. A slash at the end is one more step to the same place, so that it
-- needs a directory there.
def steps (path : Text) : List Text :=
  let pieces := split '/' path
  pieces.filter (· ≠ []) ++ if path.getLast? = some '/' then [here] else []

def ofLocation (place : List Text) : Text := '/' :: Text.join ['/'] place

def follow (place : List Text) (step : Text) : List Text :=
  if step = here then place else if step = above then place.dropLast else place ++ [step]

def dropIdle (reversed : List Text) : List Text :=
  reversed.dropWhile fun step => step = [] ∨ step = here

-- The path of the directory that holds the last step; none for the root and the empty path. A `.`
-- at the start is kept, all other idle steps at the end are not.
def parent? (path : Text) : Option Text :=
  let fromRoot := isAbsolute path
  let fromHere := path = here ∨ startsWith ['.', '/'] path
  let start : Text := if fromRoot then ['/'] else if fromHere then here else []
  match dropIdle (split '/' (path.drop start.length)).reverse with
  | _ :: rest => some (start ++ Text.join ['/'] (dropIdle rest).reverse)
  | [] => if fromHere then some [] else none

def byteLength (s : Text) : Nat := s.foldl (fun n c => n + c.utf8Size) 0

end WikiPages.Path
