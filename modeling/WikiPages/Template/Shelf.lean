import WikiPages.Files.Tree

namespace WikiPages

inductive Shelf where
  | memory (texts : List (Text × Text))
  -- A directory as written, and its location if it exists.
  | directory (base : Text) (anchor : Option Location)

inductive ShelfFault where
  | missing (name : Text)
  -- The name leads out of the directory.
  | outside (name : Text)
  | unreadable (name : Text) (fault : FileFault)
  | notText (name : Text)
  deriving DecidableEq

namespace ShelfFault

def message : ShelfFault → Text
  | missing name => Text.lit "Resource not found: " ++ name
  | outside name => Text.lit "Resource not found: " ++ name ++ Text.lit " (path traversal blocked)"
  | unreadable name fault =>
    Text.lit "Failed to load resource '" ++ name ++ Text.lit "': " ++ fault.message
  | notText name => Text.lit "Resource '" ++ name ++ Text.lit "' is not valid UTF-8 text"

def isAbsence : ShelfFault → Bool
  | missing _ | outside _ => true
  | unreadable _ _ | notText _ => false

def ofFileFault (name : Text) : FileFault → ShelfFault
  | .missing => missing name
  | .notText => notText name
  | fault => unreadable name fault

end ShelfFault

namespace Shelf

def ofDirectory (tree : FileTree) (base : Text) : Shelf :=
  directory base (tree.canonical? base)

def putText (texts : List (Text × Text)) (name text : Text) : List (Text × Text) :=
  (name, text) :: texts.filter (·.1 ≠ name)

def dropText (texts : List (Text × Text)) (name : Text) : List (Text × Text) :=
  texts.filter (·.1 ≠ name)

-- What lies at `name` seen from a directory. A name that leads out of it is refused: when it leads
-- somewhere, by comparing locations, and otherwise by its steps.
def open? (tree : FileTree) (base : Text) (anchor : Option Location) (name : Text) :
    Except ShelfFault Entry :=
  if Path.isAbsolute name then .error (.outside name)
  else
    let path := Path.join base name
    match tree.canonical? path, anchor with
    | some place, some anchor =>
      -- compared step by step, so a sibling whose name begins alike is outside
      if anchor.isPrefixOf place then
        match tree.get? place with
        | some entry => .ok entry
        | none => .error (.missing name)
      else .error (.outside name)
    | _, _ =>
      -- there is no location to compare, so every step upwards is refused
      if Path.climbs name then .error (.outside name)
      else (tree.entryAt path).mapError (ShelfFault.ofFileFault name)

def load (tree : FileTree) (name : Text) : Shelf → Except ShelfFault Text
  | memory texts =>
    match texts.lookup name with
    | some text => .ok text
    | none => .error (.missing name)
  | directory base anchor => do
    let entry ← open? tree base anchor name
    (FileTree.readEntry entry).mapError (ShelfFault.ofFileFault name)

-- Whether there is a file `name`. A directory of that name does not count.
def has (tree : FileTree) (name : Text) : Shelf → Bool
  | memory texts => (texts.lookup name).isSome
  | directory base anchor =>
    match open? tree base anchor name with
    | .ok (.file _) => true
    | _ => false

theorem below_of_open? {tree : FileTree} {base name : Text} {anchor place : Location}
    {entry : Entry} (hp : tree.canonical? (Path.join base name) = some place)
    (h : open? tree base (some anchor) name = .ok entry) :
    anchor.isPrefixOf place = true ∧ tree.get? place = some entry := by
  unfold open? at h
  split at h
  · cases h
  · simp only [hp] at h
    split at h
    case isTrue below =>
      refine ⟨below, ?_⟩
      split at h
      case h_1 he =>
        cases h
        exact he
      case h_2 => cases h
    case isFalse => cases h

end Shelf
end WikiPages
