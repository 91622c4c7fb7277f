import WikiPages.Files.Error
import WikiPages.Files.Path

namespace WikiPages

abbrev Location := List Text

inductive Entry where
  | directory
  | file (bytes : ByteArray)

-- Entries by location. The root is always a directory. Paths that are not absolute start at the
-- working directory.
structure FileTree where
  entries : List (Location × Entry) := []
  workingDirectory : Location := []

namespace FileTree

def get? (tree : FileTree) (place : Location) : Option Entry :=
  if place = [] then some .directory else tree.entries.lookup place

def put (tree : FileTree) (place : Location) (entry : Entry) : FileTree :=
  { tree with entries := (place, entry) :: tree.entries.filter (·.1 ≠ place) }

theorem get?_put_self {tree : FileTree} {place : Location} {entry : Entry} (h : place ≠ []) :
    (tree.put place entry).get? place = some entry := by
  simp [get?, put, h]

theorem lookup_filter_of_ne {place other : Location} (h : other ≠ place)
    (entries : List (Location × Entry)) :
    (entries.filter (·.1 ≠ place)).lookup other = entries.lookup other := by
  induction entries
  case nil => rfl
  case cons e entries hi =>
    by_cases he : e.1 = place
    · have : (other == e.1) = false := beq_eq_false_iff_ne.2 (he ▸ h)
      rw [List.filter_cons_of_neg (by simpa using he), List.lookup_cons, this]
      exact hi
    · rw [List.filter_cons_of_pos (by simpa using he), List.lookup_cons, List.lookup_cons, hi]

theorem get?_put_of_ne {tree : FileTree} {place other : Location} {entry : Entry}
    (h : other ≠ place) : (tree.put place entry).get? other = tree.get? other := by
  have hb : (other == place) = false := beq_eq_false_iff_ne.2 h
  simp only [get?, put, List.lookup_cons, hb]
  rw [lookup_filter_of_ne h]

-- Takes steps from a location. Each of them, idle ones too, needs a directory to start in.
def walk (tree : FileTree) : Location → List Text → Except FileFault Location
  | place, [] => .ok place
  | place, step :: steps =>
    match tree.get? place with
    | none => .error .missing
    | some (.file _) => .error .notDirectory
    | some .directory =>
      if 255 < Path.byteLength step then .error .nameTooLong
      else if (tree.get? (Path.follow place step)).isNone then .error .missing
      else tree.walk (Path.follow place step) steps

def start (tree : FileTree) (path : Text) : Location :=
  if Path.isAbsolute path then [] else tree.workingDirectory

def checkPath (path : Text) : Except FileFault Unit :=
  if '\x00' ∈ path then .error .nulInPath
  else if path = [] then .error .missing
  else if 4096 ≤ Path.byteLength path then .error .nameTooLong
  else .ok ()

def locate (tree : FileTree) (path : Text) : Except FileFault Location := do
  checkPath path
  tree.walk (tree.start path) (Path.steps path)

-- The location of an entry that exists, found place by place. The path of the location must not be
-- too long; the path as written may be.
def canonical? (tree : FileTree) (path : Text) : Option Location :=
  if '\x00' ∈ path ∨ path = [] then none
  else
    match tree.walk (tree.start path) (Path.steps path) with
    | .ok place => if Path.byteLength (Path.ofLocation place) < 4096 then some place else none
    | .error _ => none

def entryAt (tree : FileTree) (path : Text) : Except FileFault Entry := do
  let place ← tree.locate path
  match tree.get? place with
  | some entry => .ok entry
  | none => .error .missing

def isDirectory (tree : FileTree) (path : Text) : Bool :=
  match tree.entryAt path with
  | .ok .directory => true
  | _ => false

def readEntry : Entry → Except FileFault Text
  | .directory => .error .isDirectory
  | .file bytes =>
    match String.fromUTF8? bytes with
    | some s => .ok s.toList
    | none => .error .notText

-- The location where the last step of a path leads, which need not exist, and that step. The
-- location before it has to be a directory.
def locateNew (tree : FileTree) (path : Text) : Except FileFault (Location × Text) := do
  checkPath path
  match (Path.steps path).reverse with
  | [] => .error .alreadyThere
  | step :: before =>
    let parent ← tree.walk (tree.start path) before.reverse
    match tree.get? parent with
    | none => .error .missing
    | some (.file _) => .error .notDirectory
    | some .directory =>
      if 255 < Path.byteLength step then .error .nameTooLong else .ok (parent, step)

def makeDirectory (tree : FileTree) (path : Text) : Except FileFault FileTree := do
  let (parent, step) ← tree.locateNew (dropFinalSlashes path)
  if step = Path.here ∨ step = Path.above ∨ (tree.get? (parent ++ [step])).isSome then
    .error .alreadyThere
  else .ok (tree.put (parent ++ [step]) .directory)
where
  -- A new directory may be named with slashes at the end.
  dropFinalSlashes (path : Text) : Text :=
    match (path.reverse.dropWhile (· == '/')).reverse with
    | [] => path
    | short => short

-- The paths whose directories hold a path, nearest first, and the path itself before them. The
-- empty path is left out.
def lineage : (fuel : Nat) → Text → List Text
  | 0, _ => []
  | fuel + 1, path =>
    if path = [] then []
    else
      path ::
        match Path.parent? path with
        | some parent => lineage fuel parent
        | none => []

def makeLineage (tree : FileTree) : List Text → Except FileFault FileTree
  | [] => .ok tree
  | path :: parents =>
    match tree.makeDirectory path with
    | .ok tree => .ok tree
    | .error .missing => do
      -- some directory on the way does not exist yet
      let tree ← tree.makeLineage parents
      match tree.makeDirectory path with
      | .ok tree => .ok tree
      | .error fault => if tree.isDirectory path then .ok tree else .error fault
    | .error fault => if tree.isDirectory path then .ok tree else .error fault

def makeDirectories (tree : FileTree) (path : Text) : Except FileFault FileTree :=
  tree.makeLineage (lineage (path.length + 1) path)

def write (tree : FileTree) (path : Text) (text : Text) : Except FileFault FileTree := do
  let (parent, step) ← tree.locateNew path
  let place := Path.follow parent step
  match tree.get? place with
  | some .directory => .error .isDirectory
  -- a file that is already there is lost
  | _ => .ok (tree.put place (.file (String.ofList text).toUTF8))

end FileTree
end WikiPages
