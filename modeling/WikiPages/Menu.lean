import WikiPages.Fault
import WikiPages.Page.Draft

namespace WikiPages.Menu

open Text

def entryValues (p : Page) : Substitution :=
  Substitution.ofList [(lit "url", p.file), (lit "title", p.title)]

def build (templates : Templates) (pages : List Page) (item : Text) : Except Fault Text := do
  let entries ← pages.mapM fun p => (templates.page item (entryValues p)).mapError Fault.ofTemplate
  pure (join lineBreak entries)

-- Pages whose menu holes are being filled, and the menus that were built so far, by item.
structure Filling where
  pages : List Page
  menus : List (Text × Text) := []

namespace Filling

-- The menu of an item: the one that was built before, or else one of the pages as they are now.
def menu (templates : Templates) (f : Filling) (item : Text) : Except Fault (Text × Filling) :=
  match f.menus.lookup item with
  | some menu => pure (menu, f)
  | none => do
    let menu ← build templates f.pages item
    pure (menu, { f with menus := (item, menu) :: f.menus })

def fillItem (templates : Templates) : Text × Filling → Text → Except Fault (Text × Filling)
  | (s, f), item => do
    let (menu, f) ← f.menu templates item
    pure (replaceAll (Hole.ofNamed Hole.menuKind item) menu s, f)

def fillPage (templates : Templates) (f : Filling) (i : Nat) : Except Fault Filling :=
  match f.pages[i]? with
  | none => pure f
  | some p => do
    let items := Hole.arguments Hole.menuKind p.content
    let (content, f) ← items.foldlM (fillItem templates) (p.content, f)
    pure { f with pages := f.pages.set i { p with content } }

def run (templates : Templates) : Filling → List Nat → Filling × Option Fault
  | f, [] => (f, none)
  | f, i :: order =>
    match f.fillPage templates i with
    | .error fault => (f, some fault)
    | .ok f => run templates f order

end Filling

def fillInTurn (templates : Templates) (pages : List Page) : List Page × Option Fault :=
  let (f, fault) := Filling.run templates { pages } (List.range pages.length)
  (f.pages, fault)

def fillAll (templates : Templates) (pages : List Page) : Except Fault (List Page) :=
  match fillInTurn templates pages with
  | (pages, none) => .ok pages
  | (_, some fault) => .error fault

-- What this comes to: each page is filled by itself, with menus of its own.
section Apart

def fillItem (templates : Templates) (pages : List Page) (s item : Text) : Except Fault Text := do
  let menu ← build templates pages item
  pure (replaceAll (Hole.ofNamed Hole.menuKind item) menu s)

def fill (templates : Templates) (pages : List Page) (p : Page) : Except Fault Page := do
  let content ← (Hole.arguments Hole.menuKind p.content).foldlM (fillItem templates pages) p.content
  pure { p with content }

def fillEach (templates : Templates) (all : List Page) : List Page → List Page × Option Fault
  | [] => ([], none)
  | p :: rest =>
    match fill templates all p with
    | .error fault => (p :: rest, some fault)
    | .ok p =>
      let (rest, fault) := fillEach templates all rest
      (p :: rest, fault)

end Apart

end WikiPages.Menu
