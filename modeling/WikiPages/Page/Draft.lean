import WikiPages.Identifier.Pool
import WikiPages.Page.Tree
import WikiPages.Template.Cabinet

namespace WikiPages

structure Page where
  title : Text
  content : Text
  inputs : Nat := 0
  outputs : Nat := 0
  deriving DecidableEq

namespace Page

def fileOf (title : Text) : Text := Identifier.normalize title ++ Templates.pageExtension

def file (p : Page) : Text := fileOf p.title

end Page

structure Ledger where
  ids : IdPool := {}
  inputs : Nat := 0
  outputs : Nat := 0

namespace Ledger

def countInput (l : Ledger) : Ledger := { l with inputs := l.inputs + 1 }

def countOutputs (l : Ledger) (n : Nat) : Ledger := { l with outputs := l.outputs + n }

def issue (l : Ledger) (context : Text) : Text × Ledger :=
  let (id, ids) := l.ids.issue context
  (id, { l with ids })

def issueFor (l : Ledger) (kind title : Text) : Text × Ledger :=
  l.issue (IdPool.lineContext kind title)

end Ledger

structure Draft where
  title : Text
  tree : PageTree
  opened : OpenNodes := {}
  ledger : Ledger := {}

namespace Draft

def start (title : Text) (page : Snippet) : Draft := { title, tree := .ofRoot page }

def depth (d : Draft) : Nat := d.opened.depth

def enter (d : Draft) (level : UInt64) : Draft := { d with opened := d.opened.enter level }

def insert (d : Draft) (f : Snippet) : Draft :=
  { d with
    tree := d.tree.append d.opened.current f
    opened := d.opened.push d.tree.size }

def finish (d : Draft) : Page :=
  { title := d.title, content := d.tree.render
    inputs := d.ledger.inputs, outputs := d.ledger.outputs }

theorem depth_enter (d : Draft) (level : UInt64) :
    (d.enter level).depth = min (OpenNodes.kept level) (d.depth - 1) + 1 :=
  OpenNodes.depth_enter d.opened level

end Draft
end WikiPages
