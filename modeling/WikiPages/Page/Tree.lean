import WikiPages.Page.Snippet

namespace WikiPages

open Text

structure PageNode where
  snippet : Snippet
  parent : Option Nat := none
  children : List Nat := []
  deriving DecidableEq

-- The snippets of a page, numbered in the order in which they were put in. The page's own is there from the start.
structure PageTree where
  nodes : List PageNode
  filled : nodes ≠ []
  deriving DecidableEq

namespace PageTree

def ofRoot (page : Snippet) : PageTree := ⟨[{ snippet := page }], List.cons_ne_nil _ _⟩

def root (t : PageTree) : Snippet := (t.nodes.head t.filled).snippet

def size (t : PageTree) : Nat := t.nodes.length

def snippet? (t : PageTree) (node : Nat) : Option Snippet := t.nodes[node]?.map (·.snippet)

def parent? (t : PageTree) (node : Nat) : Option Nat := t.nodes[node]?.bind (·.parent)

def children (t : PageTree) (node : Nat) : List Nat := (t.nodes[node]?.map (·.children)).getD []

def hasSlot (t : PageTree) (node : Nat) : Bool := (t.snippet? node).any (·.hasSlot)

def climb (t : PageTree) : (steps node : Nat) → Nat
  | 0, node => node
  | steps + 1, node =>
    if t.hasSlot node then node
    else
      match t.parent? node with
      | some parent => climb t steps parent
      | none => node

-- The nearest node with a slot, from a node upwards, or else the root. Nodes above have smaller numbers, so the root
-- is at most as many steps away as the number of the node says.
def container (t : PageTree) (node : Nat) : Nat := t.climb node node

def append (t : PageTree) (node : Nat) (f : Snippet) : PageTree where
  nodes :=
    let new : PageNode := { snippet := f, parent := some (t.container node) }
    (t.nodes ++ [new]).modify (t.container node) fun n => { n with children := n.children ++ [t.size] }
  filled := by
    rw [← List.length_pos_iff, List.length_modify]
    simp

-- Writes behind some output, which is kept last character first.
def write (t : PageTree) : (depth node : Nat) → (output : Text) → Text
  | 0, _, output => output
  | depth + 1, node, output =>
    match t.snippet? node with
    | none => output
    | some f =>
      let output := f.head.reverse ++ output
      let output := (t.children node).foldl (fun output child => t.write depth child output) output
      match f.tail with
      | none => output
      | some tail => tail.reverse ++ output.dropWhile isBlank

def render (t : PageTree) : Text := (t.write t.size 0 []).reverse

variable {t : PageTree} {node child old : Nat} {f : Snippet}

@[simp]
theorem size_append (t : PageTree) (node : Nat) (f : Snippet) : (t.append node f).size = t.size + 1 := by
  simp [append, size]

theorem nodes_append_old (h : old < t.size) :
    (t.append node f).nodes[old]? = t.nodes[old]?.map fun n =>
      if t.container node = old then { n with children := n.children ++ [t.size] } else n := by
  rw [append, List.getElem?_modify, List.getElem?_append_left h]
  rfl

theorem nodes_append_new :
    (t.append node f).nodes[t.size]? =
      some ⟨f, some (t.container node), if t.container node = t.size then [t.size] else []⟩ := by
  rw [append, List.getElem?_modify, size, List.getElem?_concat_length, Option.map_eq_map, Option.map_some]
  split <;> rfl

theorem snippet?_append_new (t : PageTree) (node : Nat) (f : Snippet) :
    (t.append node f).snippet? t.size = some f := by
  rw [snippet?, nodes_append_new, Option.map_some]

theorem snippet?_append_old (h : old < t.size) : (t.append node f).snippet? old = t.snippet? old := by
  rw [snippet?, nodes_append_old h, Option.map_map, snippet?]
  congr 1
  funext n
  dsimp only [Function.comp]
  split <;> rfl

theorem parent?_append_new (t : PageTree) (node : Nat) (f : Snippet) :
    (t.append node f).parent? t.size = some (t.container node) := by
  rw [parent?, nodes_append_new, Option.bind_some]

theorem parent?_append_old (h : child < t.size) : (t.append node f).parent? child = t.parent? child := by
  rw [parent?, nodes_append_old h, Option.bind_map, parent?]
  congr 1
  funext n
  dsimp only [Function.comp]
  split <;> rfl

theorem children_append_new (h : t.container node < t.size) : (t.append node f).children t.size = [] := by
  rw [children, nodes_append_new, Option.map_some, if_neg (Nat.ne_of_lt h), Option.getD_some]

theorem children_append_old (h : old < t.size) :
    (t.append node f).children old =
      t.children old ++ if t.container node = old then [t.size] else [] := by
  have here : t.nodes[old]? = some t.nodes[old] := List.getElem?_eq_getElem h
  rw [children, children, nodes_append_old h, here]
  by_cases hc : t.container node = old <;> simp [hc]

end PageTree

structure OpenNodes where
  inner : List Nat := []
  deriving DecidableEq

namespace OpenNodes

def depth (o : OpenNodes) : Nat := o.inner.length + 1

def current (o : OpenNodes) : Nat := o.inner.getLast?.getD 0

-- How many nodes stay open besides the page's own. The sum wraps, so at the last level none does.
def kept (level : UInt64) : Nat := (max (level + 1) 1).toNat - 1

def enter (o : OpenNodes) (level : UInt64) : OpenNodes := ⟨o.inner.take (kept level)⟩

def push (o : OpenNodes) (node : Nat) : OpenNodes := ⟨o.inner ++ [node]⟩

def lastLevel : UInt64 := 0xFFFFFFFFFFFFFFFF

theorem kept_of_ne {level : UInt64} (h : level ≠ lastLevel) : kept level = level.toNat := by
  have below : level.toNat < 0xFFFFFFFFFFFFFFFF :=
    Nat.lt_of_le_of_ne (Nat.le_of_lt_succ level.toNat_lt) fun he => h (UInt64.toNat_inj.mp he)
  have sum : (level + 1).toNat = level.toNat + 1 := by
    rw [UInt64.toNat_add, UInt64.toNat_one, Nat.mod_eq_of_lt (by omega)]
  have larger : 1 ≤ level + 1 := by
    rw [UInt64.le_iff_toNat_le, sum, UInt64.toNat_one]
    omega
  have max_eq : max (level + 1) 1 = level + 1 := by
    change (if level + 1 ≤ 1 then 1 else level + 1) = level + 1
    split
    case isTrue h => exact UInt64.le_antisymm larger h
    case isFalse => rfl
  rw [kept, max_eq, sum, Nat.add_sub_cancel]

theorem depth_enter (o : OpenNodes) (level : UInt64) :
    (o.enter level).depth = min (kept level) (o.depth - 1) + 1 := by
  simp [enter, depth]

end OpenNodes
end WikiPages
