import WikiPages.Page.Draft
import WikiPages.Proofs.Page.Rendering

namespace WikiPages.Draft

open PageTree Visit

abbrev Steps := List (UInt64 × Snippet)

def step (d : Draft) (line : UInt64 × Snippet) : Draft := (d.enter line.1).insert line.2

def run (title : Text) (page : Snippet) (lines : Steps) : Draft :=
  lines.foldl step (start title page)

theorem run_concat (title : Text) (page : Snippet) (lines : Steps) (line : UInt64 × Snippet) :
    run title page (lines ++ [line]) = (run title page lines).step line := by
  simp [run]

theorem tree_insert (d : Draft) (f : Snippet) :
    (d.insert f).tree = d.tree.append d.opened.current f := rfl

theorem inner_insert (d : Draft) (f : Snippet) :
    (d.insert f).opened.inner = d.opened.inner ++ [d.tree.size] := rfl

section Spine

variable {d : Draft} {t : PageTree} {holder n : Nat} {nodes : List Nat} {f : Snippet}

-- The node that takes what is put into the last of some nodes, when `holder` takes what is put
-- around them.
def lastHolder (t : PageTree) (holder : Nat) (nodes : List Nat) : Nat :=
  nodes.foldl (fun holder n => if t.hasSlot n then n else holder) holder

def Nested (t : PageTree) : Nat → List Nat → Prop
  | _,      []        => True
  | holder, n :: rest => t.parent? n = some holder ∧ Nested t (if t.hasSlot n then n else holder) rest

theorem nested_concat :
    Nested t holder (nodes ++ [n]) ↔
      Nested t holder nodes ∧ t.parent? n = some (lastHolder t holder nodes) := by
  induction nodes generalizing holder
  case nil => simp [Nested, lastHolder]
  case cons hi => simp [Nested, lastHolder, hi, and_assoc]

theorem Nested.take (h : Nested t holder nodes) (k : Nat) : Nested t holder (nodes.take k) := by
  induction nodes generalizing holder k
  case nil => simp [Nested]
  case cons hi =>
    cases k
    case zero => simp [Nested]
    case succ k => exact ⟨h.1, hi h.2 k⟩

theorem Nested.takes (h : Nested t holder nodes) (ht : t.Takes n holder) :
    t.Takes (nodes.getLast?.getD n) (lastHolder t holder nodes) := by
  induction nodes generalizing holder n
  case nil => exact ht
  case cons m rest hi =>
    have : t.Takes m (if t.hasSlot m then m else holder) := by
      split
      case isTrue slot => exact .slot slot
      case isFalse closed =>
        refine .above (by simpa using closed) h.1 ?_
        rcases ht.slot_or_root with slot | rfl
        · exact .slot slot
        · exact .root
    have := hi h.2 this
    rw [List.getLast?_cons]
    exact this

theorem exists_holders (t : PageTree) (holder : Nat) (nodes : List Nat) :
    ∃ outer, holder :: nodes.filter (t.hasSlot ·) = outer ++ [lastHolder t holder nodes] := by
  induction nodes generalizing holder
  case nil => exact ⟨[], rfl⟩
  case cons n rest hi =>
    by_cases slot : t.hasSlot n = true
    · have ⟨outer, ho⟩ := hi n
      exact ⟨holder :: outer, by simp [lastHolder, slot, ho]⟩
    · have ⟨outer, ho⟩ := hi holder
      exact ⟨outer, by simpa [lastHolder, slot] using ho⟩

theorem lastHolder_append (hn : ∀ n ∈ nodes, n < t.size) :
    lastHolder (t.append n f) holder nodes = lastHolder t holder nodes := by
  induction nodes generalizing holder
  case nil => rfl
  case cons m rest hi =>
    have hi {holder} := @hi holder fun n h => hn n (List.mem_cons_of_mem _ h)
    simp only [lastHolder, List.foldl_cons, hasSlot_append_old (hn m List.mem_cons_self)] at hi ⊢
    exact hi

theorem nested_append_iff (hn : ∀ n ∈ nodes, n < t.size) :
    Nested (t.append n f) holder nodes ↔ Nested t holder nodes := by
  induction nodes generalizing holder
  case nil => simp [Nested]
  case cons m rest hi =>
    have hm := hn m List.mem_cons_self
    simp only [Nested, parent?_append_old hm, hasSlot_append_old hm,
      hi fun n h => hn n (List.mem_cons_of_mem _ h)]

-- The open nodes that can hold something are left, innermost first, among the last visits of a walk,
-- when nothing more is entered.
structure Spine (d : Draft) : Prop where
  grown  : d.tree.Grown
  here   : ∀ n ∈ d.opened.inner, n < d.tree.size
  nested : Nested d.tree 0 d.opened.inner
  walk   : ∃ before behind,
    d.tree.Walk [0] (before ++ behind.map leave) ∧
    entered (before ++ behind.map leave) = List.range d.tree.size ∧
    (0 :: d.opened.inner.filter (d.tree.hasSlot ·)).reverse.Sublist behind

namespace Spine

theorem start (title : Text) (page : Snippet) : Spine (start title page) where
  grown  := .root page
  here   := nofun
  nested := trivial
  walk   := ⟨[.enter 0], [0], .node .done .done, rfl, .refl _⟩

theorem enter (s : Spine d) (level : UInt64) : Spine (d.enter level) where
  grown  := s.grown
  here   := fun n h => s.here n (List.mem_of_mem_take h)
  nested := s.nested.take _
  walk   := by
    have ⟨before, behind, w, he, hs⟩ := s.walk
    refine ⟨before, behind, w, he, .trans (List.reverse_sublist.mpr (.cons_cons 0 ?_)) hs⟩
    exact (List.take_sublist _ _).filter _

theorem takes_current (s : Spine d) :
    d.tree.Takes d.opened.current (lastHolder d.tree 0 d.opened.inner) :=
  s.nested.takes .root

theorem current_lt (s : Spine d) : d.opened.current < d.tree.size := by
  rw [OpenNodes.current]
  cases h : d.opened.inner.getLast?
  case none => exact d.tree.size_pos
  case some => exact s.here _ (List.mem_of_getLast? h)

theorem container_current (s : Spine d) :
    d.tree.container d.opened.current = lastHolder d.tree 0 d.opened.inner :=
  s.grown.container_eq s.current_lt s.takes_current

theorem filter_hasSlot_append (s : Spine d) (f : Snippet) :
    (d.opened.inner ++ [d.tree.size]).filter ((d.tree.append n f).hasSlot ·) =
      d.opened.inner.filter (d.tree.hasSlot ·) ++ if f.hasSlot then [d.tree.size] else [] := by
  have : d.opened.inner.filter ((d.tree.append n f).hasSlot ·) =
      d.opened.inner.filter (d.tree.hasSlot ·) :=
    List.filter_congr fun n h => hasSlot_append_old (s.here n h)
  rw [List.filter_append, this]
  cases h : f.hasSlot <;> simp [hasSlot_append_new, h]

-- The node that is put in is entered when all before it has been left but its holder and what that
-- lies in. From the open nodes only these can still take something.
theorem insert (s : Spine d) (f : Snippet) : Spine (d.insert f) where
  grown  := s.grown.append f s.current_lt
  here   := by
    intro n h
    rcases List.mem_append.mp h with h | h
    · exact Nat.lt_of_lt_of_eq (Nat.lt_succ_of_lt (s.here n h)) (size_append ..).symm
    · cases List.mem_singleton.mp h
      simp [Draft.insert]
  nested := by
    rw [tree_insert, inner_insert]
    refine nested_concat.mpr ⟨(nested_append_iff s.here).mpr s.nested, ?_⟩
    rw [lastHolder_append s.here, ← s.container_current]
    exact parent?_append_new ..
  walk   := by
    obtain ⟨before, behind, w, he, hs⟩ := s.walk
    obtain ⟨outer, ho⟩ := exists_holders d.tree 0 d.opened.inner
    rw [ho, List.reverse_append, List.reverse_singleton, List.singleton_append,
      List.cons_sublist_iff] at hs
    obtain ⟨front, rear, rfl, hm, hs⟩ := hs
    obtain ⟨inner, around, rfl⟩ := List.append_of_mem hm
    have hs : outer.reverse.Sublist (around ++ rear) := hs.trans (List.sublist_append_right ..)
    generalize hl : lastHolder d.tree 0 d.opened.inner = holder at *
    -- what happens before the holder is left
    let upto := before ++ inner.map leave
    have split : before ++ (inner ++ holder :: around ++ rear).map leave =
        upto ++ leave holder :: (around ++ rear).map leave := by
      simp [upto]
    rw [split] at w he
    have once := s.grown.left_nodup w
    rw [tree_insert, inner_insert]
    refine ⟨upto ++ [.enter d.tree.size], d.tree.size :: holder :: (around ++ rear), ?_, ?_, ?_⟩
    · have container := s.container_current.trans hl
      simpa using w.append_split (f := f) s.grown.linked (s.grown.container_lt s.current_lt) container once
    · rw [entered_append, entered_leave, entered_map_leave, List.append_nil] at he
      simp [entered_append, he, List.range_succ]
    · have : (0 :: (d.opened.inner.filter (d.tree.hasSlot ·) ++ if f.hasSlot then [d.tree.size]
          else [])).reverse = (if f.hasSlot then [d.tree.size] else []) ++ holder :: outer.reverse := by
        rw [← List.cons_append, ho, List.reverse_append]
        split <;> simp
      rw [s.filter_hasSlot_append, this]
      split
      case isTrue => exact (hs.cons_cons _).cons_cons _
      case isFalse => exact (hs.cons_cons _).cons _

theorem run (title : Text) (page : Snippet) (lines : Steps) : Spine (run title page lines) := by
  induction lines using List.reverseRecOn
  case nil => exact start title page
  case append_singleton lines line hi => exact run_concat .. ▸ (hi.enter line.1).insert line.2

end Spine
end Spine

section Depth

variable {d : Draft} {lines : Steps} {i : Nat}

def levelAt (lines : Steps) (i : Nat) : UInt64 := (lines[i]?.map (·.1)).getD 0

-- How deep each line nests: as its level says, but at most one deeper than the line before it.
def nesting (lines : Steps) : Nat → Nat
  | 0     => 0
  | i + 1 => min (levelAt lines (i + 1)).toNat (nesting lines i + 1)

-- The latest line before the `i`-th that nests at some depth.
structure Latest (lines : Steps) (i depth j : Nat) : Prop where
  before : j < i
  nests  : nesting lines j = depth
  last   : ∀ k, j < k → k < i → nesting lines k ≠ depth

def Countable (lines : Steps) : Prop := ∀ line ∈ lines.tail, line.1 ≠ OpenNodes.lastLevel

theorem Countable.kept_levelAt (c : Countable lines) (i : Nat) :
    OpenNodes.kept (levelAt lines (i + 1)) = (levelAt lines (i + 1)).toNat := by
  refine OpenNodes.kept_of_ne ?_
  rw [levelAt, ← List.getElem?_tail]
  cases h : lines.tail[i]?
  case none => decide
  case some line => exact c line (List.mem_of_getElem? h)

-- Before the `i`-th line the open node at each depth is that of the latest line of that depth.
structure Tracks (lines : Steps) (i : Nat) (d : Draft) : Prop where
  size   : d.tree.size = i + 1
  length : min (OpenNodes.kept (levelAt lines i)) d.opened.inner.length = nesting lines i
  latest : ∀ depth n, d.opened.inner[depth]? = some n → ∃ j, Latest lines i depth j ∧ n = j + 1

namespace Tracks

theorem length_enter (t : Tracks lines i d) :
    (d.enter (levelAt lines i)).opened.inner.length = nesting lines i := by
  rw [Draft.enter, OpenNodes.enter, List.length_take, t.length]

theorem start (title : Text) (page : Snippet) (lines : Steps) : Tracks lines 0 (start title page) where
  size   := rfl
  length := Nat.min_zero _
  latest := by simp [Draft.start]

theorem depth_enter (t : Tracks lines i d) :
    (d.enter (levelAt lines i)).depth = nesting lines i + 1 := by
  rw [Draft.depth_enter, ← t.length]
  rfl

theorem inner_step (t : Tracks lines i d) (f : Snippet) :
    (d.step (levelAt lines i, f)).opened.inner =
      (d.enter (levelAt lines i)).opened.inner ++ [i + 1] :=
  t.size ▸ rfl

theorem step (c : Countable lines) (t : Tracks lines i d) (f : Snippet) :
    Tracks lines (i + 1) (d.step (levelAt lines i, f)) where
  size   := by simp [Draft.step, tree_insert, Draft.enter, t.size]
  length := by
    rw [t.inner_step, List.length_append, t.length_enter, c.kept_levelAt]
    rfl
  latest := by
    intro depth n h
    rw [t.inner_step, List.getElem?_append, t.length_enter] at h
    split at h
    case isTrue hlt =>
      rw [Draft.enter, OpenNodes.enter, List.getElem?_take] at h
      split at h
      case isFalse => cases h
      obtain ⟨j, latest, hn⟩ := t.latest depth n h
      refine ⟨j, ⟨Nat.lt_succ_of_lt latest.before, latest.nests, fun k hj hk => ?_⟩, hn⟩
      by_cases hi : k = i
      · subst hi; omega
      · exact latest.last k hj (by omega)
    case isFalse hge =>
      have hd : depth = nesting lines i := by
        by_contra hne
        rw [List.getElem?_eq_none (by simp; omega)] at h
        cases h
      subst hd
      simp at h
      exact ⟨i, ⟨Nat.lt_succ_self i, rfl, fun k hj hk => by omega⟩, h.symm⟩

end Tracks

theorem take_succ (lines : Steps) (h : i < lines.length) :
    lines.take (i + 1) = lines.take i ++ [(levelAt lines i, lines[i].2)] := by
  have : levelAt lines i = lines[i].1 := by simp [levelAt, h]
  rw [this, List.take_succ_eq_append_getElem h]

theorem Tracks.run (c : Countable lines) (title : Text) (page : Snippet) (h : i ≤ lines.length) :
    Tracks lines i (run title page (lines.take i)) := by
  induction i
  case zero => exact start title page lines
  case succ i hi =>
    rw [take_succ lines h, run_concat]
    exact (hi (Nat.le_of_lt h)).step c _

end Depth

theorem snippets_run (title : Text) (page : Snippet) (lines : Steps) :
    (run title page lines).tree.nodes.map (·.snippet) = page :: lines.map (·.2) := by
  induction lines using List.reverseRecOn
  case nil => rfl
  case append_singleton lines line hi =>
    rw [run_concat, List.map_append, ← List.cons_append, ← hi]
    exact map_snippet_append ..

theorem size_run (title : Text) (page : Snippet) (lines : Steps) :
    (run title page lines).tree.size = lines.length + 1 := by
  simpa [PageTree.size] using congrArg List.length (snippets_run title page lines)

theorem snippet?_run (title : Text) (page : Snippet) (lines : Steps) (n : Nat) :
    (run title page lines).tree.snippet? n = (page :: lines.map (·.2))[n]? := by
  rw [PageTree.snippet?, ← List.getElem?_map, snippets_run]

theorem root_run (title : Text) (page : Snippet) (lines : Steps) :
    (run title page lines).tree.root = page := by
  have := snippet?_run title page lines 0
  rw [snippet?_zero] at this
  exact Option.some.inj this

theorem map_snippet?_run (title : Text) (page : Snippet) (lines : Steps) :
    (List.range (lines.length + 1)).map (run title page lines).tree.snippet? =
      (page :: lines.map (·.2)).map some := by
  rw [← snippets_run title page lines, ← size_run title page lines]
  apply List.ext_getElem
  case hl => simp [PageTree.size]
  case h =>
    intro k _ hk
    have hk : k < (run title page lines).tree.nodes.length := by simpa using hk
    simp [snippet?, hk]

end WikiPages.Draft
