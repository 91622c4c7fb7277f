import Mathlib.Data.List.Perm.Basic
import Mathlib.Data.List.Nodup
import Mathlib.Data.List.Range
import Mathlib.Logic.Relation
import WikiPages.Proofs.Page.Growth

namespace WikiPages.PageTree

inductive Visit where
  | enter (node : Nat)
  | leave (node : Nat)
  deriving DecidableEq

namespace Visit

def entered : List Visit → List Nat :=
  List.filterMap fun | enter node => some node | leave _ => none

def left : List Visit → List Nat :=
  List.filterMap fun | enter _ => none | leave node => some node

theorem mem_left {node : Nat} {visits : List Visit} : node ∈ left visits ↔ leave node ∈ visits := by
  simp only [left, List.mem_filterMap]
  constructor
  · rintro ⟨visit, hv, h⟩
    cases visit <;> simp at h
    exact h ▸ hv
  · exact fun h => ⟨_, h, rfl⟩

variable {node : Nat} {visits visits' : List Visit}

@[simp]
theorem entered_enter : entered (enter node :: visits) = node :: entered visits := rfl

@[simp]
theorem entered_leave : entered (leave node :: visits) = entered visits := rfl

@[simp]
theorem entered_append : entered (visits ++ visits') = entered visits ++ entered visits' :=
  List.filterMap_append ..

@[simp]
theorem entered_map_leave (nodes : List Nat) : entered (nodes.map leave) = [] := by
  induction nodes <;> simp_all [entered]

@[simp]
theorem left_enter : left (enter node :: visits) = left visits := rfl

@[simp]
theorem left_leave : left (leave node :: visits) = node :: left visits := rfl

@[simp]
theorem left_append : left (visits ++ visits') = left visits ++ left visits' :=
  List.filterMap_append ..

def grow (holder new : Nat) : Visit → List Visit
  | enter node => [enter node]
  | leave node => if node = holder then [enter new, leave new, leave node] else [leave node]

theorem flatMap_grow_of_not_mem {holder new : Nat} (h : holder ∉ left visits) :
    visits.flatMap (grow holder new) = visits := by
  induction visits
  case nil => rfl
  case cons visit visits hi =>
    cases visit
    case enter => simp_all [grow]
    case leave node =>
      simp only [left_leave, List.mem_cons, not_or] at h
      simp [grow, Ne.symm h.1, hi h.2]

end Visit

open Visit

inductive Walk (t : PageTree) : List Nat → List Visit → Prop
  | done : Walk t [] []
  | node {node : Nat} {rest : List Nat} {inner after : List Visit} :
    Walk t (t.children node) inner → Walk t rest after →
      Walk t (node :: rest) (enter node :: inner ++ leave node :: after)

variable {t : PageTree} {n child : Nat} {f : Snippet} {nodes : List Nat} {visits : List Visit}

namespace Walk

theorem append {nodes' : List Nat} {visits' : List Visit} (w : Walk t nodes visits)
    (w' : Walk t nodes' visits') : Walk t (nodes ++ nodes') (visits ++ visits') := by
  induction w
  case done => exact w'
  case node inner _ _ hi => simpa using node inner hi

theorem unique {visits' : List Visit} (w : Walk t nodes visits) (w' : Walk t nodes visits') :
    visits = visits' := by
  induction w generalizing visits'
  case done => cases w'; rfl
  case node hi hi' =>
    cases w'
    case node inner after => rw [hi inner, hi' after]

theorem grow (l : t.Linked) (here : t.container n < t.size) (w : Walk t nodes visits)
    (hn : ∀ n ∈ nodes, n < t.size) :
    Walk (t.append n f) nodes (visits.flatMap (Visit.grow (t.container n) t.size)) := by
  have single : Walk (t.append n f) [t.size] [enter t.size, leave t.size] := by
    have := children_append_new (f := f) here
    exact node (this ▸ done) done
  induction w
  case done => exact done
  case node m rest inner after _ _ hi hi' =>
    have hi := hi fun _ => l.child_lt_size
    have hi' := hi' fun k h => hn k (List.mem_cons_of_mem _ h)
    simp only [List.cons_append, List.flatMap_cons, List.flatMap_append, Visit.grow,
      List.nil_append]
    have hc := @children_append_old t n m f (hn m List.mem_cons_self)
    by_cases h : t.container n = m
    · rw [if_pos h] at hc
      rw [if_pos h.symm]
      have := node (hc ▸ hi.append single) hi'
      simpa using this
    · rw [if_neg h, List.append_nil] at hc
      rw [if_neg (Ne.symm h)]
      exact node (hc ▸ hi) hi'

theorem append_split {before after : List Visit} {holder : Nat} (l : t.Linked)
    (here : t.container n < t.size) (h : t.container n = holder)
    (w : Walk t [0] (before ++ leave holder :: after))
    (once : (left (before ++ leave holder :: after)).Nodup) :
    Walk (t.append n f) [0]
      (before ++ enter t.size :: leave t.size :: leave holder :: after) := by
  have w := w.grow (f := f) l here (by simpa using Nat.zero_lt_of_lt here)
  rw [left_append, left_leave] at once
  have once := List.nodup_cons.mp (List.nodup_middle.mp once) |>.1
  rw [List.mem_append, not_or] at once
  rw [List.flatMap_append, List.flatMap_cons, h, flatMap_grow_of_not_mem once.1,
    flatMap_grow_of_not_mem once.2] at w
  simpa [Visit.grow] using w

end Walk

def Under (t : PageTree) : Nat → Nat → Prop :=
  Relation.TransGen fun outer inner => t.parent? inner = some outer

theorem Grown.exists_walk (g : Grown t) :
    ∃ visits, Walk t [0] visits ∧ (entered visits).Perm (List.range t.size) ∧
      (left visits).Perm (List.range t.size) := by
  induction g
  case root page => exact ⟨_, .node .done .done, .refl _, .refl _⟩
  case append t n f g here hi =>
    obtain ⟨visits, w, he, hl⟩ := hi
    have : leave (t.container n) ∈ visits :=
      mem_left.mp <| hl.mem_iff.mpr <| List.mem_range.mpr <| g.container_lt here
    obtain ⟨before, after, rfl⟩ := List.append_of_mem this
    refine ⟨_, w.append_split g.linked (g.container_lt here) rfl (hl.nodup_iff.mpr List.nodup_range), ?_, ?_⟩
    all_goals
      simp only [entered_append, entered_enter, entered_leave, left_append, left_enter,
        left_leave, size_append, List.range_succ] at he hl ⊢
      exact List.perm_middle.trans (.cons _ ‹_›) |>.trans (List.perm_append_singleton ..).symm

theorem Grown.left_nodup (g : Grown t) (w : t.Walk [0] visits) : (left visits).Nodup := by
  have ⟨_, w', _, hl⟩ := g.exists_walk
  exact w.unique w' ▸ hl.nodup_iff.mpr List.nodup_range

end WikiPages.PageTree
