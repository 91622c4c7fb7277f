import WikiPages.Proofs.Page.Rendering

namespace WikiPages.PageTree

open Visit Relation

-- How the nodes of a tree lie in each other.
structure WellFormed (t : PageTree) : Prop where
  -- Only the root lies in no node.
  top       : ∀ n < t.size, t.parent? n = none ↔ n = 0
  ordered   : t.Ordered
  slotted   : t.Slotted
  within    : ∀ ⦃n parent⦄, n ∈ t.children parent ↔ t.parent? n = some parent
  ascending : ∀ n, (t.children n).Pairwise (· < ·)
  -- The child lists together hold each node but the root, and hold it once.
  once      : ((List.range t.size).flatMap t.children).Perm (List.range' 1 (t.size - 1))

-- The nearest node that can hold something, from a node upwards.
structure Nearest (t : PageTree) (n holder : Nat) : Prop where
  around  : holder = n ∨ t.Under holder n
  able    : t.hasSlot holder = true ∨ holder = 0
  nearest : ∀ outer, outer = n ∨ t.Under outer n → t.hasSlot outer = true →
    outer = holder ∨ t.Under outer holder

variable {t : PageTree} {node n : Nat} {f : Snippet}

section Growing

theorem Linked.parent?_eq_none_iff (l : t.Linked) (h : n < t.size) : t.parent? n = none ↔ n = 0 where
  mp hp := by
    by_contra hn
    have ⟨_, inside⟩ := l.inside (Nat.pos_of_ne_zero hn) h
    cases hp.symm.trans inside
  mpr hn := hn ▸ l.top

theorem Linked.perm_children (l : t.Linked) (ho : t.Ordered) :
    ((List.range t.size).flatMap t.children).Perm (List.range' 1 (t.size - 1)) := by
  have distinct : ((List.range t.size).flatMap t.children).Nodup := by
    refine List.nodup_flatMap.mpr ⟨fun n _ => (l.ascending n).imp Nat.ne_of_lt, ?_⟩
    refine List.nodup_range.imp fun hne child h h' => hne ?_
    exact Option.some.inj ((l.mem_children.mp h).symm.trans (l.mem_children.mp h'))
  refine (List.perm_ext_iff_of_nodup distinct List.nodup_range').mpr fun n => ?_
  rw [List.mem_flatMap, List.mem_range'_1]
  constructor
  case mp =>
    rintro ⟨parent, _, h⟩
    have := ho (l.mem_children.mp h)
    have := l.child_lt_size h
    omega
  case mpr =>
    rintro ⟨hpos, h⟩
    have ⟨parent, hp⟩ := l.inside hpos (by omega)
    exact ⟨parent, List.mem_range.mpr (l.parent_lt_size hp), l.mem_children.mpr hp⟩

namespace WellFormed

theorem of_linked (l : t.Linked) (ho : t.Ordered) (hs : t.Slotted) : t.WellFormed where
  top       := fun _ => l.parent?_eq_none_iff
  ordered   := ho
  slotted   := hs
  within    := fun _ _ => l.mem_children
  ascending := l.ascending
  once      := l.perm_children ho

theorem linked (w : t.WellFormed) : t.Linked where
  mem_children := fun {child node} => @WellFormed.within t w child node
  ascending    := w.ascending
  top          := (w.top 0 t.size_pos).mpr rfl
  inside       := fun hpos h => Option.ne_none_iff_exists'.mp fun hp => Nat.ne_of_gt hpos ((w.top _ h).mp hp)

theorem root (page : Snippet) : WellFormed (.ofRoot page) :=
  .of_linked (Grown.root page).linked (Grown.root page).ordered (Grown.root page).slotted

theorem append (w : t.WellFormed) (f : Snippet) (here : node < t.size) : (t.append node f).WellFormed := by
  have l := w.linked
  exact .of_linked (l.append (l.container_lt w.ordered here)) (w.ordered.append l here) (w.slotted.append l w.ordered here)

end WellFormed

theorem Grown.wellFormed (g : Grown t) : t.WellFormed := by
  induction g
  case root page => exact .root page
  case append f _ here hi => exact hi.append f here

end Growing

section Holding

theorem Linked.climb_of_able (l : t.Linked) (h : t.hasSlot n = true ∨ n = 0) (steps : Nat) :
    t.climb steps n = n := by
  cases steps
  case zero => rfl
  case succ =>
    rw [climb]
    rcases h with slot | rfl
    case inl => rw [if_pos slot]
    case inr =>
      rw [l.top]
      split <;> rfl

namespace WellFormed

theorem climb_succ (w : t.WellFormed) (n steps : Nat) :
    t.climb (steps + 1) n = if t.hasSlot n then n else (t.parent? n).getD n := by
  rw [climb]
  split
  case isTrue => rfl
  case isFalse =>
    cases hp : t.parent? n
    case none => rfl
    case some parent => exact w.linked.climb_of_able (w.slotted hp) steps

theorem container_eq (w : t.WellFormed) (n : Nat) :
    t.container n = if t.hasSlot n then n else (t.parent? n).getD n := by
  cases n
  case zero =>
    rw [w.linked.top]
    exact (ite_self 0).symm
  case succ n => exact w.climb_succ (n + 1) n

theorem nearest_container (w : t.WellFormed) (h : n < t.size) : t.Nearest n (t.container n) := by
  rw [w.container_eq]
  split
  case isTrue slot => exact ⟨.inl rfl, .inl slot, fun _ around _ => around⟩
  case isFalse closed =>
    cases hp : t.parent? n
    case none => exact ⟨.inl rfl, .inr ((w.top n h).mp hp), fun _ around _ => around⟩
    case some parent =>
      refine ⟨.inr (.single hp), w.slotted hp, fun outer around slot => ?_⟩
      rcases around with rfl | around
      · exact absurd slot closed
      · have ⟨between, further, inside⟩ := TransGen.tail'_iff.mp around
        cases hp.symm.trans inside
        exact (reflTransGen_iff_eq_or_transGen.mp further).imp_left Eq.symm

end WellFormed
end Holding

-- In a tree as they grow all but the root lie in an earlier node, which has a slot or is the root, and each is in one
-- child list, once. So climbing ends after one step up at the latest, at the nearest node that can hold something, and
-- writing goes through the tree from the root, enters and leaves each node once, and is not cut short by its depth.
theorem wellFormed_and_walked_once (g : Grown t) :
    t.WellFormed ∧
    (∀ n < t.size,
      (t.container n = n ∨ t.parent? n = some (t.container n)) ∧
      (∀ steps, 0 < steps → t.climb steps n = t.container n) ∧ t.Nearest n (t.container n)) ∧
    ∃ visits, t.Walk [0] visits ∧ (∀ other, t.Walk [0] other → other = visits) ∧
      (entered visits).Perm (List.range t.size) ∧ (left visits).Perm (List.range t.size) ∧
      t.render = Mark.erase (visits.flatMap t.marks) ∧
      ∀ depth, t.size ≤ depth → (t.write depth 0 []).reverse = t.render := by
  have w := g.wellFormed
  refine ⟨w, fun n h => ⟨?_, fun steps hs => ?_, w.nearest_container h⟩, ?_⟩
  · rw [w.container_eq]
    split
    case isTrue => exact .inl rfl
    case isFalse =>
      cases t.parent? n
      case none => exact .inl rfl
      case some => exact .inr rfl
  · obtain ⟨steps, rfl⟩ := Nat.exists_eq_succ_of_ne_zero (Nat.pos_iff_ne_zero.mp hs)
    rw [w.climb_succ, w.container_eq]
  · have ⟨visits, walk, he, hl⟩ := g.exists_walk
    have render := g.render_eq_erase_of_walk walk
    refine ⟨visits, walk, fun other walk' => walk'.unique walk, he, hl, render, fun depth hd => ?_⟩
    rw [render, g.linked.write_eq_erase_of_walk g.ordered walk hd]

-- What is put into a node without a slot lies beside it, unless that is the root.
def redirected : PageTree :=
  ((((ofRoot (.leaf (Text.lit "<a>"))).append 0 (.withSlot (Text.lit "<b>") (Text.lit "</b>"))).append 1
    (.leaf (Text.lit "<c>"))).append 2 (.leaf (Text.lit "<d>"))).append 0 (.leaf (Text.lit "<e>"))

theorem wellFormed_redirected :
    redirected.Grown ∧ redirected.WellFormed ∧ redirected.children 0 = [1, 4] ∧ redirected.children 1 = [2, 3] ∧
      redirected.Nearest 3 1 ∧ redirected.render = Text.lit "<a><b><c><d></b><e>" := by
  have grown : redirected.Grown :=
    ((((Grown.root _).append _ (by decide)).append _ (by decide)).append _ (by decide)).append _ (by decide)
  have ⟨w, held, _⟩ := wellFormed_and_walked_once grown
  have ⟨_, _, nearest⟩ := held 3 (by decide)
  exact ⟨grown, w, by decide, by decide, nearest, by decide⟩

end WikiPages.PageTree
