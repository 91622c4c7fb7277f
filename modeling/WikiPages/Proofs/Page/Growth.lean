import WikiPages.Page.Tree

namespace WikiPages.PageTree

-- The trees that come from putting snippets, one after the other, into nodes that are there.
inductive Grown : PageTree → Prop
  | root (page : Snippet) : Grown (.ofRoot page)
  | append {t : PageTree} {node : Nat} (f : Snippet) (grown : Grown t) (here : node < t.size) :
    Grown (t.append node f)

-- The node that takes what is put into a node: the node itself if it has a slot or is the root, and
-- otherwise the one that takes what is put into its parent.
inductive Takes (t : PageTree) : Nat → Nat → Prop
  | root : Takes t 0 0
  | slot {node : Nat} (slot : t.hasSlot node = true) : Takes t node node
  | above {node parent taker : Nat} (closed : t.hasSlot node = false)
    (inside : t.parent? node = some parent) (takes : Takes t parent taker) : Takes t node taker

variable {t : PageTree} {node child parent taker : Nat} {f : Snippet}

theorem lt_size_of_parent (h : t.parent? child = some parent) : child < t.size := by
  obtain ⟨_, here, _⟩ := Option.bind_eq_some_iff.mp h
  exact (List.getElem?_eq_some_iff.mp here).1

theorem size_pos (t : PageTree) : 0 < t.size := List.length_pos_iff.mpr t.filled

theorem parent?_of_le (h : t.size ≤ child) : t.parent? child = none := by
  rw [parent?, List.getElem?_eq_none h]
  rfl

theorem children_of_le (h : t.size ≤ node) : t.children node = [] := by
  rw [children, List.getElem?_eq_none h]
  rfl

theorem hasSlot_of_le (h : t.size ≤ node) : t.hasSlot node = false := by
  rw [hasSlot, snippet?, List.getElem?_eq_none h]
  rfl

theorem lt_size_of_mem_children (h : child ∈ t.children node) : node < t.size := by
  rcases Nat.lt_or_ge node t.size with here | beyond
  · exact here
  · rw [children_of_le beyond] at h
    cases h

theorem hasSlot_append_old (h : child < t.size) :
    (t.append node f).hasSlot child = t.hasSlot child := by
  simp [hasSlot, snippet?_append_old h]

theorem hasSlot_append_new : (t.append node f).hasSlot t.size = f.hasSlot := by
  simp [hasSlot, snippet?_append_new]

theorem parent?_ofRoot (page : Snippet) (child : Nat) : (ofRoot page).parent? child = none := by
  cases child <;> rfl

theorem children_ofRoot (page : Snippet) (node : Nat) : (ofRoot page).children node = [] := by
  cases node <;> rfl

theorem snippet?_zero (t : PageTree) : t.snippet? 0 = some t.root := by
  rw [snippet?, root, List.head_eq_getElem, List.getElem?_eq_getElem, Option.map_some]

theorem map_snippet_append (t : PageTree) (node : Nat) (f : Snippet) :
    (t.append node f).nodes.map (·.snippet) = t.nodes.map (·.snippet) ++ [f] := by
  have kept (n : Nat) : (PageNode.snippet ∘ fun a : PageNode =>
      if t.container node = n then { a with children := a.children ++ [t.size] } else a) = PageNode.snippet := by
    funext a
    dsimp only [Function.comp]
    split <;> rfl
  refine List.ext_getElem? fun n => ?_
  rw [append, List.getElem?_map, List.getElem?_modify, Option.map_eq_map, Option.map_map, kept, ← List.getElem?_map,
    List.map_append]
  rfl

theorem parent?_append_eq_some :
    (t.append node f).parent? child = some parent ↔
      t.parent? child = some parent ∨ child = t.size ∧ t.container node = parent := by
  rcases Nat.lt_trichotomy child t.size with old | rfl | beyond
  case inl => simp [parent?_append_old old, Nat.ne_of_lt old]
  case inr.inl => simp [parent?_append_new, parent?_of_le (Nat.le_refl t.size)]
  case inr.inr =>
    have none : (t.append node f).parent? child = none := parent?_of_le (size_append t node f ▸ beyond)
    simp [none, parent?_of_le (Nat.le_of_lt beyond), Nat.ne_of_gt beyond]

theorem mem_children_append (here : t.container node < t.size) :
    child ∈ (t.append node f).children parent ↔
      child ∈ t.children parent ∨ child = t.size ∧ t.container node = parent := by
  rcases Nat.lt_or_ge parent t.size with old | beyond
  case inl =>
    rw [children_append_old old, List.mem_append]
    split <;> simp [*]
  case inr =>
    have none : (t.append node f).children parent = [] := by
      rcases Nat.lt_or_eq_of_le beyond with beyond | rfl
      · exact children_of_le (size_append t node f ▸ beyond)
      · exact children_append_new here
    simp [none, children_of_le beyond, Nat.ne_of_lt (Nat.lt_of_lt_of_le here beyond)]

-- What the nodes say of their children is what those say of their parents, and only the root has none.
structure Linked (t : PageTree) : Prop where
  mem_children : ∀ {child node}, child ∈ t.children node ↔ t.parent? child = some node
  ascending    : ∀ node, (t.children node).Pairwise (· < ·)
  top          : t.parent? 0 = none
  inside       : ∀ {child}, 0 < child → child < t.size → ∃ parent, t.parent? child = some parent

theorem linked_ofRoot (page : Snippet) : (ofRoot page).Linked where
  mem_children := by
    intro child node
    rw [children_ofRoot, parent?_ofRoot]
    exact iff_of_false List.not_mem_nil nofun
  ascending    := fun node => children_ofRoot page node ▸ .nil
  top          := rfl
  inside       := fun hpos h => absurd h (Nat.not_lt.mpr hpos)

namespace Linked

theorem parent_lt_size (l : t.Linked) (h : t.parent? child = some parent) : parent < t.size :=
  lt_size_of_mem_children (l.mem_children.mpr h)

theorem child_lt_size (l : t.Linked) (h : child ∈ t.children node) : child < t.size :=
  lt_size_of_parent (l.mem_children.mp h)

theorem append (l : t.Linked) (here : t.container node < t.size) : (t.append node f).Linked where
  mem_children := by
    intro child outer
    rw [mem_children_append here, parent?_append_eq_some, l.mem_children]
  ascending    := by
    intro outer
    rcases Nat.lt_or_ge outer t.size with old | beyond
    case inl =>
      rw [children_append_old old]
      refine List.pairwise_append.mpr ⟨l.ascending outer, by split <;> simp, fun child hc new hn => ?_⟩
      have : new = t.size := by
        split at hn <;> simp_all
      exact this ▸ l.child_lt_size hc
    case inr =>
      have none : (t.append node f).children outer = [] := by
        refine List.eq_nil_iff_forall_not_mem.mpr fun child hc => ?_
        rw [mem_children_append here, children_of_le beyond] at hc
        rcases hc with hc | ⟨_, rfl⟩
        · cases hc
        · exact Nat.not_lt.mpr beyond here
      exact none ▸ .nil
  top          := (parent?_append_old (Nat.lt_of_le_of_lt (Nat.zero_le _) here)).trans l.top
  inside       := by
    intro child hpos h
    rw [size_append] at h
    rcases Nat.lt_or_eq_of_le (Nat.le_of_lt_succ h) with h | rfl
    · exact parent?_append_old h ▸ l.inside hpos h
    · exact ⟨_, parent?_append_new ..⟩

end Linked

theorem Takes.unique (l : t.Linked) (h₁ : t.Takes node taker) (h₂ : t.Takes node child) : taker = child := by
  induction h₁ generalizing child
  case root =>
    cases h₂
    case root => rfl
    case slot => rfl
    case above h _ => cases l.top.symm.trans h
  case slot hs =>
    cases h₂
    case root => rfl
    case slot => rfl
    case above hn _ _ => simp [hs] at hn
  case above hn hp _ hi =>
    cases h₂
    case root => cases l.top.symm.trans hp
    case slot hs => simp [hn] at hs
    case above hp' h =>
      cases hp.symm.trans hp'
      exact hi h

theorem Takes.slot_or_root (h : t.Takes node taker) : t.hasSlot taker = true ∨ taker = 0 := by
  induction h
  case root => exact .inr rfl
  case slot hs => exact .inl hs
  case above hi => exact hi

def Ordered (t : PageTree) : Prop :=
  ∀ ⦃child parent⦄, t.parent? child = some parent → parent < child

theorem Takes.le (ho : t.Ordered) (h : t.Takes node taker) : taker ≤ node := by
  induction h
  case root | slot => exact Nat.le_refl _
  case above inside _ hi => exact Nat.le_trans hi (Nat.le_of_lt (ho inside))

theorem Linked.takes_climb (l : t.Linked) (ho : t.Ordered) (steps : Nat) :
    ∀ node, node ≤ steps → node < t.size → t.Takes node (t.climb steps node) := by
  induction steps
  case zero =>
    intro node hn _
    cases Nat.le_zero.mp hn
    exact .root
  case succ steps hi =>
    intro node hn hs
    rw [climb]
    split
    · exact .slot ‹_›
    · split
      case _ closed _ parent inside =>
        have := ho inside
        exact .above (by simpa using closed) inside (hi parent (by omega) (by omega))
      case _ top =>
        cases node
        case zero => exact .root
        case succ =>
          have ⟨_, inside⟩ := l.inside (Nat.succ_pos _) hs
          simp [inside] at top

theorem Linked.takes_container (l : t.Linked) (ho : t.Ordered) (h : node < t.size) :
    t.Takes node (t.container node) :=
  l.takes_climb ho node node (Nat.le_refl _) h

theorem Linked.container_lt (l : t.Linked) (ho : t.Ordered) (h : node < t.size) : t.container node < t.size :=
  Nat.lt_of_le_of_lt ((l.takes_container ho h).le ho) h

theorem Ordered.append (ho : t.Ordered) (l : t.Linked) (here : node < t.size) : (t.append node f).Ordered := by
  intro child parent h
  rcases parent?_append_eq_some.mp h with h | ⟨rfl, rfl⟩
  · exact ho h
  · exact l.container_lt ho here

def Slotted (t : PageTree) : Prop :=
  ∀ ⦃child parent⦄, t.parent? child = some parent → t.hasSlot parent = true ∨ parent = 0

theorem Slotted.append (hs : t.Slotted) (l : t.Linked) (ho : t.Ordered) (here : node < t.size) :
    (t.append node f).Slotted := by
  intro child parent h
  rcases parent?_append_eq_some.mp h with h | ⟨rfl, rfl⟩
  · exact hasSlot_append_old (l.parent_lt_size h) ▸ hs h
  · exact hasSlot_append_old (l.container_lt ho here) ▸ (l.takes_container ho here).slot_or_root

namespace Grown

theorem linked_ordered (g : Grown t) : t.Linked ∧ t.Ordered := by
  induction g
  case root page => exact ⟨linked_ofRoot page, fun child _ h => nomatch (parent?_ofRoot page child).symm.trans h⟩
  case append here hi =>
    have ⟨linked, ordered⟩ := hi
    exact ⟨linked.append (linked.container_lt ordered here), ordered.append linked here⟩

theorem linked (g : Grown t) : t.Linked := g.linked_ordered.1

theorem ordered (g : Grown t) : t.Ordered := g.linked_ordered.2

theorem takes_container (g : Grown t) (h : node < t.size) : t.Takes node (t.container node) :=
  g.linked.takes_container g.ordered h

theorem container_lt (g : Grown t) (h : node < t.size) : t.container node < t.size :=
  g.linked.container_lt g.ordered h

theorem container_eq (g : Grown t) (h : node < t.size) (ht : t.Takes node taker) :
    t.container node = taker :=
  (g.takes_container h).unique g.linked ht

theorem slotted (g : Grown t) : t.Slotted := by
  induction g
  case root page => exact fun child _ h => nomatch (parent?_ofRoot page child).symm.trans h
  case append g here hi => exact hi.append g.linked g.ordered here

end Grown
end WikiPages.PageTree
