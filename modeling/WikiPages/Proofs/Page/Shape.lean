import WikiPages.Proofs.Page.Nesting

namespace WikiPages

namespace PageTree

variable {t t' : PageTree} {f f' : Snippet}

structure SameShape (t t' : PageTree) : Prop where
  size   : t.size = t'.size
  parent : ∀ n, t.parent? n = t'.parent? n
  slot   : ∀ n, t.hasSlot n = t'.hasSlot n

namespace SameShape

theorem climb (h : t.SameShape t') (steps n : Nat) : t.climb steps n = t'.climb steps n := by
  induction steps generalizing n
  case zero => rfl
  case succ steps hi =>
    rw [PageTree.climb, PageTree.climb, h.slot, h.parent]
    split
    case isTrue => rfl
    case isFalse =>
      cases t'.parent? n
      case none => rfl
      case some parent => exact hi parent

theorem container (h : t.SameShape t') (n : Nat) : t.container n = t'.container n :=
  h.climb n n

theorem append (h : t.SameShape t') (n : Nat) (hf : f.hasSlot = f'.hasSlot) :
    (t.append n f).SameShape (t'.append n f') where
  size   := by rw [size_append, size_append, h.size]
  parent := by
    intro child
    refine Option.ext fun parent => ?_
    rw [parent?_append_eq_some, parent?_append_eq_some, h.parent, h.size, h.container]
  slot   := by
    intro m
    rcases Nat.lt_trichotomy m t.size with old | rfl | beyond
    case inl => rw [hasSlot_append_old old, hasSlot_append_old (h.size ▸ old), h.slot]
    case inr.inl =>
      rw [hasSlot_append_new, h.size, hasSlot_append_new]
      exact hf
    case inr.inr =>
      rw [hasSlot_of_le (size_append t n f ▸ beyond), hasSlot_of_le (size_append t' n f' ▸ h.size ▸ beyond)]

end SameShape
end PageTree

namespace Draft

variable {d d' : Draft} {f f' : Snippet}

structure Alike (d d' : Draft) : Prop where
  title  : d.title = d'.title
  opened : d.opened = d'.opened
  shape  : d.tree.SameShape d'.tree

theorem Alike.step (h : d.Alike d') (level : UInt64) (hf : f.hasSlot = f'.hasSlot) :
    (d.step (level, f)).Alike (d'.step (level, f')) where
  title  := h.title
  opened := by simp only [Draft.step, Draft.insert, Draft.enter, h.opened, h.shape.size]
  shape  := by
    simp only [Draft.step, Draft.insert, Draft.enter, h.opened]
    exact h.shape.append _ hf

end Draft
end WikiPages
