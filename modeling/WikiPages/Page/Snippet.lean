import WikiPages.Template.Hole

namespace WikiPages

open Text

structure Snippet where
  -- The text in front of the slot, or all of it.
  head : Text
  -- The text behind the slot; none if there is no slot.
  tail : Option Text := none
  deriving DecidableEq

namespace Snippet

def leaf (s : Text) : Snippet := ⟨s, none⟩

def withSlot (head tail : Text) : Snippet := ⟨head, some tail⟩

def ofTemplate (s : Text) : Snippet :=
  match splitOnce? Hole.content s with
  | some (head, tail) => withSlot head tail
  | none => leaf s

def hasSlot (f : Snippet) : Bool := f.tail.isSome

def push (f : Snippet) (s : Text) : Snippet :=
  match f.tail with
  | some tail => { f with tail := some (tail ++ s) }
  | none => { f with head := f.head ++ s }

def pushBeforeSlot (f : Snippet) (s : Text) : Snippet := { f with head := f.head ++ s }

def map (change : Text → Text) (f : Snippet) : Snippet := ⟨change f.head, f.tail.map change⟩

def text (f : Snippet) : Text := f.head ++ f.tail.getD []

@[simp] theorem hasSlot_leaf (s : Text) : (leaf s).hasSlot = false := rfl

@[simp] theorem hasSlot_withSlot (head tail : Text) : (withSlot head tail).hasSlot = true := rfl

@[simp]
theorem hasSlot_push (f : Snippet) (s : Text) : (f.push s).hasSlot = f.hasSlot := by
  unfold push hasSlot
  split <;> simp_all

@[simp]
theorem hasSlot_map (change : Text → Text) (f : Snippet) :
    (f.map change).hasSlot = f.hasSlot := by
  simp [hasSlot, map]

theorem ofTemplate_eq_withSlot {s head tail : Text}
    (h : splitOnce? Hole.content s = some (head, tail)) :
    ofTemplate s = withSlot head tail ∧ s = head ++ Hole.content ++ tail :=
  ⟨by simp [ofTemplate, h], splitOnce?_eq_some h⟩

end Snippet
end WikiPages
