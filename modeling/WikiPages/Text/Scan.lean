import WikiPages.Text.Basic

namespace WikiPages.Text

-- What a pattern finds at the start of a text, and the number of characters it takes.
abbrev Pattern (α : Type) := Text → Option (α × Nat)

inductive Piece (α : Type) where
  | char (c : Char)
  | found (a : α)

namespace Piece

def found? : Piece α → Option α
  | char _ => none
  | found a => some a

end Piece

namespace Pattern

variable {α β : Type}

def exactly (p : Text) : Pattern Unit := fun s =>
  (p.isPrefixOf? s).map fun _ => ((), p.length)

def ofReader (read : Text → Option (α × Text)) : Pattern α := fun s =>
  (read s).map fun (a, rest) => (a, s.length - rest.length)

def cut (m : Pattern α) (s : Text) : List (Piece α) := go 0 s
where
  -- The pieces after the first `taken` characters.
  go : Nat → Text → List (Piece α)
    | _, [] => []
    | taken + 1, _ :: s => go taken s
    | 0, c :: s =>
      match m (c :: s) with
      -- the first character of the find is taken here, the others are skipped
      | some (a, width) => .found a :: go (width - 1) s
      | none => .char c :: go 0 s

theorem cut.go_append (m : Pattern α) (taken s : Text) :
    cut.go m taken.length (taken ++ s) = cut.go m 0 s := by
  induction taken
  case nil => rfl
  case cons c taken hi => simpa [cut.go] using hi

@[simp] theorem cut_nil (m : Pattern α) : cut m [] = [] := rfl

theorem cut_of_hit {m : Pattern α} {taken s : Text} {a : α} (hne : taken ≠ [])
    (h : m (taken ++ s) = some (a, taken.length)) : cut m (taken ++ s) = .found a :: cut m s := by
  cases taken
  case nil => exact absurd rfl hne
  case cons c taken =>
    simp only [List.cons_append] at h
    simp only [cut, List.cons_append, cut.go, h, List.length_cons, Nat.add_sub_cancel]
    rw [cut.go_append]

theorem cut_of_miss {m : Pattern α} {c : Char} {s : Text} (h : m (c :: s) = none) :
    cut m (c :: s) = .char c :: cut m s := by
  simp only [cut, cut.go, h]

def finds (m : Pattern α) (s : Text) : List α := (m.cut s).filterMap Piece.found?

def replace (m : Pattern α) (f : α → Text) (s : Text) : Text :=
  (m.cut s).flatMap fun
    | .char c => [c]
    | .found a => f a

def whole? (m : Pattern α) (s : Text) : Option (List α) := (m.cut s).mapM Piece.found?

@[simp] theorem replace_nil (m : Pattern α) (f : α → Text) : m.replace f [] = [] := rfl

theorem replace_of_hit {m : Pattern α} {f : α → Text} {taken s : Text} {a : α} (hne : taken ≠ [])
    (h : m (taken ++ s) = some (a, taken.length)) :
    m.replace f (taken ++ s) = f a ++ m.replace f s := by
  simp [replace, cut_of_hit hne h]

theorem replace_of_miss {m : Pattern α} {f : α → Text} {c : Char} {s : Text}
    (h : m (c :: s) = none) : m.replace f (c :: s) = c :: m.replace f s := by
  simp [replace, cut_of_miss h]

end Pattern

def replaceAll (old new s : Text) : Text := (Pattern.exactly old).replace (fun _ => new) s

@[simp] theorem replaceAll_nil (old new : Text) : replaceAll old new [] = [] := rfl

theorem replaceAll_append {old : Text} (hne : old ≠ []) (new s : Text) :
    replaceAll old new (old ++ s) = new ++ replaceAll old new s :=
  Pattern.replace_of_hit (a := ()) hne (by simp [Pattern.exactly])

theorem replaceAll_cons {old : Text} {c : Char} {s : Text} (new : Text)
    (h : old.isPrefixOf? (c :: s) = none) :
    replaceAll old new (c :: s) = c :: replaceAll old new s :=
  Pattern.replace_of_miss (by simp [Pattern.exactly, h])

end WikiPages.Text
