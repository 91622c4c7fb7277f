import WikiPages.Text.Basic

namespace WikiPages.Text

def cr : Char := '\r'

def lf : Char := '\n'

def lineBreak : Text := [lf]

def lines : Text → List Text
  | [] => [[]]
  | '\r' :: '\n' :: s => [] :: lines s
  | c :: s =>
    if c = cr ∨ c = lf then [] :: lines s
    else
      match lines s with
      | [] => [[c]]
      | line :: rest => (c :: line) :: rest

theorem lines_ne_nil (s : Text) : lines s ≠ [] := by
  fun_induction lines s <;> simp

theorem lines_free (s : Text) : ∀ line ∈ lines s, cr ∉ line ∧ lf ∉ line := by
  fun_induction lines s
  case case1 => simp
  case case2 hi => simpa using hi
  case case3 hi => simpa using hi
  case case4 s _ _ hs _ => exact absurd hs (lines_ne_nil s)
  case case5 c s _ h line rest hs hi =>
    rw [hs] at hi
    intro l hl
    rcases List.mem_cons.1 hl with rfl | hl
    · have := hi line (by simp)
      simp only [List.mem_cons, not_or]
      exact ⟨⟨fun e => h (.inl e.symm), this.1⟩, fun e => h (.inr e.symm), this.2⟩
    · exact hi l (by simp [hl])

def dropFinalBreak (s : Text) : Text :=
  match s.reverse with
  | '\n' :: '\r' :: rest => rest.reverse
  | '\n' :: rest => rest.reverse
  | '\r' :: rest => rest.reverse
  | _ => s

@[simp] theorem dropFinalBreak_nil : dropFinalBreak [] = [] := rfl

end WikiPages.Text
