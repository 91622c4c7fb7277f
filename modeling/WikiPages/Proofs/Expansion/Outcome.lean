import Mathlib.Data.List.Forall2
import WikiPages.Expansion

namespace WikiPages.Expander

variable {α β γ δ : Type} {R : α → β → Prop} {S : γ → δ → Prop}
variable {x : Expansion α} {y : Expansion β}

theorem run_bind (x : Expansion α) (f : α → Expansion β) (l : Ledger) :
    (x >>= f).run.run l =
      match x.run.run l with
      | (.ok a, l)        => (f a).run.run l
      | (.error fault, l) => (.error fault, l) := by
  rw [ExceptT.run_bind, StateT.run_bind]
  rcases x.run.run l with ⟨_ | _, _⟩ <;> rfl

-- The two ways in which two runs agree. What they succeed with is related.
inductive AgreeAt (R : α → β → Prop) : Except Fault α × Ledger → Except Fault β × Ledger → Prop
  | ok {a b l} : R a b → AgreeAt R (.ok a, l) (.ok b, l)
  | error {fault l} : AgreeAt R (.error fault, l) (.error fault, l)

def Agree (R : α → β → Prop) (x : Expansion α) (y : Expansion β) : Prop :=
  ∀ l, AgreeAt R (x.run.run l) (y.run.run l)

abbrev SameOutcome (x : Expansion α) (y : Expansion β) : Prop := Agree (fun _ _ => True) x y

theorem Agree.pure {a : α} {b : β} (h : R a b) : Agree R (pure a) (pure b) :=
  fun _ => .ok h

theorem agree_self (x : Expansion α) :
    Agree (fun a b => a = b ∧ ∃ l l', x.run.run l = (.ok a, l')) x x := by
  intro l
  rcases h : x.run.run l with ⟨_ | a, l'⟩
  · exact .error
  · exact .ok ⟨rfl, l, l', h⟩

theorem Agree.bind {f : α → Expansion γ} {g : β → Expansion δ} (h : Agree R x y)
    (hn : ∀ a b, R a b → Agree S (f a) (g b)) : Agree S (x >>= f) (y >>= g) := by
  intro l
  have h := h l
  rw [run_bind, run_bind]
  revert h
  generalize x.run.run l = run, y.run.run l = run'
  rintro (h | _)
  · exact hn _ _ h _
  · exact .error

theorem Agree.bind_self {f : α → Expansion γ} {g : α → Expansion δ}
    (hn : ∀ a, (∃ l l', x.run.run l = (.ok a, l')) → Agree S (f a) (g a)) :
    Agree S (x >>= f) (x >>= g) :=
  (agree_self x).bind fun _ _ ⟨he, hr⟩ => he ▸ hn _ hr

namespace SameOutcome

theorem self (x : Expansion α) : SameOutcome x x := by
  intro l
  rcases x.run.run l with ⟨_ | _, _⟩
  · exact .error
  · exact .ok trivial

theorem mapM {f : α → Expansion γ} {g : β → Expansion δ} {as : List α} {bs : List β}
    (h : List.Forall₂ (fun a b => SameOutcome (f a) (g b)) as bs) : SameOutcome (as.mapM f) (bs.mapM g) := by
  induction h
  case nil => exact .pure trivial
  case cons h _ hi =>
    rw [List.mapM_cons, List.mapM_cons]
    exact h.bind fun _ _ _ => hi.bind fun _ _ _ => .pure trivial

theorem foldlM {f : γ → α → Expansion γ} {g : δ → α → Expansion δ} {as : List α}
    (h : ∀ a ∈ as, ∀ s t, SameOutcome (f s a) (g t a)) (s : γ) (t : δ) :
    SameOutcome (as.foldlM f s) (as.foldlM g t) := by
  induction as generalizing s t
  case nil => exact .pure trivial
  case cons a as hi =>
    rw [List.foldlM_cons, List.foldlM_cons]
    refine (h a List.mem_cons_self s t).bind fun s t _ => ?_
    exact hi (fun a ha => h a (List.mem_cons_of_mem _ ha)) s t

end SameOutcome

theorem SameOutcome.run (h : SameOutcome x y) (l : Ledger) :
    ((∃ a, (x.run.run l).1 = .ok a) ↔ ∃ b, (y.run.run l).1 = .ok b) ∧
      (∀ fault, (x.run.run l).1 = .error fault ↔ (y.run.run l).1 = .error fault) ∧
      (x.run.run l).2 = (y.run.run l).2 := by
  have h := h l
  revert h
  generalize x.run.run l = run, y.run.run l = run'
  rintro (_ | _) <;> simp

end WikiPages.Expander
