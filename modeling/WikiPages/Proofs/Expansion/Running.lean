import Mathlib
import WikiPages.Proofs.Expansion.Outcome
import WikiPages.Proofs.Success

namespace WikiPages.Expander

variable {α β : Type} {x : Expansion α} {a : α} {b : β} {l l' : Ledger}

theorem exists_of_run_bind {f : α → Expansion β} (h : (x >>= f).run.run l = (.ok b, l')) :
    ∃ a between, x.run.run l = (.ok a, between) ∧ (f a).run.run between = (.ok b, l') := by
  rw [run_bind] at h
  rcases hx : x.run.run l with ⟨_ | a, between⟩
  · rw [hx] at h
    cases h
  · rw [hx] at h
    exact ⟨a, between, rfl, h⟩

theorem exists_of_run_mapM_cons {f : α → Expansion β} {as : List α} {bs : List β}
    (h : ((a :: as).mapM f).run.run l = (.ok bs, l')) :
    ∃ b others between, bs = b :: others ∧ (f a).run.run l = (.ok b, between) ∧
      (as.mapM f).run.run between = (.ok others, l') := by
  rw [List.mapM_cons] at h
  obtain ⟨b, between, first, h⟩ := exists_of_run_bind h
  obtain ⟨others, _, later, h⟩ := exists_of_run_bind h
  cases h
  exact ⟨b, others, between, rfl, first, later⟩

def Gives (x : Expansion α) (a : α) : Prop := ∀ l b l', x.run.run l = (.ok b, l') → b = a

-- The same, and no id is issued until then.
def Yields (x : Expansion α) (a : α) : Prop := ∀ l b l', x.run.run l = (.ok b, l') → b = a ∧ l'.ids = l.ids

namespace Yields

theorem gives (h : Yields x a) : Gives x a :=
  fun l b l' hr => (h l b l' hr).1

theorem pure (a : α) : Yields (pure a) a := by
  intro l b l' h
  cases h
  exact ⟨rfl, rfl⟩

theorem bind {f : α → Expansion β} (h : Yields x a) (hn : Yields (f a) b) : Yields (x >>= f) b := by
  intro l c l' hr
  have ⟨a', between, hx, hf⟩ := exists_of_run_bind hr
  have ⟨ha, first⟩ := h _ _ _ hx
  subst ha
  have ⟨hb, second⟩ := hn _ _ _ hf
  exact ⟨hb, second.trans first⟩

theorem mapM {f : α → Expansion β} {g : α → β} {as : List α} (h : ∀ a ∈ as, Yields (f a) (g a)) :
    Yields (as.mapM f) (as.map g) := by
  induction as
  case nil => exact pure []
  case cons a as hi =>
    have ⟨first, rest⟩ := List.forall_mem_cons.mp h
    rw [List.mapM_cons]
    exact first.bind ((hi rest).bind (pure _))

theorem foldlM {f : β → α → Expansion β} {g : β → α → β} {as : List α}
    (h : ∀ b, ∀ a ∈ as, Yields (f b a) (g b a)) (b : β) : Yields (as.foldlM f b) (as.foldl g b) := by
  induction as generalizing b
  case nil => exact pure b
  case cons a as hi =>
    rw [List.foldlM_cons]
    exact (h b a List.mem_cons_self).bind (hi (fun b a ha => h b a (List.mem_cons_of_mem _ ha)) _)

end Yields

-- What the expansion succeeds with has some property, and until then it counts some inputs and outputs.
def Counts (x : Expansion α) (inputs outputs : Nat) (holds : α → Prop) : Prop :=
  ∀ l a l', x.run.run l = (.ok a, l') →
    holds a ∧ l'.inputs = l.inputs + inputs ∧ l'.outputs = l.outputs + outputs

namespace Counts

variable {holds : α → Prop} {kept : β → Prop} {inputs inputs' outputs outputs' : Nat}

theorem pure (h : holds a) : Counts (pure a) 0 0 holds := by
  intro l b l' hr
  cases hr
  exact ⟨h, rfl, rfl⟩

theorem mono {weaker : α → Prop} (h : Counts x inputs outputs holds) (hw : ∀ a, holds a → weaker a) :
    Counts x inputs outputs weaker :=
  fun l a l' hr => (h l a l' hr).imp_left (hw a)

theorem bind {f : α → Expansion β} (h : Counts x inputs outputs holds)
    (hn : ∀ a, holds a → Counts (f a) inputs' outputs' kept) :
    Counts (x >>= f) (inputs + inputs') (outputs + outputs') kept := by
  intro l b l' hr
  have ⟨a, between, hx, hf⟩ := exists_of_run_bind hr
  have ⟨ha, first⟩ := h _ _ _ hx
  have ⟨hb, second⟩ := hn a ha _ _ _ hf
  exact ⟨hb, by omega, by omega⟩

theorem output_bind {f : α → Expansion β} (h : Counts x 0 outputs holds)
    (hn : ∀ a, holds a → Counts (f a) inputs outputs' kept) : Counts (x >>= f) inputs (outputs + outputs') kept := by
  simpa using h.bind hn

theorem silent_bind {f : α → Expansion β} (h : Counts x 0 0 holds)
    (hn : ∀ a, holds a → Counts (f a) inputs outputs kept) : Counts (x >>= f) inputs outputs kept := by
  simpa using h.bind hn

theorem bind_silent {f : α → Expansion β} (h : Counts x inputs outputs holds)
    (hn : ∀ a, holds a → Counts (f a) 0 0 kept) : Counts (x >>= f) inputs outputs kept :=
  h.bind hn

theorem mapM {f : α → Expansion β} {inputs outputs : α → Nat} {as : List α}
    (h : ∀ a ∈ as, Counts (f a) (inputs a) (outputs a) kept) :
    Counts (as.mapM f) (as.map inputs).sum (as.map outputs).sum (∀ b ∈ ·, kept b) := by
  induction as
  case nil => exact pure nofun
  case cons a as hi =>
    have ⟨first, rest⟩ := List.forall_mem_cons.mp h
    rw [List.mapM_cons, List.map_cons, List.map_cons, List.sum_cons, List.sum_cons]
    refine first.bind fun b hb => ?_
    exact (hi rest).bind fun bs hbs => pure (List.forall_mem_cons.mpr ⟨hb, hbs⟩)

theorem silent_mapM {f : α → Expansion β} {as : List α} (h : ∀ a ∈ as, Counts (f a) 0 0 kept) :
    Counts (as.mapM f) 0 0 (∀ b ∈ ·, kept b) := by
  simpa using mapM h

theorem foldlM {f : β → α → Expansion β} {as : List α}
    (h : ∀ b, kept b → ∀ a ∈ as, Counts (f b a) 0 outputs kept) {b : β} (hb : kept b) :
    Counts (as.foldlM f b) 0 (outputs * as.length) kept := by
  induction as generalizing b
  case nil => exact pure hb
  case cons a as hi =>
    rw [List.foldlM_cons, List.length_cons, Nat.mul_succ, Nat.add_comm]
    refine (h b hb a List.mem_cons_self).output_bind fun b hb => ?_
    exact hi (fun b hb a ha => h b hb a (List.mem_cons_of_mem _ ha)) hb

theorem silent_foldlM {f : β → α → Expansion β} {as : List α}
    (h : ∀ b, kept b → ∀ a ∈ as, Counts (f b a) 0 0 kept) {b : β} (hb : kept b) :
    Counts (as.foldlM f b) 0 0 kept := by
  simpa using foldlM h hb

end Counts
end WikiPages.Expander
