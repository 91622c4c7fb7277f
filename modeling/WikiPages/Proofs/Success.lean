import Mathlib.Data.List.Forall2

namespace WikiPages

variable {ε ε' α β : Type} {x : Except ε α} {a : α} {b : β}

theorem exists_of_bind {next : α → Except ε β} (h : x >>= next = .ok b) :
    ∃ a, x = .ok a ∧ next a = .ok b := by
  cases x
  case error => cases h
  case ok a => exact ⟨a, rfl, h⟩

theorem exists_of_map {f : α → β} (h : x.map f = .ok b) : ∃ a, x = .ok a ∧ f a = b := by
  cases x
  case error => cases h
  case ok a => exact ⟨a, rfl, Except.ok.inj h⟩

theorem eq_ok_of_mapError {f : ε → ε'} (h : x.mapError f = .ok a) : x = .ok a := by
  cases x
  case error => cases h
  case ok => exact congrArg Except.ok (Except.ok.inj h)

theorem exists_of_toOption_map {f : α → β} (h : x.toOption.map f = some b) : ∃ a, x = .ok a ∧ f a = b := by
  cases x
  case error => cases h
  case ok a => exact ⟨a, rfl, Option.some.inj h⟩

theorem mem_of_lookup [BEq α] [LawfulBEq α] {entries : List (α × β)} (h : entries.lookup a = some b) :
    (a, b) ∈ entries := by
  have ⟨front, back, he, _⟩ := List.lookup_eq_some_iff.mp h
  rw [he]
  exact List.mem_append_right front List.mem_cons_self

theorem forall₂_of_mapM {f : α → Except ε β} {as : List α} {bs : List β} (h : as.mapM f = .ok bs) :
    List.Forall₂ (fun a b => f a = .ok b) as bs := by
  induction as generalizing bs
  case nil =>
    cases h
    exact .nil
  case cons a as hi =>
    rw [List.mapM_cons] at h
    have ⟨b, first, h⟩ := exists_of_bind h
    have ⟨bs, rest, h⟩ := exists_of_bind h
    cases h
    exact .cons first (hi rest)

theorem forall_mem_of_forall₂ {R : α → β → Prop} {P : β → Prop} {as : List α} {bs : List β}
    (h : List.Forall₂ R as bs) (hP : ∀ a ∈ as, ∀ b, R a b → P b) : ∀ b ∈ bs, P b := by
  induction h
  case nil => exact nofun
  case cons first _ hi =>
    have ⟨here, later⟩ := List.forall_mem_cons.mp hP
    exact List.forall_mem_cons.mpr ⟨here _ first, hi later⟩

theorem forall₂_comp {γ : Type} {R : α → β → Prop} {S : β → γ → Prop} {as : List α} {bs : List β} {cs : List γ}
    (h : List.Forall₂ R as bs) (hs : List.Forall₂ S bs cs) :
    List.Forall₂ (fun a c => ∃ b, R a b ∧ S b c) as cs := by
  induction h generalizing cs
  case nil =>
    cases hs
    exact .nil
  case cons first _ hi =>
    cases hs
    case cons second rest => exact .cons ⟨_, first, second⟩ (hi rest)

theorem forall₂_zip_of {γ : Type} {R : α → β → Prop} {S : α → γ → Prop} {as : List α} {bs : List β} {cs : List γ}
    (hR : List.Forall₂ R as bs) (hS : List.Forall₂ S as cs) :
    List.Forall₂ (fun a pair => R a pair.1 ∧ S a pair.2) as (bs.zip cs) := by
  induction hR generalizing cs
  case nil => exact .nil
  case cons first _ hi =>
    cases hS
    case cons second rest => exact .cons ⟨first, second⟩ (hi rest)

theorem forall₂_imp_mem {R P : α → β → Prop} {as : List α} {bs : List β} (h : List.Forall₂ R as bs)
    (hp : ∀ a ∈ as, ∀ b, R a b → P a b) : List.Forall₂ P as bs := by
  have ⟨length, related⟩ := List.forall₂_iff_zip.mp h
  exact List.forall₂_iff_zip.mpr ⟨length, fun hz => hp _ (List.of_mem_zip hz).1 _ (related hz)⟩

theorem forall₂_iff_of {R P Q : α → β → Prop} {as : List α} {bs : List β} (h : List.Forall₂ R as bs)
    (he : ∀ a ∈ as, ∀ b, R a b → (P a b ↔ Q a b)) : List.Forall₂ P as bs ↔ List.Forall₂ Q as bs := by
  have both := forall₂_imp_mem h he
  have ⟨_, related⟩ := List.forall₂_iff_zip.mp both
  rw [List.forall₂_iff_zip, List.forall₂_iff_zip]
  exact and_congr_right fun _ => forall_congr' fun a => forall_congr' fun b => forall_congr' related

end WikiPages
