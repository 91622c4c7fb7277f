import WikiPages.Proofs.Template.AtOnce

namespace WikiPages.Hole

open Text

variable {inside key s v : Text} {c : Char} {f : Text → Option Text}

def IsEdge (c : Char) : Prop := c = '\x22' ∨ c = '<'

instance : DecidablePred IsEdge := fun _ => inferInstanceAs (Decidable (_ ∨ _))

def AtEdge (s : Text) : Prop := ∀ c ∈ s.take 1, IsEdge c

instance : DecidablePred AtEdge := fun s => List.decidableBAll IsEdge (s.take 1)

def Edged (s : Text) : Prop := ∀ t ∈ s.tails, ∀ found ∈ read? t, AtEdge found.2

instance : DecidablePred Edged := fun s =>
  inferInstanceAs (Decidable (∀ t ∈ s.tails, ∀ found ∈ read? t, AtEdge found.2))

-- The same for a clean text, hole after hole.
inductive Spaced : Text → Prop
  | nil : Spaced []
  | char {c : Char} {s : Text} (plain : c ≠ '$') (rest : Spaced s) : Spaced (c :: s)
  | hole {inside s : Text} (plain : IsInside inside) (edge : AtEdge s) (rest : Spaced s) :
    Spaced (of inside ++ s)

namespace Spaced

theorem clean (h : Spaced s) : Clean s := by
  induction h
  case nil => exact .nil
  case char plain _ hi => exact .char plain hi
  case hole plain _ _ hi => exact .hole plain hi

theorem of_clean (h : Clean s) (hs : Edged s) : Spaced s := by
  induction h
  case nil => exact .nil
  case char c s plain _ hi =>
    refine .char plain (hi fun t ht => hs t ?_)
    exact (List.mem_tails _ _).mpr (((List.mem_tails _ _).mp ht).trans (List.suffix_cons c s))
  case hole inside s plain _ hi =>
    refine .hole plain (hs _ ((List.mem_tails _ _).mpr (List.suffix_refl _)) (inside, s) (read?_of plain.closing s)) ?_
    exact hi fun t ht => hs t ((List.mem_tails _ _).mpr (((List.mem_tails _ _).mp ht).trans (List.suffix_append _ s)))

theorem free_append (h : Spaced s) (hv : '$' ∉ v) : Spaced (v ++ s) := by
  induction v
  case nil => exact h
  case cons c v hi =>
    have ⟨hc, hv⟩ := not_or.mp fun hm => hv (List.mem_cons.mpr hm)
    exact .char (Ne.symm hc) (hi hv)

theorem fillAll (h : Spaced s) (hf : Plain f) : Spaced (fillAll f s) := by
  induction h
  case nil => exact .nil
  case char plain _ hi =>
    rw [fillAll_cons plain]
    exact .char plain hi
  case hole inside s plain edge rest hi =>
    rw [fillAll_of plain.closing]
    cases hv : f inside
    case some v => exact hi.free_append (hf inside v hv)
    case none =>
      refine .hole plain ?_ hi
      cases s
      case nil => exact nofun
      case cons d s =>
        have here := edge d List.mem_cons_self
        have plain : d ≠ '$' := by rcases here with rfl | rfl <;> decide
        rw [fillAll_cons plain]
        exact fun c hc => List.mem_singleton.mp hc ▸ here

theorem eq_of_start (hi : '}' ∉ inside) (edge : AtEdge s) (hk : ∀ c ∈ key, ¬ IsEdge c)
    (h : of key <+: of inside ++ s) : key = inside := by
  by_cases hm : '}' ∈ key
  case neg => exact (of_prefix_iff hm hi).mp h
  case pos =>
    obtain ⟨front, back, rfl, hf⟩ := List.eq_append_cons_of_mem hm
    have ⟨rest, hr⟩ := h
    have whole : of (front ++ '}' :: back) = of front ++ (back ++ ['}']) := by simp [of, closing]
    have same := read?_of hi s
    rw [← hr, whole, List.append_assoc, read?_of hf] at same
    have behind : back ++ ['}'] ++ rest = s := (Prod.mk.inj (Option.some.inj same)).2
    subst behind
    cases back
    case nil => exact absurd (edge '}' List.mem_cons_self) (by decide)
    case cons c back => exact absurd (edge c List.mem_cons_self) (hk c (by simp))

theorem replaceAll_eq_fillAll (h : Spaced s) (hk : ∀ c ∈ key, ¬ IsEdge c) :
    replaceAll (of key) v s = Hole.fillAll (only key v) s := by
  induction h
  case nil => rfl
  case char c s plain _ hi =>
    have miss : (of key).isPrefixOf? (c :: s) = none :=
      isPrefixOf?_eq_none_iff.mpr fun hp => plain (List.cons_prefix_cons.mp hp).1.symm
    rw [replaceAll_cons v miss, fillAll_cons plain, hi]
  case hole inside s plain edge _ hi =>
    rw [fillAll_of plain.closing]
    by_cases he : inside = key
    case pos =>
      subst he
      rw [fill_of, hi, only_self]
      rfl
    case neg =>
      have miss : ¬ of key <+: of inside ++ s := fun hp => he (eq_of_start plain.closing edge hk hp).symm
      rw [only_of_ne he, ← hi]
      rw [of_eq_cons inside, List.cons_append] at miss ⊢
      rw [replaceAll_cons v (isPrefixOf?_eq_none_iff.mpr miss), fill_of_free (not_mem_rest plain.sign)]
      rfl

theorem apply_eq_fillAll {σ : Substitution} (h : Spaced s)
    (hσ : ∀ entry ∈ σ.entries, (∀ c ∈ entry.1, ¬ IsEdge c) ∧ '$' ∉ entry.2) : σ.apply s = Hole.fillAll σ.lookup s :=
  Substitution.apply_eq_fillAll_of (fun _ hs => hs.clean) (fun _ _ plain hs => hs.fillAll plain)
    (fun entry he _ hs => hs.replaceAll_eq_fillAll (hσ entry he).1) (fun entry he => (hσ entry he).2) h

end Spaced
end WikiPages.Hole
