import Mathlib.Data.List.Nodup
import WikiPages.Template.Substitution

namespace WikiPages.Substitution

variable {pairs : List (Text × Text)}

theorem lookup_insertAll (h : (pairs.map (·.1)).Nodup) (σ : Substitution) (key : Text) :
    (σ.insertAll pairs).lookup key = (pairs.lookup key).or (σ.lookup key) := by
  induction pairs generalizing σ
  case nil => rfl
  case cons pair pairs hi =>
    obtain ⟨k, value⟩ := pair
    have ⟨new, distinct⟩ := List.nodup_cons.mp h
    have he : (σ.insertAll ((k, value) :: pairs)).lookup key =
        (pairs.lookup key).or ((σ.insert k value).lookup key) := hi distinct (σ.insert k value)
    rw [he]
    by_cases hk : key = k
    case pos =>
      subst hk
      have : pairs.lookup key = none := by
        refine List.lookup_eq_none_iff.mpr fun pair hp => ?_
        refine bne_iff_ne.mpr fun (he : key = pair.1) => new ?_
        exact List.mem_map.mpr ⟨pair, hp, he.symm⟩
      rw [this, lookup_insert_self, List.lookup_cons_self]
      rfl
    case neg => rw [lookup_insert_of_ne hk, List.lookup_cons, beq_false_of_ne hk]

theorem mem_insertEntry {key value : Text} {entries : List (Text × Text)} {entry : Text × Text}
    (h : entry ∈ insertEntry key value entries) : entry = (key, value) ∨ entry ∈ entries := by
  induction entries
  case nil => exact .inl (List.mem_singleton.mp h)
  case cons first entries hi =>
    rw [insertEntry] at h
    split at h
    case isTrue => exact (List.mem_cons.mp h).imp_right (List.mem_cons_of_mem _)
    case isFalse =>
      split at h
      case isTrue => exact List.mem_cons.mp h
      case isFalse =>
        rcases List.mem_cons.mp h with rfl | h
        · exact .inr List.mem_cons_self
        · exact (hi h).imp_right (List.mem_cons_of_mem _)

theorem mem_entries_insertAll {σ : Substitution} {entry : Text × Text} (h : entry ∈ (σ.insertAll pairs).entries) :
    entry ∈ pairs ∨ entry ∈ σ.entries := by
  induction pairs generalizing σ
  case nil => exact .inr h
  case cons pair pairs hi =>
    rcases hi h with h | h
    · exact .inl (List.mem_cons_of_mem _ h)
    · rcases mem_insertEntry h with rfl | h
      · exact .inl List.mem_cons_self
      · exact .inr h

end WikiPages.Substitution
