import Mathlib
import WikiPages.Xml.Place

namespace WikiPages.Xml

variable {c : Content} {around : List Element} {number : Nat} {p q : Place} {places places' : List Place} {name : Text}

namespace Place

def Ascending (places : List Place) : Prop := places.Pairwise (·.number < ·.number)

theorem Ascending.eq_of_number (h : Ascending places) (hp : p ∈ places) (hq : q ∈ places)
    (he : p.number = q.number) : p = q :=
  List.inj_on_of_nodup_map (List.pairwise_map.mpr (h.imp Nat.ne_of_lt)) hp hq he

theorem Ascending.nodup (h : Ascending places) : places.Nodup :=
  h.imp fun hlt he => Nat.ne_of_lt hlt (congrArg _ he)

theorem Ascending.ext (h : Ascending places) (h' : Ascending places') (hm : ∀ p, p ∈ places ↔ p ∈ places') :
    places = places' := by
  have perm := (List.perm_ext_iff_of_nodup h.nodup h'.nodup).mpr hm
  exact perm.eq_of_pairwise (fun p q _ _ hlt hgt => absurd hlt (Nat.lt_asymm hgt)) h h'

end Place

namespace Content

open Place

def names : Content → List Text
  | nil                    => []
  | text _ next            => next.names
  | element tag inner next => tag.name :: (inner.names ++ next.names)

theorem name_mem_names (h : p ∈ c.places around number) (hn : p.name? = some name) : name ∈ c.names := by
  induction c generalizing around number
  case nil => cases h
  case text t next hi =>
    cases List.mem_cons.mp h
    case inl h =>
      subst h
      cases hn
    case inr h => exact hi h
  case element tag inner next hi hi' =>
    cases List.mem_cons.mp h
    case inl h =>
      subst h
      cases hn
      exact List.mem_cons_self
    case inr h =>
      refine List.mem_cons_of_mem _ (List.mem_append.mpr ?_)
      cases List.mem_append.mp h
      case inl h => exact .inl (hi h)
      case inr h => exact .inr (hi' h)

theorem map_number_places (c : Content) (around : List Element) (number : Nat) :
    (c.places around number).map (·.number) = List.range' number c.size := by
  induction c generalizing around number
  case nil => rfl
  case text hi => simp [places, size, hi, List.range'_succ]
  case element tag inner next hi hn =>
    simp only [places, size, List.map_cons, List.map_append, hi, hn]
    rw [show inner.size + 1 + next.size = (inner.size + next.size) + 1 by omega, List.range'_succ,
      List.range'_append_1]

theorem ascending_places (c : Content) (around : List Element) (number : Nat) :
    Ascending (c.places around number) := by
  have : ((c.places around number).map (·.number)).Pairwise (· < ·) :=
    map_number_places c around number ▸ List.pairwise_lt_range' 1 Nat.one_pos
  exact List.pairwise_map.mp this

theorem siblings_sublist (c : Content) (around : List Element) (number : Nat) :
    (c.siblings around number).Sublist (c.places around number) := by
  induction c generalizing number
  case nil => exact .slnil
  case text hi => exact (hi _).cons_cons _
  case element hi => exact ((hi _).trans (List.sublist_append_right ..)).cons_cons _

theorem suffix_around (hp : p ∈ c.places around number) : around <:+ p.around := by
  induction c generalizing around number
  case nil => cases hp
  case text hi =>
    cases List.mem_cons.mp hp
    case inl he => exact he ▸ List.suffix_rfl
    case inr hp => exact hi hp
  case element hi hn =>
    cases List.mem_cons.mp hp
    case inl he => exact he ▸ List.suffix_rfl
    case inr hp =>
      cases List.mem_append.mp hp
      case inl hp => exact (List.suffix_cons ..).trans (hi hp)
      case inr hp => exact hn hp

theorem siblings_eq_filter (c : Content) (around : List Element) (number : Nat) :
    c.siblings around number = (c.places around number).filter (·.around = around) := by
  induction c generalizing number
  case nil => rfl
  case text hi => rw [siblings, places, List.filter_cons_of_pos (by simp), hi]
  case element tag inner next _ hn =>
    have deeper : (inner.places (⟨tag, inner⟩ :: around) (number + 1)).filter (·.around = around) = [] := by
      refine List.filter_eq_nil_iff.mpr fun p hp he => ?_
      have := (of_decide_eq_true he ▸ suffix_around hp).length_le
      exact absurd this (Nat.not_succ_le_self _)
    rw [siblings, places, List.filter_cons_of_pos (by simp), List.filter_append, deeper, hn, List.nil_append]

theorem children_subset (hp : p ∈ c.places around number) : p.children ⊆ c.places around number := by
  induction c generalizing around number
  case nil => cases hp
  case text hi =>
    cases List.mem_cons.mp hp
    case inl he => exact he ▸ List.nil_subset _
    case inr hp => exact List.subset_cons_of_subset _ (hi hp)
  case element hi hn =>
    refine List.subset_cons_of_subset _ ?_
    cases List.mem_cons.mp hp
    case inl he =>
      subst he
      exact List.subset_append_of_subset_left _ (siblings_sublist ..).subset
    case inr hp =>
      cases List.mem_append.mp hp
      case inl hp => exact List.subset_append_of_subset_left _ (hi hp)
      case inr hp => exact List.subset_append_of_subset_right _ (hn hp)

end Content
end WikiPages.Xml
