import Mathlib
import WikiPages.Binding
import WikiPages.Proofs.Success
import WikiPages.Proofs.Xml.Order

namespace WikiPages

open Text

namespace Xml

variable {c : Char} {x : Content} {e : Element} {p q : Place} {name : Text}

def Content.Lacks (c : Char) : Content → Prop
  | nil                    => True
  | text t next            => c ∉ t ∧ next.Lacks c
  | element tag inner next => (∀ a ∈ tag.attributes, c ∉ a.2) ∧ inner.Lacks c ∧ next.Lacks c

def Content.decidableLacks (c : Char) : (x : Content) → Decidable (x.Lacks c)
  | nil            => .isTrue trivial
  | text _ next    =>
    have := decidableLacks c next
    inferInstanceAs (Decidable (_ ∧ _))
  | element _ inner next =>
    have := decidableLacks c inner
    have := decidableLacks c next
    inferInstanceAs (Decidable (_ ∧ _ ∧ _))

instance : Decidable (x.Lacks c) := x.decidableLacks c

structure Element.Lacks (c : Char) (e : Element) : Prop where
  attributes : ∀ a ∈ e.tag.attributes, c ∉ a.2
  inner      : e.inner.Lacks c

structure Place.Lacks (c : Char) (p : Place) : Prop where
  text    : ∀ t, p.node = .text t → c ∉ t
  element : ∀ e, p.node = .element e → e.Lacks c
  around  : ∀ e ∈ p.around, e.Lacks c

def Document.Lacks (c : Char) (d : Document) : Prop := d.content.Lacks c

instance {d : Document} : Decidable (d.Lacks c) := d.content.decidableLacks c

namespace Content.Lacks

variable {around : List Element}

theorem not_mem_allText (h : x.Lacks c) : c ∉ x.allText := by
  induction x
  case nil => simp [allText]
  case text hi => exact List.not_mem_append h.1 (hi h.2)
  case element hi hn => exact List.not_mem_append (hi h.2.1) (hn h.2.2)

theorem element? (h : x.Lacks c) (he : e ∈ x.element? name) : e.Lacks c := by
  induction x
  case nil => cases he
  case text hi => exact hi h.2 he
  case element tag inner next _ hn =>
    rw [Content.element?] at he
    split at he
    case isTrue => exact Option.some.inj he ▸ ⟨h.1, h.2.1⟩
    case isFalse => exact hn h.2.2 he

theorem siblings (h : x.Lacks c) (ha : ∀ e ∈ around, e.Lacks c) (number : Nat) :
    ∀ p ∈ x.siblings around number, p.Lacks c := by
  induction x generalizing number
  case nil => exact nofun
  case text hi => exact List.forall_mem_cons.mpr ⟨⟨by rintro _ ⟨⟩; exact h.1, nofun, ha⟩, hi h.2 _⟩
  case element hn =>
    exact List.forall_mem_cons.mpr ⟨⟨nofun, by rintro _ ⟨⟩; exact ⟨h.1, h.2.1⟩, ha⟩, hn h.2.2 _⟩

theorem places (h : x.Lacks c) (ha : ∀ e ∈ around, e.Lacks c) (number : Nat) :
    ∀ p ∈ x.places around number, p.Lacks c := by
  induction x generalizing around number
  case nil => exact nofun
  case text hi => exact List.forall_mem_cons.mpr ⟨⟨by rintro _ ⟨⟩; exact h.1, nofun, ha⟩, hi h.2 ha _⟩
  case element tag inner next hi hn =>
    have here : Element.Lacks c ⟨tag, inner⟩ := ⟨h.1, h.2.1⟩
    refine List.forall_mem_cons.mpr ⟨⟨nofun, by rintro _ ⟨⟩; exact here, ha⟩, ?_⟩
    exact List.forall_mem_append.mpr ⟨hi h.2.1 (List.forall_mem_cons.mpr ⟨here, ha⟩) _, hn h.2.2 ha _⟩

end Content.Lacks

namespace Place

theorem Lacks.not_mem_allText (h : p.Lacks c) : c ∉ p.allText := by
  rw [allText]
  split
  case h_1 t ht => exact h.text t ht
  case h_2 e he => exact (h.element e he).inner.not_mem_allText

theorem Lacks.children (h : p.Lacks c) : ∀ q ∈ p.children, q.Lacks c := by
  rw [Place.children]
  split
  case h_1 => exact nofun
  case h_2 e he => exact (h.element e he).inner.siblings (List.forall_mem_cons.mpr ⟨h.element e he, h.around⟩) _

theorem Lacks.elementChildren (h : p.Lacks c) : ∀ q ∈ p.elementChildren, q.Lacks c :=
  fun q hq => h.children q (List.mem_filter.mp hq).1

theorem Lacks.child? (h : p.Lacks c) (hq : q ∈ p.child? name) : q.Lacks c :=
  h.elementChildren q (List.mem_of_find?_eq_some hq)

end Place

namespace Document

variable {d : Document} {context : Option Text}

theorem Lacks.rootPlace (h : d.Lacks c) : d.rootPlace.Lacks c := by
  refine ⟨nofun, fun e he => ?_, List.forall_mem_nil _⟩
  cases he
  exact ⟨h.1, h.2.1⟩

theorem Lacks.places (h : d.Lacks c) : ∀ p ∈ d.places, p.Lacks c :=
  Content.Lacks.places h (List.forall_mem_nil _) 1

theorem Lacks.rowsAt (h : d.Lacks c) : ∀ p ∈ d.rowsAt context name, p.Lacks c := by
  rw [rowsAt_eq]
  exact fun p hp => h.places p (List.mem_filter.mp hp).1

theorem Lacks.outermostRows (h : d.Lacks c) : ∀ p ∈ d.outermostRows, p.Lacks c := by
  rw [outermostRows_eq]
  exact h.rootPlace.elementChildren

theorem Lacks.textAt? (h : d.Lacks c) : ∀ t ∈ d.textAt? context name, c ∉ t := by
  intro t ht
  rw [textAt?_eq] at ht
  have ⟨p, hp, he⟩ := Option.map_eq_some_iff.mp ht
  exact he ▸ (h.places p (List.mem_of_find?_eq_some hp)).not_mem_allText

end Document
end Xml

namespace Binding

open Xml

variable {c : Char} {data : Option Document} {block : Block} {pageTitle id name : Text} {field : Option Place}

theorem not_mem_getD {found : Option Text} (h : ∀ t ∈ found, c ∉ t) : c ∉ found.getD [] := by
  cases found
  case none => exact List.not_mem_nil
  case some t => exact h t rfl

theorem lacks_firstRows {d : Document} (h : d.Lacks c) (paths : List (Text × Text)) :
    ∀ p ∈ firstRows d paths, p.Lacks c := by
  intro p hp
  rw [firstRows] at hp
  cases hf : List.findSome? _ _
  case none =>
    rw [hf] at hp
    cases hp
  case some places =>
    rw [hf] at hp
    have ⟨path, _, hr⟩ := List.exists_of_findSome?_eq_some hf
    have ⟨_, he⟩ := Option.ite_none_left_eq_some.mp hr
    exact h.rowsAt p (Option.some.inj he ▸ hp)

section

variable (hb : ∀ d ∈ block.data, d.Lacks c) (hd : ∀ d ∈ data, d.Lacks c)

include hb hd

theorem not_mem_scalar : c ∉ scalar data block pageTitle id := by
  refine not_mem_getD fun t ht => ?_
  split at ht
  case h_1 own ho => exact (hb own ho).textAt? t ht
  case h_2 d _ =>
    have ⟨_, _, ht⟩ := List.exists_of_findSome?_eq_some ht
    exact (hd d rfl).textAt? t ht
  case h_3 => cases ht

theorem lacks_rows : ∀ p ∈ rows data block pageTitle id, p.Lacks c := by
  cases ho : block.data
  case some own =>
    rw [rows_of_data ho]
    exact (hb own ho).outermostRows
  case none =>
    cases data
    case none =>
      simp only [rows, ho]
      exact List.forall_mem_nil _
    case some d =>
      simp only [rows, ho]
      exact lacks_firstRows (hd d rfl) _

end

theorem lacks_fields {row : Place} (h : row.Lacks c) (parameters : List Parameter) :
    ∀ field ∈ fields row parameters, ∀ p ∈ field, p.Lacks c := by
  intro field hf p hp
  rw [fields] at hf
  split at hf
  case isTrue =>
    cases List.mem_singleton.mp hf
    exact h.children p (List.mem_of_head? hp)
  case isFalse =>
    have ⟨_, _, he⟩ := List.mem_map.mp hf
    exact h.child? (he ▸ hp)

section

variable (h : ∀ p ∈ field, p.Lacks c)

include h

theorem not_mem_fieldText : c ∉ fieldText field := by
  refine not_mem_getD fun t ht => ?_
  have ⟨p, hp, he⟩ := Option.map_eq_some_iff.mp ht
  exact he ▸ (h p hp).not_mem_allText

theorem lacks_owner : ∀ e ∈ owner? field, e.Lacks c := by
  intro e he
  have ⟨p, hp, ho⟩ := Option.bind_eq_some_iff.mp he
  cases hn : p.node
  case text =>
    simp only [Place.element?, hn, Option.none_or] at ho
    exact (h p hp).around e (List.mem_of_head? ho)
  case element =>
    simp only [Place.element?, hn, Option.some_or] at ho
    cases ho
    exact (h p hp).element e hn

theorem not_mem_attributeOf : c ∉ attributeOf field name := by
  refine not_mem_getD fun t ht => ?_
  have ⟨e, he, ht⟩ := Option.bind_eq_some_iff.mp ht
  exact (lacks_owner h e he).attributes (name, t) (mem_of_lookup ht)

theorem not_mem_elementOf : c ∉ elementOf field name := by
  refine not_mem_getD fun t ht => ?_
  have ⟨inner, hi, ht⟩ := Option.map_eq_some_iff.mp ht
  have ⟨e, he, hi⟩ := Option.bind_eq_some_iff.mp hi
  exact ht ▸ ((lacks_owner h e he).inner.element? hi).inner.not_mem_allText

end

end Binding
end WikiPages
