import Mathlib.Data.List.Forall2
import WikiPages.Binding
import WikiPages.Proofs.Xml.Order

namespace WikiPages

open Text

namespace Xml

variable {R : Text → Text → Prop} {P : Text → Prop} {around around' : List Element}

inductive Content.Alike (R : Text → Text → Prop) : Content → Content → Prop
  | nil : Alike R .nil .nil
  | text {t t' next next'} : R t t' → Alike R next next' → Alike R (.text t next) (.text t' next')
  | element {tag tag' inner inner' next next'} : tag.name = tag'.name →
    tag.attributes.map (·.1) = tag'.attributes.map (·.1) → Alike R inner inner' → Alike R next next' →
      Alike R (.element tag inner next) (.element tag' inner' next')

def Content.texts : Content → List Text
  | nil                  => []
  | text t next          => t :: next.texts
  | element _ inner next => inner.texts ++ next.texts

structure Element.Alike (R : Text → Text → Prop) (e e' : Element) : Prop where
  name  : e.tag.name = e'.tag.name
  inner : e.inner.Alike R e'.inner

inductive Node.Alike (R : Text → Text → Prop) : Node → Node → Prop
  | text {t t'} : R t t' → Alike R (.text t) (.text t')
  | element {e e'} : e.Alike R e' → Alike R (.element e) (.element e')

structure Place.Alike (R : Text → Text → Prop) (p p' : Place) : Prop where
  number : p.number = p'.number
  node   : p.node.Alike R p'.node
  around : List.Forall₂ (Element.Alike R) p.around p'.around

namespace Content

variable {c c' : Content}

theorem Alike.and (h : c.Alike R c') (hc : ∀ t ∈ c.texts, P t) (hc' : ∀ t ∈ c'.texts, P t) :
    c.Alike (fun t t' => P t ∧ P t') c' := by
  induction h
  case nil => exact .nil
  case text t t' _ _ _ _ hi =>
    rw [texts, List.forall_mem_cons] at hc hc'
    exact .text ⟨hc.1, hc'.1⟩ (hi hc.2 hc'.2)
  case element name attributes _ _ hi hn =>
    rw [texts, List.forall_mem_append] at hc hc'
    exact .element name attributes (hi hc.1 hc'.1) (hn hc.2 hc'.2)

theorem Alike.size (h : c.Alike R c') : c.size = c'.size := by
  induction h
  case nil => rfl
  case text hi => rw [Content.size, Content.size, hi]
  case element hi hn => rw [Content.size, Content.size, hi, hn]

theorem Alike.places (h : c.Alike R c') (ha : List.Forall₂ (Element.Alike R) around around')
    (number : Nat) :
    List.Forall₂ (Place.Alike R) (c.places around number) (c'.places around' number) := by
  induction h generalizing around around' number
  case nil => exact .nil
  case text value _ hi => exact .cons ⟨rfl, .text value, ha⟩ (hi ha (number + 1))
  case element name _ inner _ hi hn =>
    rw [Content.places, Content.places, inner.size]
    have he : Element.Alike R ⟨_, _⟩ ⟨_, _⟩ := ⟨name, inner⟩
    exact .cons ⟨rfl, .element he, ha⟩ (List.rel_append (hi (.cons he ha) _) (hn ha _))

end Content

namespace Place

variable {p p' : Place} {places places' : List Place}

theorem Alike.isElement (h : p.Alike R p') : p.isElement = p'.isElement := by
  obtain ⟨_, node, _⟩ := p
  obtain ⟨_, node', _⟩ := p'
  cases h.node <;> rfl

theorem Alike.isText (h : p.Alike R p') : p.isText = p'.isText := by
  rw [Place.isText, Place.isText, h.isElement]

theorem Alike.name? (h : p.Alike R p') : p.name? = p'.name? := by
  obtain ⟨_, node, _⟩ := p
  obtain ⟨_, node', _⟩ := p'
  cases h.node
  case text => rfl
  case element he => exact congrArg some he.name

theorem Alike.allText (h : p.Alike R p') (ht : p.isText = true) : R p.allText p'.allText := by
  obtain ⟨_, node, _⟩ := p
  obtain ⟨_, node', _⟩ := p'
  cases h.node
  case text value => exact value
  case element => exact nomatch ht

end Place

namespace Document

variable {d d' : Document} {p p' : Place}

def Alike (R : Text → Text → Prop) (d d' : Document) : Prop := d.content.Alike R d'.content

-- The documents differ in their texts and in the values of attributes only.
def SameShape (d d' : Document) : Prop := d.Alike (fun _ _ => True) d'

def texts (d : Document) : List Text := d.content.texts

theorem isUnder_alike (h : p.Alike R p') (context : Option Text) (name : Text) :
    isUnder context name p = isUnder context name p' := by
  refine isUnder_of_names ?_ context name
  rw [← List.forall₂_eq_eq_eq, List.forall₂_map_left_iff, List.forall₂_map_right_iff]
  exact h.around.imp fun _ _ he => he.name

theorem Alike.rowsAt (h : d.Alike R d') (context : Option Text) (name : Text) :
    List.Forall₂ (Place.Alike R) (d.rowsAt context name) (d'.rowsAt context name) := by
  rw [rowsAt_eq, rowsAt_eq]
  exact List.rel_filter (fun _ _ h => by simp only [h.isElement, isUnder_alike h]) (Content.Alike.places h .nil 1)

theorem Alike.textAt? (h : d.Alike R d') (context : Option Text) (name : Text) :
    Option.Rel R (d.textAt? context name) (d'.textAt? context name) := by
  have texts : List.Forall₂ (fun p p' => p.isText = true ∧ p.Alike R p')
      (d.places.filter fun p => p.isText && isUnder context name p)
      (d'.places.filter fun p => p.isText && isUnder context name p) := by
    refine List.forall₂_and_left _ _ |>.mpr ⟨fun p hp => ?_, ?_⟩
    · exact ((Bool.and_eq_true _ _).mp (List.mem_filter.mp hp).2).1
    · exact List.rel_filter (fun _ _ h => by simp only [h.isText, isUnder_alike h]) (Content.Alike.places h .nil 1)
  rw [textAt?_eq, textAt?_eq, ← List.head?_filter, ← List.head?_filter]
  revert texts
  generalize List.filter _ _ = places, List.filter _ _ = places'
  rintro (_ | ⟨⟨ht, h⟩, _⟩)
  · exact .none
  · exact .some (h.allText ht)

end Document
end Xml

namespace Binding

open Xml

variable {R : Text → Text → Prop} {d d' : Document} {block : Block}

theorem forall₂_firstRows {Q : Place → Place → Prop} (h : ∀ context name,
    List.Forall₂ Q (d.rowsAt (some context) name) (d'.rowsAt (some context) name)) (paths : List (Text × Text)) :
    List.Forall₂ Q (firstRows d paths) (firstRows d' paths) := by
  induction paths
  case nil => exact .nil
  case cons path paths hi =>
    obtain ⟨context, name⟩ := path
    have hl := (h context name).length_eq
    have he : (d.rowsAt (some context) name).isEmpty = (d'.rowsAt (some context) name).isEmpty := by
      rw [Bool.eq_iff_iff, List.isEmpty_iff_length_eq_zero, List.isEmpty_iff_length_eq_zero, hl]
    simp only [firstRows, List.findSome?_cons, he] at hi ⊢
    cases (d'.rowsAt (some context) name).isEmpty
    case true => exact hi
    case false => exact h context name

theorem length_firstRows (h : d.Alike R d') (paths : List (Text × Text)) :
    (firstRows d paths).length = (firstRows d' paths).length :=
  (forall₂_firstRows (fun context name => h.rowsAt (some context) name) paths).length_eq

theorem length_rows (h : d.Alike R d') (block : Block) (pageTitle id : Text) :
    (rows (some d) block pageTitle id).length = (rows (some d') block pageTitle id).length := by
  cases hb : block.data
  case none =>
    simp only [rows, hb]
    exact length_firstRows h _
  case some own => rw [rows_of_data hb, rows_of_data hb]

theorem length_fields (place place' : Place) (parameters : List Parameter) :
    (fields place parameters).length = (fields place' parameters).length := by
  rw [fields, fields]
  split
  · rfl
  · rw [List.length_map, List.length_map]

theorem rel_findSome? {α : Type} {f g : α → Option Text} (h : ∀ a, Option.Rel R (f a) (g a))
    (as : List α) :
    Option.Rel R (as.findSome? f) (as.findSome? g) := by
  induction as
  case nil => exact .none
  case cons a as hi =>
    rw [List.findSome?_cons, List.findSome?_cons]
    exact match f a, g a, h a with
      | _, _, .none   => hi
      | _, _, .some h => .some h

theorem scalar_cases (h : d.Alike R d') (hb : block.data = none) (pageTitle id : Text) :
    (scalar (some d) block pageTitle id = [] ∧ scalar (some d') block pageTitle id = []) ∨
      R (scalar (some d) block pageTitle id) (scalar (some d') block pageTitle id) := by
  have hr := rel_findSome? (fun path : Text × Text => h.textAt? (some path.1) path.2)
    (paths pageTitle id block.title)
  simp only [scalar, hb]
  revert hr
  generalize List.findSome? _ _ = value, List.findSome? _ _ = value'
  rintro (h | _)
  · exact .inr h
  · exact .inl ⟨rfl, rfl⟩

end Binding
end WikiPages
