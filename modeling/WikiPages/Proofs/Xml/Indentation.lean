import WikiPages.Proofs.Binding.Precedence

namespace WikiPages.Xml

open Text

-- Content and the same with blank text put between its nodes. The content is free for that if it holds only elements,
-- and of the content of an element at least one.
inductive Content.Indented : (free : Bool) → Content → Content → Prop
  | nil {free : Bool} : Indented free .nil .nil
  | text {t next next'} : Indented false next next' → Indented false (.text t next) (.text t next')
  | blank {t next next'} : t ≠ [] → (∀ c ∈ t, isBlank c = true) → Indented true next next' →
      Indented true next (.text t next')
  | element {free within : Bool} {tag inner inner' next next'} : (within = true → inner ≠ .nil) →
      Indented within inner inner' → Indented free next next' →
      Indented free (.element tag inner next) (.element tag inner' next')

structure Element.Indented (e e' : Element) : Prop where
  tag   : e.tag = e'.tag
  inner : ∃ within, (within = true → e.inner ≠ .nil) ∧ e.inner.Indented within e'.inner

structure Place.Indented (p p' : Place) : Prop where
  element : ∃ e e', p.node = .element e ∧ p'.node = .element e' ∧ e.Indented e'
  around  : p.around.map (·.name) = p'.around.map (·.name)

-- Nothing is put around the outermost element.
def Document.Indented (d d' : Document) : Prop := d.root.Indented d'.root

def Content.isPlain : Content → Bool
  | nil         => true
  | text _ next => next.isPlain
  | element ..  => false

def Place.isPlain (p : Place) : Bool := p.element?.all (·.inner.isPlain)

variable {free within : Bool} {c c' : Content} {around around' : List Element} {p p' : Place} {d d' : Document}

namespace Content

theorem Indented.cases_free (h : c.Indented true c') : c = .nil ∨ ∃ tag inner next, c = .element tag inner next := by
  generalize hf : true = free at h
  induction h
  case nil => exact .inl rfl
  case text => cases hf
  case blank hi => exact hi hf
  case element => exact .inr ⟨_, _, _, rfl⟩

-- How content begins in both documents: with the same, or with an element in one and with text put in front of it in
-- the other.
inductive Begins : Content → Content → Prop
  | none : Begins .nil .nil
  | text {t next next'} : Begins (.text t next) (.text t next')
  | element {within : Bool} {tag inner inner' next next'} : (within = true → inner ≠ .nil) →
      inner.Indented within inner' → Begins (.element tag inner next) (.element tag inner' next')
  | led {tag inner next t next'} : Begins (.element tag inner next) (.text t next')

theorem Indented.begins (h : c.Indented within c') (given : within = true → c ≠ .nil) : c.Begins c' := by
  cases h
  case nil => exact .none
  case text => exact .text
  case element deeper inner _ => exact .element deeper inner
  case blank behind =>
    rcases behind.cases_free with none | ⟨tag, inner, next, rfl⟩
    · exact absurd none (given rfl)
    · exact .led

theorem Indented.eq_of_isPlain (h : c.Indented within c') (given : within = true → c ≠ .nil) (hp : c.isPlain = true) :
    c = c' := by
  cases within
  case true =>
    rcases h.cases_free with none | ⟨tag, inner, next, he⟩
    · exact absurd none (given rfl)
    · rw [he] at hp
      cases hp
  case false =>
    clear given
    generalize hf : false = free at h
    induction h
    case nil => rfl
    case text hi => rw [hi hp hf]
    case blank => cases hf
    case element => cases hp

theorem Indented.elements (h : c.Indented free c') (ha : around.map (·.name) = around'.map (·.name))
    (number number' : Nat) : List.Forall₂ Place.Indented
      ((c.places around number).filter Place.isElement) ((c'.places around' number').filter Place.isElement) := by
  induction h generalizing around around' number number'
  case nil => exact .nil
  case text hi => exact hi ha _ _
  case blank hi => exact hi ha _ _
  case element tag inner inner' next next' given within _ hi hn =>
    have here : Place.Indented ⟨number, .element ⟨tag, inner⟩, around⟩ ⟨number', .element ⟨tag, inner'⟩, around'⟩ :=
      ⟨⟨_, _, rfl, rfl, rfl, _, given, within⟩, ha⟩
    have deeper : (⟨tag, inner⟩ :: around).map Element.name = (⟨tag, inner'⟩ :: around').map Element.name :=
      congrArg (tag.name :: ·) ha
    rw [places, places, List.filter_cons_of_pos rfl, List.filter_cons_of_pos rfl, List.filter_append,
      List.filter_append]
    exact .cons here (List.rel_append (hi deeper _ _) (hn ha _ _))

theorem Indented.siblings (h : c.Indented free c') (ha : around.map (·.name) = around'.map (·.name))
    (number number' : Nat) : List.Forall₂ Place.Indented
      ((c.siblings around number).filter Place.isElement) ((c'.siblings around' number').filter Place.isElement) := by
  induction h generalizing number number'
  case nil => exact .nil
  case text hi => exact hi _ _
  case blank hi => exact hi _ _
  case element given within _ _ hn => exact .cons ⟨⟨_, _, rfl, rfl, rfl, _, given, within⟩, ha⟩ (hn _ _)

end Content

namespace Place

theorem Indented.name? (h : p.Indented p') : p.name? = p'.name? := by
  have ⟨e, e', node, node', he⟩ := h.element
  rw [Place.name?, Place.name?, element?, element?, node, node']
  exact congrArg (fun tag => some tag.name) he.tag

theorem Indented.elementChildren (h : p.Indented p') :
    List.Forall₂ Place.Indented p.elementChildren p'.elementChildren := by
  have ⟨e, e', node, node', tag, within, _, inner⟩ := h.element
  rw [Place.elementChildren, Place.elementChildren, children, children, node, node']
  refine inner.siblings ?_ _ _
  rw [List.map_cons, List.map_cons, h.around, Element.name, Element.name, tag]

theorem Indented.child? (h : p.Indented p') (name : Text) :
    Option.Rel Place.Indented (p.child? name) (p'.child? name) := by
  have found := List.rel_filter (p := (Place.name? · = some name)) (q := (Place.name? · = some name))
    (fun _ _ h => by simp only [h.name?]) h.elementChildren
  rw [Place.child?, Place.child?, ← List.head?_filter, ← List.head?_filter]
  revert found
  generalize List.filter _ _ = places, List.filter _ _ = places'
  rintro (_ | ⟨h, _⟩)
  · exact .none
  · exact .some h

theorem Indented.allText (h : p.Indented p') (hp : p.isPlain = true) : p.allText = p'.allText := by
  have ⟨e, e', node, node', _, within, given, inner⟩ := h.element
  rw [isPlain, element?, node] at hp
  rw [Place.allText, Place.allText, node, node']
  exact congrArg Content.allText (inner.eq_of_isPlain given hp)

end Place

namespace Document

def elements (d : Document) : List Place := d.places.filter Place.isElement

def Corresponding (d d' : Document) (p p' : Place) : Prop := (p, p') ∈ d.elements.zip d'.elements

theorem Indented.elements (h : d.Indented d') : List.Forall₂ Place.Indented d.elements d'.elements := by
  have ⟨tag, within, given, inner⟩ := h
  have content : d.content.Indented false d'.content := by
    rw [Document.content, Document.content, ← tag]
    exact .element given inner .nil
  exact content.elements rfl _ _

theorem Indented.filter (h : d.Indented d') {keep : Place → Bool} (hk : ∀ p p', p.Indented p' → keep p = keep p') :
    List.Forall₂ (fun p p' => d.Corresponding d' p p' ∧ p.Indented p') (d.elements.filter keep)
      (d'.elements.filter keep) := by
  have ⟨lengths, related⟩ := List.forall₂_iff_zip.mp h.elements
  have same (p p' : Place) (h : d.Corresponding d' p p' ∧ p.Indented p') : keep p = true ↔ keep p' = true := by
    rw [hk p p' h.2]
  exact List.rel_filter same (List.forall₂_iff_zip.mpr ⟨lengths, fun hz => ⟨hz, related hz⟩⟩)

theorem Indented.rowsAt (h : d.Indented d') (context : Option Text) (name : Text) :
    List.Forall₂ (fun p p' => d.Corresponding d' p p' ∧ p.Indented p') (d.rowsAt context name)
      (d'.rowsAt context name) := by
  have rows (d : Document) : d.rowsAt context name = d.elements.filter (isUnder context name) := by
    rw [rowsAt_eq, Document.elements, List.filter_filter]
    exact List.filter_congr fun p _ => Bool.and_comm _ _
  rw [rows, rows]
  exact h.filter fun p p' h => isUnder_of_names h.around context name

theorem Indented.outermostRows (h : d.Indented d') :
    List.Forall₂ (fun p p' => d.Corresponding d' p p' ∧ p.Indented p') d.outermostRows d'.outermostRows := by
  have rows (d : Document) : d.outermostRows = d.elements.filter (·.around.length = 1) := by
    rw [Binding.outermostRows_eq, Document.elements, List.filter_filter]
    refine List.filter_congr fun p hp => ?_
    have inside : p.around = [d.root] ↔ p.around.length = 1 := by
      refine ⟨fun he => congrArg List.length he, fun single => ?_⟩
      rcases List.mem_cons.mp hp with he | hp
      · rw [he] at single
        cases single
      · have ⟨inner, outermost⟩ := Content.suffix_around (List.append_nil _ ▸ hp)
        rw [← outermost, List.length_append, List.length_singleton, Nat.add_eq_right] at single
        rw [← outermost, List.length_eq_zero_iff.mp single, List.nil_append]
    rw [Bool.and_comm, decide_eq_decide.mpr inside]
  rw [rows, rows]
  refine h.filter fun p p' h => ?_
  rw [← List.length_map (·.name) , h.around, List.length_map]

end Document
end WikiPages.Xml
