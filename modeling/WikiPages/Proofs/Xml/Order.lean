import WikiPages.Proofs.Xml.Places
import WikiPages.Proofs.Xml.Tree

namespace WikiPages.Xml

open Text

variable {c : Content} {t : DataTree} {around : List Element} {p q : Place} {places : List Place} {parent number : Nat}
  {context : Option Text} {name : Text}

namespace DataTree

def Surrounded (t : DataTree) : List Element → (node : Nat) → Prop
  | [], node          => t.name? node = none
  | e :: around, node => t.name? node = some e.name ∧ ∃ outer, t.parent? node = some outer ∧ t.Surrounded around outer

-- A place is what the tree holds at its number.
structure Shows (t : DataTree) (p : Place) : Prop where
  isElement  : t.isElement p.number = p.isElement
  isText     : t.isText p.number = p.isText
  name       : t.name? p.number = p.name?
  attributes : t.nodes[p.number]?.map (·.attributes) = some (p.element?.elim [] (·.tag.attributes))
  text       : t.textContent p.number = p.allText
  children   : t.children p.number = p.children.map (·.number)
  around     : ∃ parent, t.parent? p.number = some parent ∧ t.Surrounded p.around parent

theorem heads_eq (c : Content) (around : List Element) (number : Nat) :
    c.heads number = (c.siblings around number).map (·.number) := by
  induction c generalizing number
  case nil => rfl
  case text hi => exact congrArg _ (hi _)
  case element hn => exact congrArg _ (hn _)

theorem flatMap_ownText (holds : t.Holds parent number c) :
    (List.range' number c.size).flatMap t.ownText = c.allText := by
  induction c generalizing parent number
  case nil => rfl
  case text hi =>
    have own : t.isText number = true := isText_of_getElem? holds.1
    rw [Content.size, List.range'_succ, List.flatMap_cons, hi holds.2, ownText, if_pos own, text_of_getElem? holds.1]
    rfl
  case element hi hn =>
    have own : t.isText number = false := isText_of_getElem? holds.1
    rw [Content.size, Nat.add_right_comm, List.range'_succ, ← List.range'_append_1, List.flatMap_cons,
      List.flatMap_append, hi holds.2.1, hn holds.2.2, ownText, if_neg (Bool.eq_false_iff.mp own)]
    rfl

theorem shows_of_holds (holds : t.Holds parent number c) (deep : c.size < t.size)
    (outside : t.Surrounded around parent) : ∀ p ∈ c.places around number, t.Shows p := by
  induction c generalizing parent around number
  case nil => exact nofun
  case text s next hi =>
    rw [Content.size] at deep
    refine List.forall_mem_cons.mpr ⟨?_, hi holds.2 (by omega) outside⟩
    have own : t.isText number = true := isText_of_getElem? holds.1
    exact {
      isElement  := isElement_of_getElem? holds.1
      isText     := own
      name       := name?_of_getElem? holds.1
      attributes := by rw [holds.1]; rfl
      text       := by rw [textContent, if_pos own, text_of_getElem? holds.1]; rfl
      children   := children_of_getElem? holds.1
      around     := ⟨parent, parent?_of_getElem? holds.1, outside⟩ }
  case element tag inner next hi hn =>
    rw [Content.size] at deep
    have own : t.isText number = false := isText_of_getElem? holds.1
    have named : t.name? number = some tag.name := name?_of_getElem? holds.1
    have inside : t.Surrounded (⟨tag, inner⟩ :: around) number :=
      ⟨named, parent, parent?_of_getElem? holds.1, outside⟩
    refine List.forall_mem_cons.mpr ⟨?_, List.forall_mem_append.mpr
      ⟨hi holds.2.1 (by omega) inside, hn holds.2.2 (by omega) outside⟩⟩
    obtain ⟨levels, hl⟩ : ∃ levels, t.size = levels + 1 := ⟨t.size - 1, by omega⟩
    exact {
      isElement  := isElement_of_getElem? holds.1
      isText     := own
      name       := named
      attributes := by rw [holds.1]; rfl
      text       := by
        rw [textContent, if_neg (Bool.eq_false_iff.mp own), hl, textInside, children_of_getElem? holds.1,
          flatMap_textInside holds.2.1 (by omega), flatMap_ownText holds.2.1]
        rfl
      children   := (children_of_getElem? holds.1).trans (heads_eq inner _ _)
      around     := ⟨parent, parent?_of_getElem? holds.1, outside⟩ }

end DataTree

namespace Document

variable {d : Document}

theorem shows (hp : p ∈ d.places) : d.tree.Shows p := by
  have top : d.tree.Surrounded [] 0 := DataTree.name?_of_getElem? (DataTree.getElem?_tree_zero d)
  exact DataTree.shows_of_holds (DataTree.holds_tree d) (DataTree.size_tree d ▸ Nat.lt_succ_self _) top p hp

theorem ascending_places (d : Document) : Place.Ascending d.places := Content.ascending_places ..

theorem place?_number (hp : p ∈ d.places) : d.place? p.number = some p := by
  cases found : d.place? p.number
  case none => exact absurd (decide_eq_true rfl) (List.find?_eq_none.mp found p hp)
  case some q =>
    rw [place?] at found
    have same := List.find?_some found
    rw [decide_eq_true_eq] at same
    rw [d.ascending_places.eq_of_number (List.mem_of_find?_eq_some found) hp same]

theorem filterMap_place? (hs : places ⊆ d.places) : (places.map (·.number)).filterMap d.place? = places := by
  rw [List.filterMap_map]
  refine (List.filterMap_congr fun p hp => place?_number (hs hp)).trans ?_
  exact List.filterMap_some

theorem filter_range (d : Document) (keep : Nat → Bool) (keep' : Place → Bool) (top : keep 0 = false)
    (same : ∀ p ∈ d.places, keep p.number = keep' p) :
    (List.range d.tree.size).filter keep = (d.places.filter keep').map (·.number) := by
  have numbers : List.range d.tree.size = 0 :: d.places.map (·.number) := by
    rw [DataTree.size_tree, List.range_eq_range', List.range'_succ, places, Content.map_number_places]
  rw [numbers, List.filter_cons_of_neg (Bool.eq_false_iff.mp top), List.filter_map]
  exact congrArg _ (List.filter_congr same)

def isWithin (context : Option Text) (p : Place) : Bool :=
  match context with
  | none      => true
  | some name => p.parent?.any (·.name = name)

-- Whether a place is directly inside an element of a name, which is inside one named `context` if that is given.
def isUnder (context : Option Text) (name : Text) (p : Place) : Bool :=
  match p.around with
  | []         => false
  | e :: outer => e.name = name && context.all fun context => outer.head?.any (·.name = context)

theorem isUnder_of_names (h : p.around.map (·.name) = q.around.map (·.name)) (context : Option Text) (name : Text) :
    isUnder context name p = isUnder context name q := by
  rw [isUnder, isUnder]
  cases ha : p.around <;> cases ha' : q.around <;> rw [ha, ha'] at h
  case nil.cons => cases h
  case cons.nil => cases h
  case cons.cons e outer e' outer' =>
    obtain ⟨inner, outer⟩ := List.cons.inj h
    have heads (context : Text) (outer : List Element) :
        outer.head?.any (·.name = context) = (outer.map (·.name)).head?.any (· = context) := by
      cases outer <;> rfl
    simp only [inner, heads, outer]

end Document

namespace DataTree

theorem any_name?_of_surrounded {node : Nat} (h : t.Surrounded around node) (name : Text) :
    decide (t.name? node = some name) = around.head?.any (·.name = name) := by
  cases around
  case nil => simp [show t.name? node = none from h]
  case cons e around => simp [h.1]

theorem Shows.isWithin (h : t.Shows p) (context : Option Text) :
    (context.all fun context => (t.parent? p.number).any fun outer => t.name? outer = some context) =
      Document.isWithin context p := by
  have ⟨parent, hp, outside⟩ := h.around
  cases context
  case none => rfl
  case some context =>
    rw [Option.all_some, hp, Option.any_some]
    exact any_name?_of_surrounded outside context

theorem Shows.isUnder (h : t.Shows p) (context : Option Text) (name : Text) :
    t.isUnder context name p.number = Document.isUnder context name p := by
  obtain ⟨parent, hp, outside⟩ := h.around
  rw [DataTree.isUnder, hp, Option.any_some, Document.isUnder]
  cases ha : p.around
  case nil =>
    rw [ha] at outside
    simp [show t.name? parent = none from outside]
  case cons e around =>
    rw [ha] at outside
    obtain ⟨named, outer, ho, farther⟩ := outside
    rw [named, ho]
    simp only [Option.any_some, any_name?_of_surrounded farther, Option.some_inj]

end DataTree

namespace Document

variable {d : Document}

theorem elementsAt_tree (d : Document) (context : Option Text) (name : Text) :
    d.tree.elementsAt context name =
      (d.places.filter fun p => p.name? = some name && isWithin context p).map (·.number) := by
  have top : d.tree.name? 0 = none := DataTree.name?_of_getElem? (DataTree.getElem?_tree_zero d)
  rw [← d.filter_range (fun n => d.tree.name? n = some name &&
    context.all fun context => (d.tree.parent? n).any fun outer => d.tree.name? outer = some context)]
  case top => rw [top]; rfl
  case same => exact fun p hp => by rw [(shows hp).name, (shows hp).isWithin]
  refine DataTree.eq_of_ascending ((List.pairwise_lt_range.filter _).filter _) (List.pairwise_lt_range.filter _) fun n => ?_
  rw [DataTree.mem_elementsAt, List.mem_filter, List.mem_range, Bool.and_eq_true, decide_eq_true_eq]
  exact ⟨fun h => ⟨(DataTree.isElement_of_name? h.1).1, h⟩, fun h => h.2⟩

theorem elementsAt_eq (d : Document) (context : Option Text) (name : Text) :
    d.elementsAt context name = d.places.filter fun p => p.name? = some name && isWithin context p := by
  rw [elementsAt, elementsAt_tree, filterMap_place? List.filter_sublist.subset]

theorem mem_elementsAt : p ∈ d.elementsAt context name ↔
    p ∈ d.places ∧ p.name? = some name ∧ isWithin context p = true := by
  simp [elementsAt_eq]

theorem isUnder_zero (d : Document) (context : Option Text) (name : Text) : d.tree.isUnder context name 0 = false := by
  rw [DataTree.isUnder, DataTree.parent?_zero]
  rfl

theorem rowsAt_eq (d : Document) (context : Option Text) (name : Text) :
    d.rowsAt context name = d.places.filter fun p => p.isElement && isUnder context name p := by
  rw [rowsAt, DataTree.rowsAt_tree, d.filter_range _ fun p => p.isElement && isUnder context name p,
    filterMap_place? List.filter_sublist.subset]
  case top => rw [isUnder_zero, Bool.and_false]
  case same => exact fun p hp => by rw [(shows hp).isElement, (shows hp).isUnder]

theorem textAt?_eq (d : Document) (context : Option Text) (name : Text) :
    d.textAt? context name = (d.places.find? fun p => p.isText && isUnder context name p).map Place.allText := by
  rw [textAt?, DataTree.textAt?_tree, ← List.head?_filter, ← List.head?_filter,
    d.filter_range _ fun p => p.isText && isUnder context name p, List.head?_map, Option.map_map]
  case top => rw [isUnder_zero, Bool.and_false]
  case same => exact fun p hp => by rw [(shows hp).isText, (shows hp).isUnder]
  refine Option.map_congr fun p hp => ?_
  have ⟨hp, chosen⟩ := List.mem_filter.mp (List.mem_of_head? hp)
  have own := (Bool.and_eq_true _ _).mp chosen |>.1
  rw [Function.comp, ← (shows hp).text, DataTree.textContent, (shows hp).isText, if_pos own]

theorem isUnder_iff (hp : p ∈ d.places) :
    isUnder context name p = true ↔ ∃ q ∈ d.elementsAt context name, p ∈ q.children := by
  have inside (q : Place) (hq : q ∈ d.places) : p ∈ q.children ↔ d.tree.parent? p.number = some q.number := by
    rw [← DataTree.mem_children_iff, (shows hq).children, List.mem_map]
    refine ⟨fun h => ⟨p, h, rfl⟩, fun ⟨r, hr, he⟩ => ?_⟩
    exact d.ascending_places.eq_of_number (Content.children_subset hq hr) hp he ▸ hr
  rw [← (shows hp).isUnder, DataTree.isUnder, Option.any_eq_true]
  constructor
  case mp =>
    rintro ⟨parent, ho, named⟩
    rw [Bool.and_eq_true, decide_eq_true_eq, ← DataTree.mem_elementsAt, elementsAt_tree, List.mem_map] at named
    obtain ⟨q, hq, rfl⟩ := named
    rw [← elementsAt_eq] at hq
    exact ⟨q, hq, (inside q (mem_elementsAt.mp hq).1).mpr ho⟩
  case mpr =>
    rintro ⟨q, hq, h⟩
    refine ⟨q.number, (inside q (mem_elementsAt.mp hq).1).mp h, ?_⟩
    rw [Bool.and_eq_true, decide_eq_true_eq, ← DataTree.mem_elementsAt, elementsAt_tree, ← elementsAt_eq]
    exact List.mem_map_of_mem hq

theorem ascending_rowsAt (d : Document) (context : Option Text) (name : Text) :
    Place.Ascending (d.rowsAt context name) := by
  rw [rowsAt_eq]
  exact d.ascending_places.filter _

theorem mem_rowsAt : p ∈ d.rowsAt context name ↔ ∃ q ∈ d.elementsAt context name, p ∈ q.elementChildren := by
  rw [rowsAt_eq, List.mem_filter, Bool.and_eq_true]
  constructor
  case mp =>
    rintro ⟨hp, he, hu⟩
    have ⟨q, hq, inside⟩ := (isUnder_iff hp).mp hu
    exact ⟨q, hq, List.mem_filter.mpr ⟨inside, he⟩⟩
  case mpr =>
    rintro ⟨q, hq, h⟩
    have ⟨inside, he⟩ := List.mem_filter.mp h
    have hp := Content.children_subset (mem_elementsAt.mp hq).1 inside
    exact ⟨hp, he, (isUnder_iff hp).mpr ⟨q, hq, inside⟩⟩

theorem outermostRows_eq (d : Document) : d.outermostRows = d.rootPlace.elementChildren := by
  have root : d.rootPlace ∈ d.places := List.mem_cons_self
  have rows (n : Nat) : d.tree.elementChildren n = (d.tree.children n).filter d.tree.isElement := rfl
  have first : d.tree.documentElement? = some 1 := by
    have : d.tree.isElement 1 = true := (shows root).isElement
    rw [DataTree.documentElement?, rows, DataTree.children_zero, List.filter_cons_of_pos this]
    rfl
  have kept : (d.rootPlace.children.map (·.number)).filter d.tree.isElement =
      d.rootPlace.elementChildren.map (·.number) := by
    rw [List.filter_map]
    exact congrArg _ (List.filter_congr fun p hp => (shows (Content.children_subset root hp)).isElement)
  have inside : d.tree.elementChildren 1 = d.rootPlace.elementChildren.map (·.number) := by
    rw [rows, ← kept]
    exact congrArg _ (shows root).children
  rw [outermostRows, first, Option.map_some, Option.getD_some, inside]
  exact filterMap_place? fun p hp => Content.children_subset root (List.mem_filter.mp hp).1

end Document
end WikiPages.Xml
