import WikiPages.Proofs.Success
import WikiPages.Proofs.Xml.Indentation
import WikiPages.Proofs.Xml.Shape

namespace WikiPages

open Text

namespace Xml.Place

variable {row row' : Place}

structure Leads (t : Text) (row row' : Place) : Prop where
  element : ∃ p ∈ row.children.head?, p.isElement = true
  text    : ∃ p ∈ row'.children.head?, p.node = .text t

end Xml.Place

namespace Binding

open Xml

variable {data data' own' : Option Document} {block : Block} {row row' : Place}

def SameRow (data data' : Option Document) (row row' : Place) : Prop :=
  ∃ d ∈ data, ∃ d' ∈ data', d.Corresponding d' row row' ∧ row.Indented row'

theorem rows_indented (hd : Option.Rel Document.Indented data data')
    (hb : Option.Rel Document.Indented block.data own') (pageTitle id : Text) :
    List.Forall₂ (SameRow (block.data.or data) (own'.or data')) (rows data block pageTitle id)
      (rows data' { block with data := own' } pageTitle id) := by
  obtain ⟨kind, title, overrides, own, parameters⟩ := block
  cases hb
  case some own own' h =>
    exact h.outermostRows.imp fun row row' same => ⟨own, rfl, own', rfl, same⟩
  case none =>
    cases hd
    case none => exact .nil
    case some d d' h =>
      refine forall₂_firstRows (fun context name => ?_) _
      exact (h.rowsAt (some context) name).imp fun row row' same => ⟨d, rfl, d', rfl, same⟩

theorem fieldText_child? (h : row.Indented row') (name : Text) (plain : ∀ p ∈ row.child? name, p.isPlain = true) :
    fieldText (row.child? name) = fieldText (row'.child? name) := by
  have found := h.child? name
  revert plain found
  generalize row.child? name = field, row'.child? name = field'
  rintro plain (h | _)
  · exact h.allText (plain _ rfl)
  · rfl

theorem fieldText_head?_iff (h : row.Indented row') (plain : ∀ p ∈ row.children.head?, p.isPlain = true) :
    fieldText row.children.head? = fieldText row'.children.head? ↔
      ∀ t, row.Leads t row' → fieldText row.children.head? = t := by
  constructor
  case mp =>
    intro same t ⟨_, p, first, he⟩
    rw [same, first, fieldText, Option.map_some, Place.allText, he]
    rfl
  case mpr =>
    obtain ⟨number, node, around⟩ := row
    obtain ⟨number', node', around'⟩ := row'
    obtain ⟨⟨tag, content⟩, ⟨tag', content'⟩, he, he', tags, within, given, inner⟩ := h.element
    cases he
    cases he'
    intro led
    have begins := inner.begins given
    clear h tags given inner
    cases begins
    case none => rfl
    case text => rfl
    case element deeper inner => exact congrArg Content.allText (inner.eq_of_isPlain deeper (plain _ rfl))
    case led => exact led _ ⟨⟨_, rfl, rfl⟩, _, rfl, rfl⟩

-- The rows of a block are the same elements, and where fields hold nothing but text their text is the same if and only
-- if no row without parameters begins with blank text that was put there, unless that is what its first element holds.
theorem fieldTexts_indented_iff (hd : Option.Rel Document.Indented data data')
    (hb : Option.Rel Document.Indented block.data own')
    (pageTitle id : Text) (plain : ∀ row ∈ rows data block pageTitle id,
      ∀ field ∈ fields row block.parameters, ∀ p ∈ field, p.isPlain = true) :
    List.Forall₂ (SameRow (block.data.or data) (own'.or data')) (rows data block pageTitle id)
      (rows data' { block with data := own' } pageTitle id) ∧
    (List.Forall₂ (fun row row' =>
        (fields row block.parameters).map fieldText = (fields row' block.parameters).map fieldText)
      (rows data block pageTitle id) (rows data' { block with data := own' } pageTitle id) ↔
      (block.parameters = [] → List.Forall₂ (fun row row' =>
          ∀ t, row.Leads t row' → fieldText row.children.head? = t)
        (rows data block pageTitle id) (rows data' { block with data := own' } pageTitle id))) := by
  have same := rows_indented hd hb pageTitle id
  refine ⟨same, ?_⟩
  by_cases none : block.parameters = []
  case pos =>
    rw [forall_prop_of_true none]
    refine forall₂_iff_of same fun row hr row' ⟨_, _, _, _, _, indented⟩ => ?_
    have plain := plain row hr
    rw [fields, if_pos none] at plain ⊢
    rw [fields, if_pos none, ← fieldText_head?_iff indented (plain _ List.mem_cons_self)]
    exact List.singleton_inj
  case neg =>
    refine iff_of_true ?_ fun given => absurd given none
    refine forall₂_imp_mem same fun row hr row' ⟨_, _, _, _, _, indented⟩ => ?_
    have plain := plain row hr
    rw [fields, if_neg none] at plain ⊢
    rw [fields, if_neg none, List.map_map, List.map_map]
    refine List.map_congr_left fun p hp => ?_
    exact fieldText_child? indented _ (plain _ (List.mem_map_of_mem hp))

def prices (gap : Content → Content) : Document :=
  let note : Content := .element ⟨lit "note", []⟩ (.text (lit "net") .nil) (gap .nil)
  let item : Content := .element ⟨lit "item", []⟩ (.text (lit "10") .nil) (gap note)
  let row  : Content := .element ⟨lit "row", []⟩ (gap item) (gap .nil)
  let list : Content := .element ⟨lit "list", []⟩ (gap row) (gap .nil)
  .of ⟨⟨lit "data", []⟩, gap (.element ⟨lit "default", []⟩ (gap list) (gap .nil))⟩

def compact : Document := prices fun next => next

def laidOut : Document := prices (.text (lit "\n "))

theorem indented_compact : compact.Indented laidOut := by
  have blank : ∀ c ∈ lit "\n ", isBlank c = true := by simp [lit, isBlank]
  have put {next next' : Content} (h : next.Indented true next') : next.Indented true (.text (lit "\n ") next') :=
    .blank (by decide) blank h
  have value (tag : Tag) (s : Text) {next next' : Content} (h : next.Indented true next') :
      (Content.element tag (.text s .nil) next).Indented true (.element tag (.text s .nil) next') :=
    .element (fun given : false = true => nomatch given) (.text .nil) h
  have group (tag : Tag) {inner inner' : Content} (h : inner.Indented true inner') (given : inner ≠ .nil) :
      (Content.element tag inner .nil).Indented true (.element tag inner' (.text (lit "\n ") .nil)) :=
    .element (fun _ => given) h (put .nil)
  have note := value ⟨lit "note", []⟩ (lit "net") (put .nil)
  have row := group ⟨lit "row", []⟩ (put (value ⟨lit "item", []⟩ (lit "10") (put note))) (by decide)
  have list := group ⟨lit "list", []⟩ (put row) (by decide)
  exact ⟨rfl, true, by decide, put (group ⟨lit "default", []⟩ (put list) (by decide))⟩

def priceList (names : List Text) : Block :=
  { kind := lit "list", title := lit "List", parameters := names.map Parameter.parse }

def priceTexts (d : Document) (names : List Text) : List (List Text) :=
  (rows (some d) (priceList names) (lit "Main") (lit "list")).map fun row =>
    (fields row (priceList names).parameters).map fieldText

theorem fieldTexts_indented_compact : compact.Indented laidOut ∧
    priceTexts compact [lit "Note", lit "Item"] = [[lit "net", lit "10"]] ∧
    priceTexts laidOut [lit "Note", lit "Item"] = [[lit "net", lit "10"]] := by
  have shown : priceTexts compact [lit "Note", lit "Item"] = [[lit "net", lit "10"]] := by decide
  have unowned : Option.Rel Document.Indented (priceList [lit "Note", lit "Item"]).data none := .none
  have ⟨_, texts⟩ := fieldTexts_indented_iff (.some indented_compact) unowned (lit "Main") (lit "list") (by decide)
  have same := texts.mpr nofun
  rw [← List.forall₂_map_right_iff, ← List.forall₂_map_left_iff, List.forall₂_eq_eq_eq] at same
  exact ⟨indented_compact, shown, same.symm.trans shown⟩

-- Without parameters the blank text in front of the first element is taken for the field.
theorem not_fieldTexts_indented_compact : compact.Indented laidOut ∧
    priceTexts compact [] = [[lit "10"]] ∧ priceTexts laidOut [] = [[lit "\n "]] ∧
    priceTexts laidOut [] ≠ priceTexts compact [] :=
  ⟨indented_compact, by decide, by decide, by decide⟩

end Binding
end WikiPages
