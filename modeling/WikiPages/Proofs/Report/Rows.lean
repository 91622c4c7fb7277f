import WikiPages.Binding
import WikiPages.Proofs.Report.Document
import WikiPages.Proofs.Xml.Order

namespace WikiPages.Report

open Text Xml

variable {title context : Text} {pages : List Page} {p : Page} {number : Nat} {around : List Element}

def tableElement (pages : List Page) : Element :=
  ⟨⟨tableId, []⟩, (Markup.plain lineBreak (rows pages)).content⟩

def tablePlace (title : Text) (pages : List Page) : Place :=
  ⟨3, .element (tableElement pages), [rootElement title pages]⟩

def aroundRows (title : Text) (pages : List Page) : List Element :=
  [tableElement pages, rootElement title pages]

def rowPlace (around : List Element) (number : Nat) (p : Page) : Place :=
  ⟨number, .element ⟨⟨rowName, []⟩, (fields p).content⟩, around⟩

def rowPlaces (around : List Element) : Nat → List Page → List Place
  | _, []              => []
  | number, p :: pages => rowPlace around number p :: rowPlaces around (number + 12) pages

theorem le_number_of_mem {place : Place} (h : place ∈ rowPlaces around number pages) :
    number ≤ place.number := by
  induction pages generalizing number
  case nil => cases h
  case cons p pages hi =>
    cases List.mem_cons.mp h
    case inl h => rw [h, rowPlace]
    case inr h =>
      have := hi h
      omega

theorem ascending_rowPlaces : Place.Ascending (rowPlaces around number pages) := by
  induction pages generalizing number
  case nil => exact .nil
  case cons p pages hi =>
    refine .cons ?_ hi
    intro place h
    have : number + 12 ≤ place.number := le_number_of_mem h
    change number < place.number
    omega

theorem filter_siblings_rows :
    ((rows pages).content.siblings around number).filter Place.isElement =
      rowPlaces around number pages := by
  induction pages generalizing number
  case nil => rfl
  case cons p pages hi =>
    have : (rows (p :: pages)).content.siblings around number =
        rowPlace around number p :: ⟨number + 11, .text lineBreak, around⟩ ::
          (rows pages).content.siblings around (number + 12) := rfl
    rw [this, List.filter_cons_of_pos rfl, List.filter_cons_of_neg (Bool.false_ne_true ∘ id), hi]
    rfl

theorem not_mem_names_rows : tableId ∉ (rows pages).content.names := by
  induction pages
  case nil => exact List.not_mem_nil
  case cons p pages hi =>
    have : (rows (p :: pages)).content.names =
        [rowName, titleName, inputsName, outputsName] ++ (rows pages).content.names := rfl
    rw [this, List.mem_append, not_or]
    exact ⟨by decide, hi⟩

theorem elementsAt_document :
    (document title pages).elementsAt (some context) tableId =
      if context = Identifier.normalize title then [tablePlace title pages] else [] := by
  have hp : (document title pages).places =
      ⟨1, .element (rootElement title pages), []⟩ ::
      ⟨2, .text lineBreak, [rootElement title pages]⟩ :: tablePlace title pages ::
      ⟨4, .text lineBreak, aroundRows title pages⟩ ::
      ((rows pages).content.places (aroundRows title pages) 5 ++
        [⟨3 + 1 + (Markup.plain lineBreak (rows pages)).content.size, .text lineBreak,
          [rootElement title pages]⟩]) := by
    rw [Document.places, Document.content, document, Document.root_of]
    exact congrArg (List.cons _) (List.append_nil _)
  have hr : ((rows pages).content.places (aroundRows title pages) 5).filter (fun p =>
      p.name? = some tableId && Document.isWithin (some context) p) = [] := by
    rw [List.filter_eq_nil_iff]
    intro place hm hn
    have hn := (Bool.and_eq_true _ _).mp hn |>.1
    exact not_mem_names_rows (Content.name_mem_names hm (of_decide_eq_true hn))
  -- the outermost element may go by the name of the table, but there is none around it
  have hd : Document.isWithin (some context) ⟨1, .element (rootElement title pages), []⟩ = false :=
    rfl
  have hw : Document.isWithin (some context) (tablePlace title pages) =
      decide (Identifier.normalize title = context) := rfl
  have hn : (tablePlace title pages).name? = some tableId := rfl
  have ht (n : Nat) (around : List Element) : Place.name? ⟨n, .text lineBreak, around⟩ = none := rfl
  simp only [Document.elementsAt_eq, hp, List.filter_cons, List.filter_append, List.filter_nil, hr, hd, ht,
    hn, hw, reduceCtorEq, decide_true, decide_false, Bool.and_false, Bool.false_and, Bool.true_and,
    Bool.false_eq_true, if_false, decide_eq_true_eq, List.nil_append, @eq_comm _ context]

theorem elementChildren_tablePlace :
    (tablePlace title pages).elementChildren = rowPlaces (aroundRows title pages) 5 pages :=
  filter_siblings_rows

theorem rowsAt_document :
    (document title pages).rowsAt (some context) tableId =
      if context = Identifier.normalize title then rowPlaces (aroundRows title pages) 5 pages
      else [] := by
  have rows : ∀ place, place ∈ (document title pages).rowsAt (some context) tableId ↔
      place ∈ if context = Identifier.normalize title then rowPlaces (aroundRows title pages) 5 pages else [] := by
    intro place
    rw [Document.mem_rowsAt, elementsAt_document]
    split <;> simp [elementChildren_tablePlace]
  refine Place.Ascending.ext (Document.ascending_rowsAt ..) ?_ rows
  split
  case isTrue => exact ascending_rowPlaces
  case isFalse => exact .nil

-- Whether a page with the title finds the data of the report: the data is inside an element named after
-- the report's title, and searched for inside one named after the page's, or inside the shared one.
def Finds (title pageTitle : Text) : Prop :=
  Identifier.normalize title = Identifier.normalize pageTitle ∨
    Identifier.normalize title = Binding.sharedContext

instance {title pageTitle : Text} : Decidable (Finds title pageTitle) :=
  inferInstanceAs (Decidable (_ ∨ _))

theorem rows_document {block : Block} {pageTitle : Text} (hd : block.data = none)
    (ht : block.title = []) :
    Binding.rows (some (document title pages)) block pageTitle tableId =
      if Finds title pageTitle then rowPlaces (aroundRows title pages) 5 pages else [] := by
  have hp : Binding.paths pageTitle tableId block.title =
      [(Identifier.normalize pageTitle, tableId), (Binding.sharedContext, tableId)] := by
    rw [ht]
    rfl
  have hr : Binding.rows (some (document title pages)) block pageTitle tableId =
      Binding.firstRows (document title pages) (Binding.paths pageTitle tableId block.title) := by
    simp only [Binding.rows, hd]
  rw [hr, hp]
  simp only [Binding.firstRows, List.findSome?_cons, List.findSome?_nil, rowsAt_document, Finds,
    @eq_comm _ (Identifier.normalize title)]
  generalize rowPlaces (aroundRows title pages) 5 pages = places
  by_cases hn : Identifier.normalize pageTitle = Identifier.normalize title <;>
    by_cases hs : Binding.sharedContext = Identifier.normalize title <;>
    cases places <;> simp [hn, hs]

def parameters : List Parameter := Parameter.list (lit "Title|Data inputs|Data outputs")

theorem fieldText_fields :
    (Binding.fields (rowPlace around number p) parameters).map Binding.fieldText =
      [link p, ofNat p.inputs, ofNat p.outputs] := by
  have : (Binding.fields (rowPlace around number p) parameters).map Binding.fieldText =
      [link p ++ [], ofNat p.inputs ++ [], ofNat p.outputs ++ []] := by rfl
  simpa using this

end WikiPages.Report
