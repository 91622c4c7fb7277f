import WikiPages.Proofs.Report.Rows
import WikiPages.Proofs.Xml.Reading

namespace WikiPages.Report

open Text Xml

variable {title xml : Text} {pages : List Page} {p : Page} {number : Nat} {around : List Element}

-- A row that holds what the report says of a page, and no other elements.
structure Tells (p : Page) (row : Place) : Prop where
  names   : row.elementChildren.map Place.name? = [some titleName, some inputsName, some outputsName]
  title   : (row.child? titleName).map Place.allText =
              some (lit "<a href=\"" ++ p.file ++ lit "\">" ++ p.title ++ lit "</a>")
  inputs  : (row.child? inputsName).map Place.allText = some (Nat.toDigits 10 p.inputs)
  outputs : (row.child? outputsName).map Place.allText = some (Nat.toDigits 10 p.outputs)

theorem tells_rowPlace (around : List Element) (number : Nat) (p : Page) : Tells p (rowPlace around number p) where
  names   := rfl
  title   := congrArg some (List.append_nil _)
  inputs  := congrArg some (List.append_nil _)
  outputs := congrArg some (List.append_nil _)

theorem tells_rowPlaces : List.Forall₂ Tells pages (rowPlaces around number pages) := by
  induction pages generalizing number
  case nil          => exact .nil
  case cons p _ hi  => exact .cons (tells_rowPlace around number p) hi

-- Whatever the titles of the pages have in common with markup, the data of a report is read, and there is a row
-- for each page in it, in their order. Only a carriage return would not be read as it was written.
theorem exists_rows_tell {reader : Reader} (conforms : reader.Conforms) (accepted : data title pages = .ok xml)
    (allowed : ∀ p ∈ pages, ∀ c ∈ p.title, isChar c = true ∧ c ≠ cr) :
    ∃ d, Document.read reader xml = .ok d ∧
      List.Forall₂ Tells pages (d.rowsAt (some (Identifier.normalize title)) tableId) := by
  have settled : ∀ p ∈ pages, cr ∉ p.title := fun p hp hc => (allowed p hp cr hc).2 rfl
  have sound : pages.all isSound = true := by
    simp only [isSound, List.all_eq_true]
    exact fun p hp c hc => (allowed p hp c hc).1
  refine ⟨document title pages, ?_, ?_⟩
  · simp [read_data conforms accepted settled, sound]
  · simp only [rowsAt_document, ↓reduceIte]
    exact tells_rowPlaces

def marked : List Page :=
  [{ title := lit "a]]]>>b", content := [], inputs := 3 },
    { title := lit "<![CDATA[\"&amp;\"]]>", content := [], outputs := 12 }]

theorem exists_rows_tell_marked : ∃ xml d,
    data (lit "_Table") marked = .ok xml ∧ (∀ p ∈ marked, ∀ c ∈ p.title, isChar c = true ∧ c ≠ cr) ∧
      Document.read Document.parse? xml = .ok d ∧ List.Forall₂ Tells marked (d.rowsAt (some (lit "_table")) (lit "_table")) := by
  have named : namesElement (Identifier.normalize (lit "_Table")) = true := by decide
  have ⟨xml, accepted⟩ := data_of_names named marked
  have looked : ∀ p ∈ marked, (p.title.all fun c => isChar c = true ∧ c ≠ cr) = true := by decide
  have allowed : ∀ p ∈ marked, ∀ c ∈ p.title, isChar c = true ∧ c ≠ cr :=
    fun p hp => forall_mem_of_all (looked p hp)
  have ⟨d, read, rows⟩ := exists_rows_tell Document.conforms_parse? accepted allowed
  exact ⟨xml, d, accepted, allowed, read, rows⟩

end WikiPages.Report
