import WikiPages.Proofs.Identifier.Token
import WikiPages.Proofs.Xml.Markup
import WikiPages.Xml.Loading

namespace WikiPages.Report

open Text Xml

def rowName : Text := lit "artifact"

def titleName : Text := lit "title"

def inputsName : Text := lit "data_inputs"

def outputsName : Text := lit "data_outputs"

def fields (p : Page) : Markup :=
  .plain lineBreak <| .element titleName (.cdata (link p) .nil) <|
    .plain lineBreak <| .element inputsName (.plain (ofNat p.inputs) .nil) <|
      .plain lineBreak <| .element outputsName (.plain (ofNat p.outputs) .nil) <|
        .plain lineBreak .nil

def rows (pages : List Page) : Markup :=
  pages.foldr (fun p next => .element rowName (fields p) (.plain lineBreak next)) .nil

def table (pages : List Page) : Markup :=
  .plain lineBreak <| .element tableId (.plain lineBreak (rows pages)) <| .plain lineBreak .nil

def rootElement (title : Text) (pages : List Page) : Element := ⟨⟨Identifier.normalize title, []⟩, (table pages).content⟩

def document (title : Text) (pages : List Page) : Document := .of (rootElement title pages)

variable {title xml : Text} {pages : List Page} {p : Page}

theorem isTokenChar_or_of_mem_file {c : Char} (h : c ∈ p.file) :
    Identifier.isTokenChar c = true ∨ c = '.' := by
  cases List.mem_append.mp h
  case inl h => exact .inl (Identifier.normalize_token _ c h)
  case inr h =>
    have : ∀ c ∈ Templates.pageExtension, Identifier.isTokenChar c = true ∨ c = '.' :=
      forall_mem_of_all rfl
    exact this c h

theorem text_rows : (rows pages).text = pages.flatMap row := by
  induction pages
  case nil => rfl
  case cons p pages hi =>
    have : (rows (p :: pages)).text = row p ++ (rows pages).text := by
      simp [rows, fields, Markup.text, row, element, rowName, titleName, inputsName, outputsName, lit,
        lineBreak, lf]
    rw [this, hi, List.flatMap_cons]

theorem data_eq (h : data title pages = .ok xml) :
    xml = element (Identifier.normalize title) (table pages).text := by
  rw [data] at h
  split at h
  case isFalse => cases h
  case isTrue =>
    cases h
    simp [table, Markup.text, text_rows]

theorem isName_of_data (h : data title pages = .ok xml) : IsName (Identifier.normalize title) where
  begins := by
    rw [data] at h
    split at h
    case isFalse => cases h
    case isTrue hn =>
      rw [namesElement] at hn
      rw [Token.beginsName]
      cases hc : (Identifier.normalize title).head?
      case none => simp [hc] at hn
      case some c =>
        rw [hc] at hn
        exact Identifier.isNameStart_of_letter hn
  parts  := by
    intro c hc
    have ht := Identifier.normalize_token title c hc
    exact ⟨Identifier.isNameChar_of_isTokenChar ht, Identifier.ne_of_isTokenChar ht rfl⟩

theorem isPlain_lineBreak : IsPlain lineBreak := ⟨by decide, forall_mem_of_all rfl⟩

theorem isPlain_ofNat (n : Nat) : IsPlain (ofNat n) where
  notEmpty := Nat.toDigits_ne_nil
  plain    := by
    intro c hc
    have hd : c.isDigit = true := Nat.isDigit_of_mem_toDigits (by decide) (by decide) hc
    have ht : Identifier.isTokenChar c = true := by simp [Identifier.isTokenChar, hd]
    refine ⟨Identifier.isChar_of_isTokenChar ht, ?_⟩
    repeat' apply And.intro
    all_goals exact Identifier.ne_of_isTokenChar ht rfl

theorem well_fields (h : cr ∉ p.title) : (fields p).Well := by
  have hl : cr ∉ link p := by
    have hf : cr ∉ p.file := fun hm => (isTokenChar_or_of_mem_file hm).elim (by decide) (by decide)
    simp only [link, List.mem_append, not_or]
    exact ⟨⟨⟨⟨by decide, hf⟩, by decide⟩, h⟩, by decide⟩
  have given : link p ≠ [] := List.append_ne_nil_of_right_ne_nil _ (by decide)
  refine .plain isPlain_lineBreak rfl <| .element ⟨rfl, forall_mem_of_all rfl⟩ (.cdata given hl rfl .nil) ?_
  refine .plain isPlain_lineBreak rfl <|
    .element ⟨rfl, forall_mem_of_all rfl⟩ (.plain (isPlain_ofNat _) rfl .nil) ?_
  refine .plain isPlain_lineBreak rfl <|
    .element ⟨rfl, forall_mem_of_all rfl⟩ (.plain (isPlain_ofNat _) rfl .nil) ?_
  exact .plain isPlain_lineBreak rfl .nil

theorem well_rows (h : ∀ p ∈ pages, cr ∉ p.title) : (rows pages).Well := by
  induction pages
  case nil => exact .nil
  case cons p pages hi =>
    have hi := hi fun p hp => h p (List.mem_cons_of_mem _ hp)
    have : (rows pages).isApart = true := by cases pages <;> rfl
    exact .element ⟨rfl, forall_mem_of_all rfl⟩ (well_fields (h p List.mem_cons_self))
      (.plain isPlain_lineBreak this hi)

theorem well_table (h : ∀ p ∈ pages, cr ∉ p.title) : (table pages).Well := by
  have : (rows pages).isApart = true := by cases pages <;> rfl
  exact .plain isPlain_lineBreak rfl <|
    .element ⟨rfl, forall_mem_of_all rfl⟩ (.plain isPlain_lineBreak this (well_rows h)) <|
      .plain isPlain_lineBreak rfl .nil

def isSound (p : Page) : Bool := p.title.all isChar

theorem isSound_link : (link p).all isChar = isSound p := by
  have hf : p.file.all isChar = true := by
    refine List.all_eq_true.mpr fun c hc => ?_
    cases isTokenChar_or_of_mem_file hc
    case inl h => exact Identifier.isChar_of_isTokenChar h
    case inr h =>
      subst h
      rfl
  have h : (lit "<a href=\"").all isChar = true ∧ (lit "\">").all isChar = true ∧
      (lit "</a>").all isChar = true := by decide
  simp only [link, List.all_append, hf, h, isSound, Bool.true_and, Bool.and_true]

theorem isSound_table : (table pages).isSound = pages.all isSound := by
  have : (rows pages).isSound = pages.all isSound := by
    induction pages
    case nil => rfl
    case cons p pages hi =>
      have : (rows (p :: pages)).isSound = ((link p).all isChar && (rows pages).isSound) := by
        simp [rows, fields, Markup.isSound]
      rw [this, hi, isSound_link, List.all_cons]
  simp [table, Markup.isSound, this]

-- The data is read as the document that it was written from, unless some title holds a character that
-- no document may hold.
theorem read_data {reader : Reader} (conforms : reader.Conforms) (h : data title pages = .ok xml)
    (hp : ∀ p ∈ pages, cr ∉ p.title) :
    Document.read reader xml =
      if pages.all isSound then .ok (document title pages) else .error .malformed := by
  rw [Document.read, data_eq h, Markup.read_element conforms (isName_of_data h) (well_table hp), isSound_table]
  cases pages.all isSound <;> rfl

end WikiPages.Report
