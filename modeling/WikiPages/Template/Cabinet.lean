import WikiPages.Template.Bundled
import WikiPages.Template.Substitution
import WikiPages.Identifier.Basic
import WikiPages.Text.Lines

namespace WikiPages

inductive TemplateFault where
  | missing (file : Text)
  | unreadable (file : Text) (fault : ShelfFault)
  deriving DecidableEq

namespace TemplateFault

def message : TemplateFault → Text
  | missing file => Text.lit "Template resource not found: " ++ file
  | unreadable file fault =>
    Text.lit "Failed to load template '" ++ file ++ Text.lit "': " ++ fault.message

end TemplateFault

structure Templates where
  text : (name extension : Text) → Except TemplateFault Text
  has : (name extension : Text) → Bool

namespace Templates

def pageExtension : Text := Text.lit ".html"

def fill (templates : Templates) (name extension : Text) (values : Substitution) :
    Except TemplateFault Text :=
  (templates.text name extension).map values.apply

def page (templates : Templates) (name : Text) (values : Substitution) :
    Except TemplateFault Text :=
  templates.fill name pageExtension values

def hasPage (templates : Templates) (name : Text) : Bool := templates.has name pageExtension

end Templates

abbrev Cabinet := List Shelf

namespace Cabinet

def fileName (name extension : Text) : Text := Identifier.normalize name ++ extension

def find (tree : FileTree) (file : Text) : Cabinet → Except TemplateFault Text
  | [] => .error (.missing file)
  | shelf :: shelves =>
    if shelf.has tree file then
      match shelf.load tree file with
      | .ok text => .ok (Text.dropFinalBreak text)
      | .error fault =>
        if fault.isAbsence then find tree file shelves else .error (.unreadable file fault)
    else find tree file shelves

def has (tree : FileTree) (file : Text) (shelves : Cabinet) : Bool :=
  shelves.any (·.has tree file)

def templates (tree : FileTree) (shelves : Cabinet) : Templates where
  text name extension := find tree (fileName name extension) shelves
  has name extension := has tree (fileName name extension) shelves

def bundled : Cabinet := [Shelf.bundled]

def withDirectory (tree : FileTree) (base : Text) : Cabinet :=
  Shelf.ofDirectory tree base :: bundled

theorem find_of_has_eq_false {tree : FileTree} {file : Text} {shelves : Cabinet}
    (h : has tree file shelves = false) : find tree file shelves = .error (.missing file) := by
  induction shelves
  case nil => rfl
  case cons shelf shelves hi =>
    simp only [has, List.any_cons, Bool.or_eq_false_iff] at h
    simp only [find, h.1, Bool.false_eq_true, ↓reduceIte]
    exact hi (by simpa [has] using h.2)

end Cabinet
end WikiPages
