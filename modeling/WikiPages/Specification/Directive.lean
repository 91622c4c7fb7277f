import WikiPages.Specification.Line
import WikiPages.Specification.Parameter
import WikiPages.Text.Lines

namespace WikiPages

structure Directive where
  kind : Text
  title : Text := []
  overrides : Substitution := {}
  -- The data that the directive names.
  locator : Option Text := none
  parameters : List Parameter := []
  deriving DecidableEq

namespace Directive

open Text

def freeKind : Text := lit "_default"

structure Head where
  kind : Text
  groups : Text
  title : Text

namespace Head

-- The kind ends at the first blank or parenthesis, and groups begin only at a parenthesis that ends
-- the kind.
def read (head : Text) : Head :=
  let kind := head.takeWhile fun c => !isBlank c && c != '('
  let rest := Override.groups false (head.drop kind.length)
  ⟨kind, rest.1, trim rest.2⟩

end Head

def kindOrFree (kind : Text) : Text := if kind = [] then freeKind else kind

def ofParts (body trailing : Text) : Directive :=
  let parts := (splitOnce? ['|'] body).getD (body, [])
  let head := Head.read (trim parts.1)
  let pairs := Override.pairs head.groups
  let title := Override.splitTitle head.title
  { kind := kindOrFree head.kind
    title := title.1
    overrides := Substitution.ofList (Override.values (pairs ++ title.2))
    locator := (Override.locator? pairs).or (Override.locator? title.2)
    parameters := Parameter.list parts.2 ++ Parameter.list trailing }

def ofFreeText (line : Text) : Directive :=
  { kind := freeKind, parameters := Parameter.list (Line.withoutMarkers line) }

def inside? (s : Text) : Option (Text × Text) :=
  (splitOnce? ['}'] s).filter fun (body, trailing) => body ≠ [] ∧ lf ∉ trailing

-- The last braces of a line that hold something, up to their first closing brace. They open on the
-- first line of the text and close on its last.
def braces? : Text → Option (Text × Text)
  | [] => none
  | c :: s =>
    if c = lf then none
    else
      -- braces further right win
      match braces? s with
      | some parts => some parts
      | none => if c = '{' then inside? s else none

def parse (line : Text) : Directive :=
  match braces? line with
  | some (body, trailing) => ofParts body trailing
  | none => ofFreeText line

theorem kindOrFree_ne_nil (kind : Text) : kindOrFree kind ≠ [] := by
  unfold kindOrFree
  split
  · decide
  · assumption

theorem kind_ne_nil (line : Text) : (parse line).kind ≠ [] := by
  unfold parse
  split
  · exact kindOrFree_ne_nil _
  · exact show freeKind ≠ [] by decide

end Directive
end WikiPages
