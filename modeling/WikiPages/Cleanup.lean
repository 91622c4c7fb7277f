import WikiPages.Template.Hole
import WikiPages.Text.Lines

namespace WikiPages.Cleanup

open Text

def emptyHeading : Pattern Unit := fun s => do
  let rest ← (lit "<h2").isPrefixOf? s
  let (inside, rest) ← splitOnce? ['>'] rest
  let _ ← (lit "</h2>").isPrefixOf? rest
  some ((), inside.length + 9)

def emptyWrapper : Pattern Unit := fun s =>
  ((Pattern.exactly (lit "<legend></legend>") s).or
    (Pattern.exactly (lit "<caption></caption>") s)).or (emptyHeading s)

def dropEmptyWrappers (s : Text) : Text := emptyWrapper.replace (fun _ => []) s

def isNameChar (c : Char) : Bool := c.isLower || c == '-' || c == '_'

def emptyAttribute : Pattern Unit := fun s =>
  let blanks := s.takeWhile isBlank
  let rest := s.dropWhile isBlank
  let name := rest.takeWhile isNameChar
  ((lit "=\"\"").isPrefixOf? (rest.dropWhile isNameChar)).map fun _ =>
    ((), blanks.length + name.length + 3)

def dropEmptyAttributes (s : Text) : Text := emptyAttribute.replace (fun _ => []) s

def headStart : Text := lit "<head>"

def headEnd : Text := lit "</head>"

def headSection : Pattern Text := fun s => do
  let rest ← headStart.isPrefixOf? s
  let (inside, _) ← splitOnce? headEnd rest
  some (inside, headStart.length + inside.length + headEnd.length)

def headLines (inside : Text) : List Text := ((split lf inside).map trim).filter (· ≠ [])

def newLines (seen : List Text) : List Text → List Text
  | [] => []
  | line :: rest =>
    if line ∈ seen then newLines seen rest else line :: newLines (line :: seen) rest

def addLine (s line : Text) : Text :=
  (if s.getLast? = some lf then s else s ++ lineBreak) ++ line ++ lineBreak

def mergedHead (first : Text) (others : List Text) : Text :=
  (newLines (headLines first) (others.flatMap headLines)).foldl addLine (headStart ++ first)
    ++ headEnd

-- The pieces of a page with `head` in place of the first head section and nothing in place of the
-- others.
def replaceHeads (head : Text) : List (Piece Text) → Text
  | [] => []
  | .char c :: rest => c :: replaceHeads head rest
  | .found _ :: rest => head ++ replaceHeads [] rest

def mergeHeads (s : Text) : Text :=
  match headSection.finds s with
  | first :: second :: others =>
    -- with a single head section there is nothing to merge, and its lines stay as they are
    replaceHeads (mergedHead first (second :: others)) (headSection.cut s)
  | _ => s

def clean (s : Text) : Text := mergeHeads (dropEmptyAttributes (dropEmptyWrappers s))

theorem not_mem_newLines {seen lines : List Text} {line : Text} (h : line ∈ seen) :
    line ∉ newLines seen lines := by
  induction lines generalizing seen
  case nil => simp [newLines]
  case cons l lines hi =>
    unfold newLines
    split
    case isTrue => exact hi h
    case isFalse hl =>
      rw [List.mem_cons, not_or]
      exact ⟨fun e => hl (e ▸ h), hi (List.mem_cons_of_mem _ h)⟩

end WikiPages.Cleanup
