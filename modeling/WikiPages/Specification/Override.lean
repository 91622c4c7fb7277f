import WikiPages.Template.Substitution
import WikiPages.Text.Word

namespace WikiPages.Override

open Text

def dataKey : Text := lit "XML"

def isParenthesis (c : Char) : Bool := c == '(' || c == ')'

def pair? (s : Text) : Option (Text × Text) :=
  (splitOnce? ['='] s).map fun (key, value) => (trim key, trim value)

-- The pairs between parentheses and commas, in order. What has no `=` is passed over.
def pairs (s : Text) : List (Text × Text) :=
  ((splitWhere isParenthesis s).flatMap (split ',')).filterMap pair?

def locator? (pairs : List (Text × Text)) : Option Text :=
  (pairs.reverse.find? (·.1 = dataKey)).map (·.2)

def values (pairs : List (Text × Text)) : List (Text × Text) :=
  pairs.filter fun (key, _) => key ≠ [] ∧ key ≠ dataKey

-- The run of parenthesized groups that begins a text, and the text behind it. A group that is not
-- closed goes on to the end.
def groups (inside : Bool) : Text → Text × Text
  | [] => ([], [])
  | c :: s =>
    if inside then
      let (run, rest) := groups (c ≠ ')') s
      (c :: run, rest)
    else if c = '(' then
      let (run, rest) := groups true s
      (c :: run, rest)
    else ([], c :: s)

theorem groups_append (inside : Bool) (s : Text) :
    (groups inside s).1 ++ (groups inside s).2 = s := by
  induction s generalizing inside
  case nil => rfl
  case cons c s hi =>
    unfold groups
    split
    · simp [hi]
    · split
      · simp [hi]
      · rfl

def isWord (word : Text) : Bool :=
  match splitOnce? ['='] word with
  | some (c :: name, value) =>
    isAsciiLetter c && name.all (fun c => isWordChar c || c == '-')
      && value.all (fun c => c != '=' && !isBlank c)
  | _ => false

-- A title without the override words at its end, and the pairs of those words, last word first.
-- Words of the title that remain are then one blank apart.
def splitTitle (title : Text) : Text × List (Text × Text) :=
  let (last, first) := (words title).reverse.span isWord
  if last = [] then (title, [])
  else (join [' '] first.reverse, pairs (join [','] last))

end WikiPages.Override
