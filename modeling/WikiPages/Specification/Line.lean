import WikiPages.Text.Blank
import WikiPages.Text.Scan

namespace WikiPages.Line

open Text

def headingMark : Text := lit "=="

def heading? (line : Text) : Option Text :=
  match headingMark.isPrefixOf? (trimStart line) with
  | some (c :: _) => if c = '=' then none else some (trim (replaceAll headingMark [] line))
  | _ => none

def isMarker (c : Char) : Bool := c == '*' || c == '#'

-- How deep a line nests: the number of markers at its start, between which there may be blanks.
def level (line : Text) : Nat :=
  ((line.takeWhile fun c => c == ' ' || isMarker c).filter isMarker).length

def withoutMarkers (line : Text) : Text :=
  line.dropWhile fun c => c == ' ' || c == '\t' || isMarker c

end WikiPages.Line
