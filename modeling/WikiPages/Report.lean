import WikiPages.Fault
import WikiPages.Page.Draft

namespace WikiPages.Report

open Text

def defaultTitle : Text := lit "WebGen report"

def specification : Text := lit "webgen-reporting-specification"

def specificationExtension : Text := lit ".wiki"

def tableId : Text := lit "_table"

-- A text as a CDATA section. The end of a section inside it is spread over two sections.
def cdata (s : Text) : Text :=
  lit "<![CDATA[" ++ replaceAll (lit "]]>") (lit "]]]]><![CDATA[>") s ++ lit "]]>"

def link (p : Page) : Text :=
  lit "<a href=\"" ++ p.file ++ lit "\">" ++ p.title ++ lit "</a>"

def element (name inside : Text) : Text :=
  lit "<" ++ name ++ lit ">" ++ inside ++ lit "</" ++ name ++ lit ">"

def row (p : Page) : Text :=
  lit "<artifact>\n"
    ++ element (lit "title") (cdata (link p)) ++ lineBreak
    ++ element (lit "data_inputs") (Text.ofNat p.inputs) ++ lineBreak
    ++ element (lit "data_outputs") (Text.ofNat p.outputs) ++ lineBreak
    ++ lit "</artifact>\n"

def namesElement (id : Text) : Bool :=
  id.head?.any fun c => isAsciiLetter c || c == '_'

def data (title : Text) (pages : List Page) : Except Fault Text :=
  let context := Identifier.normalize title
  if namesElement context then
    .ok (element context (lineBreak
      ++ element tableId (lineBreak ++ pages.flatMap row) ++ lineBreak))
  else .error (.settings (.reportTitle title))

theorem data_of_names {title : Text} (h : namesElement (Identifier.normalize title) = true)
    (pages : List Page) : ∃ xml, data title pages = .ok xml :=
  ⟨_, if_pos h⟩

end WikiPages.Report
