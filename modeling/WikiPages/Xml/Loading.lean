import WikiPages.Fault
import WikiPages.Files.Reading
import WikiPages.Xml.Document

namespace WikiPages.Xml.Document

def read (reader : Reader) (s : Text) : Except DataFault Document :=
  match reader s with
  | some d => .ok d
  | none => .error .malformed

def load (reader : Reader) (tree : FileTree) (path : Text) : Except DataFault Document :=
  match tree.readText path with
  | .ok s => read reader s
  | .error error => .error (.unreadable path error)

end WikiPages.Xml.Document
