import WikiPages.Files.Tree
import WikiPages.Text.Lines

namespace WikiPages.FileTree

def readAll (tree : FileTree) (path : Text) : Except FileFault Text := do
  readEntry (← tree.entryAt path)

def extract (bytes : ByteArray) : Except FileFault Text :=
  (readEntry (.file bytes)).map Text.dropFinalBreak

-- The text of a file, without a line break at the end. The error names the file only when the file
-- could not be opened.
def readText (tree : FileTree) (path : Text) : Except FileError Text :=
  match tree.entryAt path with
  | .error fault => .error (.opening path fault)
  | .ok entry =>
    match readEntry entry with
    | .error fault => .error (.reading fault)
    | .ok s => .ok (Text.dropFinalBreak s)

end WikiPages.FileTree
