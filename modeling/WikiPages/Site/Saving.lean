import WikiPages.Files.Tree
import WikiPages.Site.Basic

namespace WikiPages.Site

def writePages (directory : Text) (tree : FileTree) : List Page → FileTree × Option FileError
  | [] => (tree, none)
  | p :: rest =>
    let path := Path.join directory p.file
    match tree.write path p.content with
    | .error fault => (tree, some (.writing path fault))
    | .ok tree => writePages directory tree rest

def savePages (directory : Text) (tree : FileTree) (pages : List Page) :
    FileTree × Option FileError :=
  match tree.makeDirectories directory with
  | .error fault => (tree, some (.creating directory fault))
  | .ok tree => writePages directory tree pages

def Output.save (o : Output) (directory : Text) (tree : FileTree) : FileTree × Option FileError :=
  match savePages directory tree o.pages with
  | (tree, some error) => (tree, some error)
  | (tree, none) => savePages directory tree o.reports

theorem writePages_append (directory : Text) (tree : FileTree) (front back : List Page) :
    writePages directory tree (front ++ back) =
      match writePages directory tree front with
      | (tree, some error) => (tree, some error)
      | (tree, none) => writePages directory tree back := by
  induction front generalizing tree
  case nil => rfl
  case cons p front hi =>
    simp only [List.cons_append, writePages]
    cases tree.write (Path.join directory p.file) p.content
    case error => rfl
    case ok tree => exact hi tree

end WikiPages.Site
