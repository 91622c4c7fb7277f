import WikiPages.CommandLine

namespace WikiPages.Disk

open Text

def pathOf (place : Location) : String := String.ofList (Path.ofLocation place)

def names (place : Location) : IO (List Text) := do
  try
    let entries ← (← IO.FS.realPath (pathOf place)).readDir
    return entries.toList.map fun entry => entry.fileName.toList
  catch _ => return []

def found? (place : Location) : IO (Option Entry) := do
  try
    return some (.file (← IO.FS.readBinFile (pathOf place)))
  catch _ =>
    try
      let isDirectory ← (← IO.FS.realPath (pathOf place)).isDir
      return if isDirectory then some .directory else none
    catch _ => return none

def note (tree : FileTree) (place : Location) : IO FileTree := do
  match ← found? place with
  | some entry => return tree.put place entry
  | none => return tree

def visit (tree : FileTree) (path : Text) : IO FileTree := do
  let (_, tree) ←
    (Path.steps path).foldlM
      (fun (place, tree) step => do
        let place := Path.follow place step
        return (place, ← note tree place))
      (tree.start path, tree)
  return tree

def visitDirectory (tree : FileTree) (path : Text) : IO FileTree := do
  let tree ← visit tree path
  match tree.locate path with
  | .ok place => (← names place).foldlM (fun tree name => note tree (place ++ [name])) tree
  | .error _ => return tree

def start : IO FileTree := do
  let path := (← IO.currentDir).toString.toList
  visit { workingDirectory := Path.steps path } path

def survey (a : CommandLine.Arguments) (specification : Text) : IO FileTree := do
  let tree ← (a.files specification).foldlM visit (← start)
  match a.settings tree with
  | .error _ => return tree
  | .ok s =>
    let directories := CommandLine.Arguments.outputDirectory s :: s.templatesDirectory.toList
    let tree ← directories.foldlM visitDirectory tree
    match a.documents specification s tree with
    | .error _ => return tree
    | .ok documents => documents.foldlM visit tree

def save (before after : FileTree) : IO Unit :=
  after.entries.reverse.forM fun (place, entry) =>
    match entry, before.get? place with
    | .directory, none => IO.FS.createDirAll (pathOf place)
    | .directory, some _ => return
    | .file bytes, some (.file old) =>
      if bytes.data = old.data then return else IO.FS.writeBinFile (pathOf place) bytes
    | .file bytes, _ => IO.FS.writeBinFile (pathOf place) bytes

end WikiPages.Disk

namespace WikiPages.CommandLine

def usage : List String :=
  ["usage: wiki-pages [options] <specification>",
    "",
    "  -d, --dictionary <file>   what is known about input fields",
    "      --data <file>         XML data for tables, lists and selects",
    "  -t, --templates <dir>     templates that come before the bundled ones",
    "  -l, --lang <language>     the language of the pages",
    "  -c, --config <file>       settings in JSON, which the options override",
    "  -o, --out <dir>           where the pages go",
    "      --no-report           leave out the report",
    "  -h, --help                print this",
    "  -V, --version             print the version"]

def complain (message : Text) : IO Unit := IO.eprintln ("error: " ++ String.ofList message)

def Request.serve : Request → IO UInt32
  | .help => do
    usage.forM IO.println
    return 0
  | .version => do
    IO.println "wiki-pages 0.1.0"
    return 0
  | .run specification a => do
    let before ← Disk.survey a specification
    let (after, fault) := a.run specification before
    Disk.save before after
    match fault with
    | none => return 0
    | some fault =>
      complain fault.message
      return 1

end WikiPages.CommandLine

def main (arguments : List String) : IO UInt32 := do
  match WikiPages.CommandLine.read (arguments.map String.toList) with
  | .ok request => request.serve
  | .error misuse =>
    WikiPages.CommandLine.complain misuse.message
    (WikiPages.CommandLine.usage.take 1).forM IO.eprintln
    return 2
