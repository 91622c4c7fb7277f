import WikiPages.Site.Sources

namespace WikiPages.CommandLine

open Text

inductive Key where
  | dictionary
  | data
  | templates
  | language
  | settings
  | output
  deriving DecidableEq

namespace Key

def all : List Key := [dictionary, data, templates, language, settings, output]

def name : Key → Text
  | dictionary => lit "dictionary"
  | data => lit "data"
  | templates => lit "templates"
  | language => lit "lang"
  | settings => lit "config"
  | output => lit "out"

def letter? : Key → Option Char
  | dictionary => some 'd'
  | data => none
  | templates => some 't'
  | language => some 'l'
  | settings => some 'c'
  | output => some 'o'

def takes (key : Key) (value : Text) : Bool := key = language || value ≠ []

end Key

inductive Argument where
  | plain (s : Text)
  -- An option, with its value if that is part of the argument.
  | option (key : Key) (value : Option Text)
  | withoutReport
  | help
  | version
  -- What follows is plain.
  | endOfOptions
  | unknown (s : Text)
  deriving DecidableEq

namespace Argument

def ofName (s : Text) : Argument :=
  let (name, value) :=
    match splitOnce? ['='] s with
    | some (name, value) => (name, some value)
    | none => (s, none)
  match Key.all.find? (·.name = name) with
  | some key => option key value
  | none =>
    if s = lit "no-report" then withoutReport
    else if s = lit "help" then help
    else if s = lit "version" then version
    else unknown s

def attached? : Text → Option Text
  | [] => none
  | '=' :: value => some value
  | value => some value

def ofLetter (letter : Char) (rest : Text) : Argument :=
  match Key.all.find? (·.letter? = some letter) with
  | some key => option key (attached? rest)
  | none =>
    if letter = 'h' then help
    else if letter = 'V' then version
    else unknown (letter :: rest)

def ofText : Text → Argument
  | ['-', '-'] => endOfOptions
  | '-' :: '-' :: s => ofName s
  | '-' :: letter :: rest => ofLetter letter rest
  | s => plain s

end Argument

inductive Misuse where
  | noSpecification
  | noValue (key : Key)
  | givenTwice (key : Key)
  | withoutReportTwice
  | unexpected (s : Text)
  deriving DecidableEq

namespace Misuse

def message : Misuse → Text
  | noSpecification => lit "no specification is given"
  | noValue key => lit "--" ++ key.name ++ lit " needs a value"
  | givenTwice key => lit "--" ++ key.name ++ lit " is given twice"
  | withoutReportTwice => lit "--no-report is given twice"
  | unexpected s => lit "unexpected argument '" ++ s ++ lit "'"

end Misuse

structure Arguments where
  specification : Option Text := none
  values : List (Key × Text) := []
  report : Bool := true
  deriving DecidableEq

namespace Arguments

def value? (a : Arguments) (key : Key) : Option Text := a.values.lookup key

def set (a : Arguments) (key : Key) (value : Text) : Except Misuse Arguments :=
  if (a.value? key).isSome then .error (.givenTwice key)
  else if key.takes value then .ok { a with values := (key, value) :: a.values }
  else .error (.noValue key)

def place (a : Arguments) (s : Text) : Except Misuse Arguments :=
  if a.specification.isSome then .error (.unexpected s)
  else if s = [] then .error .noSpecification
  else .ok { a with specification := some s }

def dropReport (a : Arguments) : Except Misuse Arguments :=
  if a.report then .ok { a with report := false } else .error .withoutReportTwice

end Arguments

inductive Request where
  | help
  | version
  | run (specification : Text) (a : Arguments)
  deriving DecidableEq

def finish (a : Arguments) : Except Misuse Request :=
  match a.specification with
  | some specification => .ok (.run specification a)
  | none => .error .noSpecification

def readFrom (a : Arguments) : List Text → Except Misuse Request
  | [] => finish a
  | s :: rest =>
    match Argument.ofText s, rest with
    | .plain s, rest => do readFrom (← a.place s) rest
    | .option key (some value), rest => do readFrom (← a.set key value) rest
    | .option key none, value :: rest =>
      -- what looks like an option is never taken for a value
      match Argument.ofText value with
      | .plain value => do readFrom (← a.set key value) rest
      | _ => .error (.noValue key)
    | .option key none, [] => .error (.noValue key)
    | .withoutReport, rest => do readFrom (← a.dropReport) rest
    | .help, _ => .ok .help
    | .version, _ => .ok .version
    | .endOfOptions, rest => do finish (← rest.foldlM Arguments.place a)
    | .unknown s, _ => .error (.unexpected s)

def read (arguments : List Text) : Except Misuse Request := readFrom {} arguments

theorem set_eq_error_of_given {a : Arguments} {key : Key} {given : Text}
    (h : a.value? key = some given) (value : Text) :
    a.set key value = .error (.givenTwice key) := by
  simp [Arguments.set, h]

namespace Arguments

def settings (a : Arguments) (tree : FileTree) : Except Fault Settings := do
  let s ←
    match a.value? .settings with
    | some path => Settings.load tree path
    | none => .ok {}
  pure { s with
    language := (a.value? .language).getD s.language
    templatesDirectory := (a.value? .templates).or s.templatesDirectory
    outputDirectory := (a.value? .output).or s.outputDirectory }

def whenGiven (a : Arguments) (key : Key) (setup : SiteSetup)
    (step : SiteSetup → Text → Except Fault SiteSetup) : Except Fault SiteSetup :=
  match a.value? key with
  | some value => step setup value
  | none => .ok setup

def setup (a : Arguments) (specification : Text) (s : Settings) (tree : FileTree) :
    Except Fault SiteSetup := do
  let setup ← SiteSetup.readSpecification {} tree specification
  let setup ← a.whenGiven .dictionary (setup.useSettings s) (·.readDictionary tree)
  a.whenGiven .data setup (·.readData tree)

def files (a : Arguments) (specification : Text) : List Text :=
  specification :: [Key.settings, Key.dictionary, Key.data].filterMap a.value?

def outputDirectory (s : Settings) : Text := s.outputDirectory.getD Path.here

def documents (a : Arguments) (specification : Text) (s : Settings) (tree : FileTree) :
    Except Fault (List Text) := do
  let setup ← a.setup specification s tree
  pure (setup.documents (← setup.site tree))

def make (a : Arguments) (site : Site) : Except Fault Site.Output :=
  if a.report then site.output else site.pages.map fun pages => ⟨pages, []⟩

def plan (a : Arguments) (specification : Text) (tree : FileTree) :
    Except Fault (Site.Output × Text) := do
  let s ← a.settings tree
  let setup ← a.setup specification s tree
  let output ← a.make (← setup.site tree)
  pure (output, outputDirectory s)

def run (a : Arguments) (specification : Text) (tree : FileTree) : FileTree × Option Fault :=
  match a.plan specification tree with
  | .error fault => (tree, some fault)
  | .ok (output, directory) =>
    let (tree, error) := output.save directory tree
    (tree, error.map Fault.file)

theorem run_of_plan_eq_error {a : Arguments} {specification : Text} {tree : FileTree}
    {fault : Fault} (h : a.plan specification tree = .error fault) :
    a.run specification tree = (tree, some fault) := by
  simp [run, h]

end Arguments
end WikiPages.CommandLine
