import WikiPages.Fault
import WikiPages.Files.Reading
import WikiPages.Report
import WikiPages.Settings.Json
import WikiPages.TagPolicy

namespace WikiPages

open Text

structure Settings where
  language : Text := lit "en"
  templatesDirectory : Option Text := none
  reportTitle : Text := Report.defaultTitle
  -- The tags that make a piece of a page an input.
  inputTags : List Text := TagPolicy.defaultInputTags
  outputDirectory : Option Text := none
  deriving DecidableEq

namespace Settings

inductive Field where
  | language
  | templatesDirectory
  | reportTitle
  | inputTags
  | outputDirectory
  deriving DecidableEq

namespace Field

def all : List Field := [language, templatesDirectory, reportTitle, inputTags, outputDirectory]

def key : Field → Text
  | language => lit "language"
  | templatesDirectory => lit "templates_dir"
  | reportTitle => lit "report_title"
  | inputTags => lit "input_tags"
  | outputDirectory => lit "output_dir"

end Field

def text? : Json → Option Text
  | .string raw => Json.decode? raw
  | _ => none

def optional? : Json → Option (Option Text)
  | .null => some none
  | j => (text? j).map some

def texts? : Json → Option (List Text)
  | .array items => items.mapM text?
  | _ => none

def set? (s : Settings) (value : Json) : Field → Option Settings
  | .language => (text? value).map fun t => { s with language := t }
  | .templatesDirectory => (optional? value).map fun t => { s with templatesDirectory := t }
  | .reportTitle => (text? value).map fun t => { s with reportTitle := t }
  | .inputTags => (texts? value).map fun ts => { s with inputTags := ts }
  | .outputDirectory => (optional? value).map fun t => { s with outputDirectory := t }

-- The values of the fields of a table. A field must not occur twice; what is no field is passed
-- over.
def entries? : List (Text × Json) → Option (List (Field × Json))
  | [] => some []
  | (raw, value) :: rest => do
    let key ← Json.decode? raw
    let entries ← entries? rest
    -- a later entry with the key of a field has been met already, as reading goes from the end
    match Field.all.find? (·.key = key) with
    | none => some entries
    | some field =>
      if entries.any (·.1 = field) then none else some ((field, value) :: entries)

def setAll? (s : Settings) (entries : List (Field × Json)) : Option Settings :=
  entries.foldlM (fun s (field, value) => s.set? value field) s

def ofValue? : Json → Option Settings
  | .object fields => (entries? fields).bind (setAll? {})
  | .array items =>
    if items.length ≤ Field.all.length then setAll? {} (Field.all.zip items) else none
  | _ => none

def read (path : Option Text) (s : Text) : Except Fault Settings :=
  match (Json.parse? s).bind ofValue? with
  | some settings => .ok settings
  | none => .error (.settings (.invalid path))

def load (tree : FileTree) (path : Text) : Except Fault Settings :=
  match tree.readText path with
  | .ok s => read (some path) s
  | .error error => .error (.file error)

def policy (s : Settings) : TagPolicy := .ofInputTags s.inputTags

theorem ofValue?_empty : ofValue? (.object []) = some {} := rfl

end Settings
end WikiPages
