import WikiPages.Dictionary
import WikiPages.Settings.Basic
import WikiPages.Site.Saving

namespace WikiPages

open Text

structure SiteSetup where
  specification : Option Text := none
  dictionary : Dictionary := {}
  data : Option Xml.Document := none
  -- Templates that take the place of all others.
  templates : Option Templates := none
  templatesDirectory : Option Text := none
  -- Where locators that are not absolute are seen from.
  base : Option Text := none
  language : Text := lit "en"
  reportTitle : Text := Report.defaultTitle
  policy : TagPolicy := default
  reader : Xml.Reader := Xml.Document.parse?

namespace SiteSetup

-- Takes the specification from a file. Its directory becomes the base unless there is one.
def readSpecification (setup : SiteSetup) (tree : FileTree) (path : Text) :
    Except Fault SiteSetup :=
  match tree.readText path with
  | .ok s => .ok { setup with specification := some s, base := setup.base.or (Path.parent? path) }
  | .error error => .error (.file error)

def readDictionary (setup : SiteSetup) (tree : FileTree) (path : Text) : Except Fault SiteSetup :=
  match tree.readText path with
  | .ok s => .ok { setup with dictionary := Dictionary.parse s }
  | .error error => .error (.file error)

def parseData (setup : SiteSetup) (xml : Text) : Except Fault SiteSetup :=
  ((Xml.Document.read setup.reader xml).map fun d => { setup with data := some d }).mapError Fault.data

def readData (setup : SiteSetup) (tree : FileTree) (path : Text) : Except Fault SiteSetup :=
  ((Xml.Document.load setup.reader tree path).map fun d => { setup with data := some d }).mapError Fault.data

def useSettings (setup : SiteSetup) (s : Settings) : SiteSetup :=
  { setup with
    language := s.language
    reportTitle := s.reportTitle
    policy := s.policy
    templatesDirectory := s.templatesDirectory.or setup.templatesDirectory }

def chooseTemplates (setup : SiteSetup) (tree : FileTree) : Except Fault Templates :=
  match setup.templates, setup.templatesDirectory with
  | some templates, _ => .ok templates
  | none, some directory =>
    if tree.isDirectory directory then
      .ok (Cabinet.templates tree (Cabinet.withDirectory tree directory))
    else .error (.settings (.noTemplateDirectory directory))
  | none, none => .ok (Cabinet.templates tree Cabinet.bundled)

def site (setup : SiteSetup) (tree : FileTree) : Except Fault Site :=
  match setup.specification with
  | none => .error (.settings .noSpecification)
  | some specification => do
    let templates ← setup.chooseTemplates tree
    pure
      { specification
        expander :=
          { templates, dictionary := setup.dictionary, fetch := Block.fetchFrom setup.reader tree setup.base
            policy := setup.policy, data := setup.data }
        language := setup.language
        reportTitle := setup.reportTitle
        reader := setup.reader }

theorem site_eq_error_of_no_specification {setup : SiteSetup} (h : setup.specification = none)
    (tree : FileTree) : setup.site tree = .error (.settings .noSpecification) := by
  simp [site, h]

end SiteSetup
end WikiPages
