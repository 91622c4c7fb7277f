import WikiPages.Cleanup
import WikiPages.Expansion
import WikiPages.Menu
import WikiPages.Report
import WikiPages.Specification.Line
import WikiPages.Xml.Reader

namespace WikiPages

open Text

structure Site where
  specification : Text
  expander : Expander
  language : Text
  reportTitle : Text
  reader : Xml.Reader := Xml.Document.parse?

namespace Site

def pageTemplate : Text := lit "web-page"

def pageValues (language title : Text) : Substitution :=
  Substitution.ofList [(lit "lang", language), (lit "title", title)]

def startDraft (site : Site) (title : Text) : Except Fault Draft :=
  ((site.expander.templates.page pageTemplate (pageValues site.language title)).map fun s =>
    Draft.start title (Snippet.ofTemplate s)).mapError Fault.ofTemplate

def addBlock (site : Site) (draft : Draft) (block : Block) : Except Fault Draft :=
  match (site.expander.expand draft.title block).run.run draft.ledger with
  | (.error fault, _) => .error fault
  | (.ok snippet, ledger) =>
    -- the snippet by itself, without what will nest in it
    let ledger :=
      if site.expander.policy.isInput snippet.text then ledger.countInput else ledger
    .ok ({ draft with ledger }.insert snippet)

def addLine (site : Site) (draft : Draft) (line : Text) : Except Fault Draft := do
  let block ← Block.ofLine site.expander.fetch line
  site.addBlock (draft.enter (.ofNat (Line.level line))) block

-- The drafts, latest first, with a line. Lines before the first heading are passed over.
def line (site : Site) (drafts : List Draft) (written : Text) : Except Fault (List Draft) :=
  match Line.heading? written, drafts with
  | some title, drafts => (site.startDraft title).map (· :: drafts)
  -- there is no page yet that could hold the line
  | none, [] => .ok []
  | none, draft :: drafts =>
    if allBlank written then .ok (draft :: drafts)
    else (site.addLine draft written).map (· :: drafts)

def rawPages (site : Site) (written : List Text) : Except Fault (List Page) :=
  (written.foldlM site.line []).map fun drafts => drafts.reverse.map Draft.finish

def pages (site : Site) : Except Fault (List Page) := do
  let raw ← site.rawPages (lines site.specification)
  let filled ← Menu.fillAll site.expander.templates raw
  pure (filled.map fun p => { p with content := Cleanup.clean p.content })

def reportSite (site : Site) (pages : List Page) : Except Fault Site := do
  let xml ← Report.data site.reportTitle pages
  let values := Substitution.ofList [(lit "title", site.reportTitle)]
  let specification ←
    (site.expander.templates.fill Report.specification Report.specificationExtension
      values).mapError Fault.ofTemplate
  let data ← (Xml.Document.read site.reader xml).mapError Fault.data
  pure { site with
    specification
    expander := { site.expander with dictionary := {}, data := some data } }

def report (site : Site) (pages : List Page) : Except Fault (List Page) := do
  (← site.reportSite pages).pages

structure Output where
  pages : List Page
  reports : List Page

def output (site : Site) : Except Fault Output := do
  let pages ← site.pages
  let reports ← site.report pages
  pure { pages, reports }

theorem rawPages_of_no_heading {site : Site} {written : List Text}
    (h : ∀ l ∈ written, Line.heading? l = none) : site.rawPages written = .ok [] := by
  have : written.foldlM site.line [] = .ok [] := by
    induction written
    case nil => rfl
    case cons l written hi =>
      have hl : site.line [] l = .ok [] := by simp [line, h l]
      rw [List.foldlM_cons, hl]
      exact hi fun l hl => h l (List.mem_cons_of_mem _ hl)
  simp [rawPages, this, Except.map]

end Site
end WikiPages
