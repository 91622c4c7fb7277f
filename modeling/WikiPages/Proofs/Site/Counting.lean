import WikiPages.Proofs.Expansion.Counting
import WikiPages.Proofs.Menu.Filling
import WikiPages.Proofs.Site.Building

namespace WikiPages

open Text

namespace Expander

variable (e : Expander)

-- The outputs of a line. They are those of its block, for which its data is left out here.
def lineOutputs (l : Text) : Nat := e.outputsOf (.withData (.parse l) none)

def lineInputs (l : Text) (f : Snippet) : Nat :=
  (e.fieldsOf (.withData (.parse l) none)).length + if e.policy.isInput f.text then 1 else 0

structure PlainLine (l : Text) : Prop where
  said   : (Directive.parse l).Lacks '$'
  data   : e.PlainData (.parse l)
  fields : ∀ p ∈ e.fieldsOf (.withData (.parse l) none), e.PlainData (e.inputDirective p)

end Expander

namespace Site

variable {site : Site} {d d' : Draft} {l : Text} {ls : List Text} {f : Snippet} {fs : List Snippet}

section

variable (orderly : site.expander.Orderly)

include orderly

theorem Adds.counts (hl : site.expander.PlainLine l) (h : Adds site d l f d') :
    d'.ledger.outputs = d.ledger.outputs + site.expander.lineOutputs l ∧
      d'.ledger.inputs = d.ledger.inputs + site.expander.lineInputs l f := by
  cases h
  case block block ledger read expanded =>
    obtain ⟨data, rfl, hd⟩ := Block.exists_withData hl.data read
    have ⟨_, inputs, outputs⟩ := Expander.counts_expand orderly (hl.said.withData hd) hl.fields _ _ _ expanded
    rw [Expander.lineInputs, ← Nat.add_assoc]
    split
    case isTrue => exact ⟨outputs, congrArg (· + 1) inputs⟩
    case isFalse => exact ⟨outputs, inputs⟩

theorem AddsAll.counts (hl : ∀ l ∈ ls, site.expander.PlainLine l) (h : AddsAll site d ls fs d') :
    d'.ledger.outputs = d.ledger.outputs + (ls.map site.expander.lineOutputs).sum ∧
      d'.ledger.inputs = d.ledger.inputs + (List.zipWith site.expander.lineInputs ls fs).sum := by
  induction h
  case nil => exact ⟨rfl, rfl⟩
  case cons first _ hi =>
    have ⟨here, later⟩ := List.forall_mem_cons.mp hl
    have ⟨outputs, inputs⟩ := first.counts orderly here
    have ⟨outputs', inputs'⟩ := hi later
    rw [List.map_cons, List.zipWith_cons_cons, List.sum_cons, List.sum_cons]
    omega

omit orderly

-- What a page and its account say of the lines of a section. The outputs are the same whatever the data.
structure Counted (site : Site) (s : Section) (p : Page) : Prop where
  title   : p.title = s.title
  outputs : ∀ fetch data,
              p.outputs = (s.lines.map ({ site.expander with fetch, data } : Expander).lineOutputs).sum
  inputs  : ∃ start fs d, site.startDraft s.title = .ok start ∧ AddsAll site start s.lines fs d ∧
              p.inputs = (List.zipWith site.expander.lineInputs s.lines fs).sum

include orderly

theorem counted_finish {s : Section} (hl : ∀ l ∈ s.lines, site.expander.PlainLine l) (h : site.draft s = .ok d)
    (content : Text) : Counted site s { d.finish with content } := by
  have ⟨start, hs, h⟩ := exists_of_bind h
  have ⟨fs, all⟩ := exists_addsAll h
  have ⟨t, _, started⟩ := exists_template hs
  have ⟨outputs, inputs⟩ := all.counts orderly hl
  have title := all.title_eq
  rw [started] at outputs inputs title
  exact ⟨title, fun _ _ => outputs.trans (Nat.zero_add _), start, fs, d, hs, all, inputs.trans (Nat.zero_add _)⟩

-- The pages show what their lines show in all, and take in what they take in.
theorem pages_counted {pages : List Page}
    (plain : ∀ s ∈ sections (lines site.specification), ∀ l ∈ s.lines, site.expander.PlainLine l)
    (h : site.pages = .ok pages) : List.Forall₂ (Counted site) (sections (lines site.specification)) pages := by
  have ⟨raw, hr, h⟩ := exists_of_bind h
  have ⟨filled, hf, h⟩ := exists_of_bind h
  cases h
  rw [rawPages_eq] at hr
  have ⟨drafts, hd, hr⟩ := exists_of_map hr
  rw [← hr] at hf
  have kept := List.forall₂_map_left_iff.mp (Menu.forall₂_fillAll hf)
  have built := (List.forall₂_and_left _ _).mpr ⟨plain, forall₂_comp (forall₂_of_mapM hd) kept⟩
  refine List.forall₂_map_right_iff.mpr (built.imp fun s p ⟨hl, d, hs, hp⟩ => ?_)
  rw [hp]
  exact counted_finish orderly hl hs _

end

def asked : Site where
  specification := lit "== Home\n\x7bform Ask|Name|Mail\x7d\n* \x7baction Go\x7d\n\x7btable Sums|A|B\x7d"
  expander      :=
    { templates := Cabinet.templates {} Cabinet.bundled
      fetch     := fun _ => .error (.data .malformed)
      policy    := default }
  language      := lit "en"
  reportTitle   := lit "Report"

def askedSection : Section where
  title := lit "Home"
  lines := [lit "\x7bform Ask|Name|Mail\x7d", lit "* \x7baction Go\x7d", lit "\x7btable Sums|A|B\x7d"]

theorem pages_counted_asked : ∃ p, asked.pages = .ok [p] ∧ p.inputs = 3 ∧ p.outputs = 2 ∧
    Counted asked askedSection p := by
  have counts : asked.pages.toOption.map (·.map fun p => (p.inputs, p.outputs)) = some [(3, 2)] := by
    decide +kernel
  have all : sections (lines asked.specification) = [askedSection] := by rfl
  have unnamed (d : Directive) : asked.expander.PlainData d := nofun
  have plain : ∀ s ∈ sections (lines asked.specification), ∀ l ∈ s.lines, asked.expander.PlainLine l := by
    have said : ∀ l ∈ askedSection.lines, (Directive.parse l).Lacks '$' := by decide
    rw [all]
    exact List.forall_mem_singleton.mpr fun l hl => ⟨said l hl, unnamed _, fun _ _ => unnamed _⟩
  have orderly : asked.expander.Orderly := Expander.orderly_of_bundled rfl nofun nofun
  cases pages : asked.pages
  case error =>
    rw [pages] at counts
    cases counts
  case ok made =>
    have counted := pages_counted orderly plain pages
    rw [all] at counted
    cases counted
    case cons p made first rest =>
      cases rest
      rw [pages] at counts
      have ⟨inputs, outputs⟩ := Prod.mk.inj (List.cons.inj (Option.some.inj counts)).1
      exact ⟨p, rfl, inputs, outputs, first⟩

end Site
end WikiPages
