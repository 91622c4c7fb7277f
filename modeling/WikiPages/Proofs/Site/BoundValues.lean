import WikiPages.Proofs.Expansion.Sides
import WikiPages.Proofs.Expansion.Values
import WikiPages.Proofs.Page.Shape
import WikiPages.Proofs.Site.Building

namespace WikiPages.Site

open Text

variable {site : Site} {data data' : Option Xml.Document} {d d' e e' : Draft} {l title : Text} {ls written : List Text}
variable {fs fs' : List Snippet} {f f' : Snippet} {s : Section}

def onData (site : Site) (data : Option Xml.Document) : Site :=
  { site with expander := { site.expander with data } }

def KeepsSides (site : Site) (data data' : Option Xml.Document) (title l : Text) (f f' : Snippet) : Prop :=
  ∃ block template account account', Block.ofLine site.expander.fetch l = .ok block ∧
    site.expander.templates.page block.kind block.overrides = .ok template ∧
    (site.onData data).expander.Sides title block template account f ∧
    (site.onData data').expander.Sides title block template account' f'

theorem KeepsSides.hasSlot_eq (h : site.KeepsSides data data' title l f f') : f.hasSlot = f'.hasSlot := by
  have ⟨_, _, _, _, _, _, sides, sides'⟩ := h
  exact Bool.eq_iff_iff.mpr (sides.hasSlot_iff.trans sides'.hasSlot_iff.symm)

theorem Adds.alike (h : Adds (site.onData data) d l f e) (h' : Adds (site.onData data') d' l f' e') (ha : d.Alike d') :
    site.KeepsSides data data' d.title l f f' ∧ e.title = d.title ∧ e.Alike e' := by
  cases h
  case block block _ read expanded =>
    cases h'
    case block read' expanded' =>
      cases read.symm.trans read'
      have ⟨template, page, sides⟩ := Expander.exists_sides expanded
      have ⟨_, page', sides'⟩ := Expander.exists_sides expanded'
      cases page.symm.trans page'
      rw [← ha.title] at sides'
      have keeps : site.KeepsSides data data' d.title l _ _ := ⟨block, template, _, _, read, page, sides, sides'⟩
      have same ledger ledger' : ({ d with ledger } : Draft).Alike { d' with ledger := ledger' } :=
        ⟨ha.title, ha.opened, ha.shape⟩
      exact ⟨keeps, rfl, (same _ _).step _ keeps.hasSlot_eq⟩

theorem AddsAll.alike (h : AddsAll (site.onData data) d ls fs e) (h' : AddsAll (site.onData data') d' ls fs' e')
    (ha : d.Alike d') :
    List.Forall₂ (fun l pair => site.KeepsSides data data' d.title l pair.1 pair.2) ls (fs.zip fs') ∧ e.Alike e' := by
  induction h generalizing d' fs'
  case nil =>
    cases h'
    exact ⟨.nil, ha⟩
  case cons first _ hi =>
    cases h'
    case cons first' rest' =>
      have ⟨keeps, title, ha⟩ := first.alike first' ha
      have ⟨all, ha⟩ := hi rest' ha
      exact ⟨.cons keeps (title ▸ all), ha⟩

-- One page in the two runs. Its trees have the same shape, node 0 holds the same page template in both, and node
-- `i + 1` the snippets of its line `i`.
structure InStep (site : Site) (data data' : Option Xml.Document) (s : Section) (d d' : Draft) : Prop where
  title  : d.title = s.title
  title' : d'.title = s.title
  size   : d.tree.size = s.lines.length + 1
  shape  : d.tree.SameShape d'.tree
  root   : d.tree.root = d'.tree.root
  lines  : ∀ i (h : i < s.lines.length), ∃ f f',
    d.tree.snippet? (i + 1) = some f ∧ d'.tree.snippet? (i + 1) = some f' ∧
    site.KeepsSides data data' s.title s.lines[i] f f'

theorem map_steps (hl : fs.length = ls.length) : (steps ls fs).map (·.2) = fs := List.map_snd_zip (by simp [hl])

theorem inStep_of_draft (h : (site.onData data).draft s = .ok d) (h' : (site.onData data').draft s = .ok d') :
    site.InStep data data' s d d' := by
  have ⟨t, fs, ht, all, length, title, tree⟩ := exists_run h
  have ⟨t', fs', ht', all', length', title', tree'⟩ := exists_run h'
  cases ht.symm.trans ht'
  have start title page : (Draft.start title page).Alike (.start title page) :=
    ⟨rfl, rfl, rfl, fun _ => rfl, fun _ => rfl⟩
  have ⟨keeps, alike⟩ := all.alike all' (start _ _)
  refine ⟨title, title', ?_, alike.shape, ?_, fun i hi => ?_⟩
  · rw [tree, Draft.size_run, ← length, ← List.length_map (f := (·.2)), map_steps length]
  · rw [tree, tree', Draft.root_run, Draft.root_run]
    rfl
  · refine ⟨fs[i], fs'[i], ?_, ?_, ?_⟩
    · rw [tree, Draft.snippet?_run, map_steps length, List.getElem?_cons_succ, List.getElem?_eq_getElem]
    · rw [tree', Draft.snippet?_run, map_steps length', List.getElem?_cons_succ, List.getElem?_eq_getElem]
    · have := keeps.get hi (by simp [length, length', hi])
      simpa [Draft.start] using this

-- Whatever values are bound, and be they slots, the pages that come of it have trees of the same shape, with the
-- same lines in the same nodes.
theorem bound_values_move_nothing {drafts drafts' : List Draft}
    (h : written.foldlM (site.onData data).line [] = .ok drafts)
    (h' : written.foldlM (site.onData data').line [] = .ok drafts') :
    drafts.length = (sections written).length ∧ drafts'.length = (sections written).length ∧
      List.Forall₂ (fun s pair => site.InStep data data' s pair.1 pair.2) (sections written)
        (drafts.reverse.zip drafts'.reverse) := by
  rw [foldlM_line_nil] at h h'
  have ⟨made, hm, hd⟩ := exists_of_map (f := List.reverse) h
  have ⟨made', hm', hd'⟩ := exists_of_map (f := List.reverse) h'
  have each := forall₂_of_mapM hm
  have each' := forall₂_of_mapM hm'
  rw [← hd, ← hd', List.length_reverse, List.length_reverse, List.reverse_reverse, List.reverse_reverse]
  exact ⟨each.length_eq.symm, each'.length_eq.symm,
    (forall₂_zip_of each each').imp fun _ _ ⟨first, second⟩ => inStep_of_draft first second⟩

def boxed : Site where
  specification := []
  expander      :=
    { templates := Cabinet.templates {}
        [.memory [(lit "web-page.html", Hole.content), (lit "_default.html", Hole.content),
          (lit "box.html", lit "<p>$\x7bdata\x7d</p>\n$\x7bcontent\x7d\n<i>$\x7bdata\x7d</i>")]]
      fetch     := fun _ => .error (.data .malformed)
      policy    := default }
  language      := lit "en"
  reportTitle   := lit "Report"

def nestedBox : List Text := [lit "== Main", lit "\x7bbox Visitors\x7d", lit "* Nested"]

def boxDrafts (value : String) : Except Fault (List Draft) :=
  nestedBox.foldlM (boxed.onData (some (Expander.visits value))).line []

theorem exists_boxDrafts {value : String} {contents : List Text}
    (h : (boxDrafts value).toOption.map (·.map (·.finish.content)) = some contents) :
    ∃ drafts, boxDrafts value = .ok drafts ∧ drafts.map (·.finish.content) = contents := by
  cases hd : boxDrafts value
  case error =>
    rw [hd] at h
    cases h
  case ok drafts =>
    rw [hd] at h
    exact ⟨drafts, rfl, Option.some.inj h⟩

theorem bound_values_move_nothing_slot :
    ∃ drafts drafts', boxDrafts "57" = .ok drafts ∧ boxDrafts "$\x7bcontent\x7d" = .ok drafts' ∧
      drafts.map (·.finish.content) = [lit "<p>57</p>\nNested\n<i>57</i>"] ∧
      drafts'.map (·.finish.content) = [lit "<p></p>\nNested\n<i></i>"] ∧
      List.Forall₂ (fun s pair => boxed.InStep (some (Expander.visits "57"))
        (some (Expander.visits "$\x7bcontent\x7d")) s pair.1 pair.2)
        (sections nestedBox) (drafts.reverse.zip drafts'.reverse) := by
  have shown : (boxDrafts "57").toOption.map (·.map (·.finish.content)) =
      some [lit "<p>57</p>\nNested\n<i>57</i>"] := by decide +kernel
  have stripped : (boxDrafts "$\x7bcontent\x7d").toOption.map (·.map (·.finish.content)) =
      some [lit "<p></p>\nNested\n<i></i>"] := by decide +kernel
  have ⟨drafts, h, shown⟩ := exists_boxDrafts shown
  have ⟨drafts', h', stripped⟩ := exists_boxDrafts stripped
  have ⟨_, _, all⟩ := bound_values_move_nothing h h'
  exact ⟨drafts, drafts', h, h', shown, stripped, all⟩

end WikiPages.Site
