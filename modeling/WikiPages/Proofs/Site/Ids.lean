import WikiPages.Proofs.Expansion.Issuing
import WikiPages.Proofs.Html.Cleaning
import WikiPages.Proofs.Menu.Ids
import WikiPages.Proofs.Page.Ids
import WikiPages.Proofs.Site.Building

namespace WikiPages

open Text Html

namespace Expander

variable {e : Expander} {l : Text} {p : Parameter}

-- A line without marks that names no data, itself or for its fields.
structure Simple (e : Expander) (l : Text) : Prop where
  said   : ∀ c ∈ marks, (Directive.parse l).Lacks c ∧ ∀ p ∈ (Directive.parse l).parameters, c ∉ p.raw
  data   : (Directive.parse l).locator = none
  fields : ∀ p ∈ e.fieldsOf (.withData (.parse l) none), (e.inputDirective p).locator = none

structure KeepsIds (e : Expander) (l : Text) : Prop where
  line   : (Directive.parse l).overrides.lookup (lit "id") = none
  fields : ∀ p ∈ e.fieldsOf (.withData (.parse l) none), (e.fieldOverrides p).lookup (lit "id") = none

theorem Simple.signs (h : e.Simple l) (hl : lf ∉ l) :
    ∀ c ∈ signs, (Directive.parse l).Lacks c ∧ ∀ p ∈ (Directive.parse l).parameters, c ∉ p.raw :=
  List.forall_mem_cons.mpr ⟨Directive.lacks_parse hl (by decide), h.said⟩

theorem mem_parameters_of_mem_fieldsOf {d : Directive} (h : p ∈ e.fieldsOf (.withData d none)) : p ∈ d.parameters := by
  rw [fieldsOf] at h
  split at h
  case isTrue => exact h
  case isFalse => cases h

end Expander

namespace Site

variable {site : Site} {tree : FileTree} {d d' : Draft} {l : Text} {ls : List Text} {f : Snippet} {fs : List Snippet}
variable {s : Section} {written : List Text}

-- What is issued an id on the page of a section.
def componentsOf (site : Site) (ls : List Text) : List Component :=
  ls.flatMap fun l => site.expander.components (.withData (.parse l) none)

structure Simple (site : Site) : Prop where
  templates  : ∃ tree, site.expander.templates = Cabinet.templates tree Cabinet.bundled
  data       : site.expander.data = none
  dictionary : site.expander.dictionary = {}
  titles     : ∀ s ∈ sections (lines site.specification), ∀ c ∈ marks, c ∉ s.title
  contents   : ∀ s ∈ sections (lines site.specification), ∀ l ∈ s.lines, site.expander.Simple l

def HeadingsApart (site : Site) (s : Section) : Prop :=
  ∀ id ∈ Component.headingsFrom {} (site.componentsOf s.lines), id ∉ Component.idsFrom {} (site.componentsOf s.lines)

instance {site : Site} {s : Section} : Decidable (site.HeadingsApart s) :=
  inferInstanceAs (Decidable (∀ id ∈ Component.headingsFrom {} (site.componentsOf s.lines), id ∉ _))

theorem mem_of_mem_sections (h : s ∈ sections written) :
    (∃ l ∈ written, Line.heading? l = some s.title) ∧ s.lines ⊆ written := by
  induction written
  case nil => cases h
  case cons l written hi =>
    have later (h : s ∈ sections written) :
        (∃ line ∈ l :: written, Line.heading? line = some s.title) ∧ s.lines ⊆ l :: written := by
      have ⟨⟨line, hl, title⟩, lines⟩ := hi h
      exact ⟨⟨line, List.mem_cons_of_mem l hl, title⟩, List.Subset.trans lines (List.subset_cons_self l written)⟩
    rw [sections] at h
    split at h
    case h_2 => exact later h
    case h_1 title heading =>
      rcases List.mem_cons.mp h with rfl | h
      · have below : below written ⊆ written :=
          List.Subset.trans (List.filter_subset_self _) (List.takeWhile_prefix _).subset
        exact ⟨⟨l, List.mem_cons_self, heading⟩, List.Subset.trans below (List.subset_cons_self l written)⟩
      · exact later h

theorem lf_free_of_mem_sections {specification : Text} (h : s ∈ sections (lines specification)) :
    lf ∉ s.title ∧ ∀ l ∈ s.lines, lf ∉ l := by
  have ⟨⟨l, hl, heading⟩, within⟩ := mem_of_mem_sections h
  refine ⟨?_, fun l hl => (lines_free specification l (within hl)).2⟩
  have free := (lines_free specification l hl).2
  rw [Line.heading?] at heading
  split at heading
  case h_2 => cases heading
  case h_1 =>
    split at heading
    case isTrue => cases heading
    case isFalse =>
      have kept : lf ∉ replaceAll Line.headingMark [] l := not_mem_replaceAll free List.not_mem_nil
      exact Option.some.inj heading ▸ fun hm => kept ((trim_sublist _).subset hm)

section

variable (bundled : site.expander.templates = Cabinet.templates tree Cabinet.bundled)
variable (unbound : site.expander.data = none) (undescribed : site.expander.dictionary = {})

include bundled

theorem laid_page {t : Text} (language : ∀ c ∈ signs, c ∉ site.language) {title : Text} (ht : ∀ c ∈ signs, c ∉ title)
    (known : site.expander.templates.text pageTemplate Templates.pageExtension = .ok t) :
    let page := Snippet.ofTemplate ((pageValues site.language title).apply t)
    page.Laid ∧ page.ids = [] := by
  rw [← Expander.templateText_eq known]
  have sheet := Expander.sheet_of_bundled bundled pageTemplate
  have clean := (Expander.layout_of_bundled bundled pageTemplate).clean
  have values : ∀ c ∈ signs, (pageValues site.language title).Lacks c := by
    intro c hc
    have title : c ∉ lit "title" := not_mem_of_signs (by decide) c hc
    have lang : c ∉ lit "lang" := not_mem_of_signs (by decide) c hc
    refine Substitution.lacks_insertAll nofun (List.forall_mem_cons.mpr ⟨⟨lang, language c hc⟩, ?_⟩)
    exact List.forall_mem_singleton.mpr ⟨title, ht c hc⟩
  have keys : ∀ entry ∈ (pageValues site.language title).entries, '}' ∉ entry.1 := by
    have : ∀ key ∈ [lit "lang", lit "title"], '}' ∉ key := by decide
    exact fun entry he => this entry.1 (List.mem_map_of_mem he)
  have plain := values '$' (by decide)
  rw [Substitution.apply_eq_fillAll clean fun entry he => ⟨keys entry he, (plain entry he).2⟩]
  have ⟨cut, hc, parts⟩ := Snippet.exists_ofTemplate_fillAll clean (Expander.plain_lookup plain)
  have suits (side : Text) : Suits (pageValues site.language title).lookup side :=
    fun inside _ v hv => .inl (Expander.unmarked_lookup values inside v hv)
  have ⟨laid, ids⟩ := (sheet.cuts cut hc).1.map_fillAll (suits _) (suits _)
  rw [sheet.page (by decide) cut hc] at ids
  exact parts ▸ ⟨laid, ids⟩

include unbound undescribed

theorem Adds.ids (simple : site.expander.Simple l) (keeps : site.expander.KeepsIds l) (hl : lf ∉ l) (h : Adds site d l f d') :
    f.Laid ∧
      f.ids.Subperm (Component.shownFrom d.ledger.ids (site.expander.components (.withData (.parse l) none))) ∧
      d'.ledger.ids = Component.poolAfter d.ledger.ids (site.expander.components (.withData (.parse l) none)) := by
  cases h
  case block block ledger read expanded =>
    have said := simple.signs hl
    have fields := fun p hp => Expander.KeepsId.mk (simple.fields p hp) (keeps.fields p hp)
    rw [Block.ofLine, Block.ofDirective_eq_ok_of_locator_eq_none simple.data] at read
    cases read
    have ⟨laid, ids, after⟩ := Expander.run_expand bundled unbound undescribed (fun c hc => (said c hc).1)
      (fun p hp c hc => (said c hc).2 p hp) (Directive.closed_parse l) keeps.line fields expanded
    refine ⟨laid, ids, ?_⟩
    rw [← after]
    split <;> rfl

theorem AddsAll.ids (simple : ∀ l ∈ ls, site.expander.Simple l) (keeps : ∀ l ∈ ls, site.expander.KeepsIds l)
    (hl : ∀ l ∈ ls, lf ∉ l) (h : AddsAll site d ls fs d') :
    (∀ f ∈ fs, f.Laid) ∧ (fs.flatMap Snippet.ids).Subperm (Component.shownFrom d.ledger.ids (site.componentsOf ls)) := by
  induction h
  case nil => exact ⟨nofun, List.nil_subperm⟩
  case cons first _ hi =>
    have ⟨plain, simple⟩ := List.forall_mem_cons.mp simple
    have ⟨keep, keeps⟩ := List.forall_mem_cons.mp keeps
    have ⟨free, hl⟩ := List.forall_mem_cons.mp hl
    have ⟨laid, ids, after⟩ := first.ids bundled unbound undescribed plain keep free
    have ⟨others, later⟩ := hi simple keeps hl
    rw [after] at later
    refine ⟨List.forall_mem_cons.mpr ⟨laid, others⟩, ?_⟩
    rw [componentsOf, List.flatMap_cons, List.flatMap_cons, Component.shownFrom_append]
    exact ids.append later

end

variable {pages : List Page} (simple : site.Simple) (language : ∀ c ∈ signs, c ∉ site.language)

include simple

theorem Simple.signs (hs : s ∈ sections (lines site.specification)) : ∀ c ∈ signs, c ∉ s.title :=
  List.forall_mem_cons.mpr ⟨(lf_free_of_mem_sections hs).1, simple.titles s hs⟩

include language

theorem ids_draft (hs : s ∈ sections (lines site.specification)) (keeps : ∀ l ∈ s.lines, site.expander.KeepsIds l)
    (h : site.draft s = .ok d) :
    Layout d.finish.content ∧
      (Html.ids d.finish.content).Subperm (Component.shownFrom {} (site.componentsOf s.lines)) := by
  have ⟨_, bundled⟩ := simple.templates
  have ⟨t, fs, known, all, length, _, tree⟩ := exists_run h
  have ⟨page, bare⟩ := laid_page bundled language (simple.signs hs) known
  have ⟨laid, ids⟩ := all.ids bundled simple.data simple.dictionary (simple.contents s hs) keeps (lf_free_of_mem_sections hs).2
  have behind : (steps s.lines fs).map (·.2) = fs := List.map_snd_zip (by rw [length, List.length_map])
  have ⟨layout, perm⟩ := @Draft.ids_render s.title _ (steps s.lines fs) page fun line hm =>
    laid _ (behind ▸ List.mem_map_of_mem hm)
  have lines : (steps s.lines fs).flatMap (·.2.ids) = fs.flatMap Snippet.ids := by
    nth_rewrite 2 [← behind]
    rw [List.flatMap_map]
  rw [← tree, bare, lines, List.nil_append] at perm
  rw [← tree] at layout
  exact ⟨layout, perm.subperm.trans ids⟩

-- Where ids are kept, a page shows those that its components are issued and those of their headings, and no others.
theorem ids_pages (h : site.pages = .ok pages) :
    List.Forall₂
      (fun s p => (∀ l ∈ s.lines, site.expander.KeepsIds l) →
        (Html.ids p.content).Subperm (Component.shownFrom {} (site.componentsOf s.lines)))
      (sections (lines site.specification)) pages := by
  have ⟨_, bundled⟩ := simple.templates
  have ⟨raw, hr, h⟩ := exists_of_bind h
  have ⟨filled, hf, h⟩ := exists_of_bind h
  cases h
  rw [rawPages_eq] at hr
  have ⟨drafts, hd, hr⟩ := exists_of_map hr
  have titles : ∀ p ∈ raw, Unmarked p.title := by
    rw [← hr]
    refine List.forall_mem_map.mpr (forall_mem_of_forall₂ (forall₂_of_mapM hd) fun s hs d made => ?_)
    have ⟨_, _, _, _, _, title, _⟩ := exists_run made
    have same : d.finish.title = s.title := title
    exact same ▸ unmarked_of_signs (simple.signs hs)
  have kept := Menu.forall₂_fill hf
  nth_rewrite 2 [← hr] at kept
  have built := (List.forall₂_and_left _ _).mpr
    ⟨fun s hs => hs, forall₂_comp (forall₂_of_mapM hd) (List.forall₂_map_left_iff.mp kept)⟩
  refine List.forall₂_map_right_iff.mpr (built.imp fun s p ⟨hs, d, made, filled⟩ keeps => ?_)
  have ⟨layout, ids⟩ := ids_draft simple language hs keeps made
  have free : ∀ id ∈ Html.ids d.finish.content, '$' ∉ id := fun id hi => Component.free_shownFrom _ _ id (ids.subset hi)
  have ⟨filled, fewer⟩ := Menu.ids_fill bundled titles layout free filled
  exact (subperm_ids_clean filled.markup).trans (fewer.subperm.trans ids)

-- No id is twice on such a page, unless the heading of a section has one that is issued.
theorem nodup_ids_pages (h : site.pages = .ok pages) :
    List.Forall₂
      (fun s p => (∀ l ∈ s.lines, site.expander.KeepsIds l) → site.HeadingsApart s → (Html.ids p.content).Nodup)
      (sections (lines site.specification)) pages := by
  refine (ids_pages simple language h).imp fun s p ids keeps apart => ?_
  have ⟨same, perm, within⟩ := ids keeps
  have shown := (Component.perm_shownFrom {} (site.componentsOf s.lines)).nodup_iff.mpr <|
    List.nodup_append'.mpr ⟨Component.nodup_idsFrom _, Component.nodup_headingsFrom _, fun id hi hh => apart id hh hi⟩
  exact perm.nodup_iff.mp (shown.sublist within)

omit simple language

def plain (specification language : Text) : Site where
  specification := specification
  expander      :=
    { templates := Cabinet.templates {} Cabinet.bundled
      fetch     := fun _ => .error (.data .malformed)
      policy    := default }
  language      := language
  reportTitle   := lit "Report"

theorem simple_plain {specification : Text} (language : Text)
    (h : ∀ s ∈ sections (lines specification), (∀ c ∈ marks, c ∉ s.title) ∧ ∀ l ∈ s.lines,
      (∀ c ∈ marks, (Directive.parse l).Lacks c ∧ ∀ p ∈ (Directive.parse l).parameters, c ∉ p.raw) ∧
        (Directive.parse l).locator = none ∧
        ∀ p ∈ (Directive.parse l).parameters, ((plain [] []).expander.inputDirective p).locator = none) :
    (plain specification language).Simple where
  templates  := ⟨{}, rfl⟩
  data       := rfl
  dictionary := rfl
  titles     := fun s hs => (h s hs).1
  contents   := fun s hs l hl =>
    have ⟨said, data, fields⟩ := (h s hs).2 l hl
    ⟨said, data, fun p hp => fields p (Expander.mem_parameters_of_mem_fieldsOf hp)⟩

def labelled : Text := lit
  "== Home\n\x7bsection Ask\x7d\n* \x7bform Ask|Ask|(class=wide) Name\x7d\n* \x7btable Ask|A\x7d\n\x7blabel Ask\x7d"

def labelledSection : Section where
  title := lit "Home"
  lines :=
    [lit "\x7bsection Ask\x7d", lit "* \x7bform Ask|Ask|(class=wide) Name\x7d", lit "* \x7btable Ask|A\x7d",
      lit "\x7blabel Ask\x7d"]

theorem nodup_ids_pages_labelled : ∃ p, (plain labelled (lit "en")).pages = .ok [p] ∧
    Html.ids p.content =
      [lit "ask", lit "ask_heading", lit "ask_1", lit "ask_2", lit "name", lit "ask_3", lit "ask_4"] ∧
    (Html.ids p.content).Nodup := by
  have ⟨made, apart⟩ : (plain labelled (lit "en")).pages.toOption.map (·.map fun p => Html.ids p.content) =
      some [[lit "ask", lit "ask_heading", lit "ask_1", lit "ask_2", lit "name", lit "ask_3", lit "ask_4"]] ∧
      (plain labelled (lit "en")).HeadingsApart labelledSection := by
    decide +kernel
  have all : sections (lines labelled) = [labelledSection] := by rfl
  have simple : (plain labelled (lit "en")).Simple := simple_plain (lit "en") (by rw [all]; decide)
  have kept : ∀ l ∈ labelledSection.lines, (Directive.parse l).overrides.lookup (lit "id") = none ∧
      ∀ p ∈ (Directive.parse l).parameters, ((plain [] []).expander.fieldOverrides p).lookup (lit "id") = none := by
    decide
  have keeps : ∀ l ∈ labelledSection.lines, (plain labelled (lit "en")).expander.KeepsIds l := fun l hl =>
    ⟨(kept l hl).1, fun p hp => (kept l hl).2 p (Expander.mem_parameters_of_mem_fieldsOf hp)⟩
  have ⟨pages, ok, made⟩ := exists_of_toOption_map made
  have nodup := nodup_ids_pages simple (not_mem_of_signs (by decide)) ok
  change List.Forall₂ _ (sections (lines labelled)) pages at nodup
  rw [all] at nodup
  cases nodup
  case cons p pages first rest =>
    cases rest
    exact ⟨p, ok, (List.cons.inj made).1, first keeps apart⟩

-- An id that is given in two lines, or for two fields, or that a heading of a section has without being issued it.
def clashing : Text := lit
  "== P\n\x7blabel(id=x) A\x7d\n\x7blabel(id=x) B\x7d\n== Q\n\x7bform F|(id=y) A|(id=y) B\x7d\n== R\n\x7bsection A\x7d\n\x7blabel A heading\x7d"

def spoken : Text := lit "en\x22 id=\x22a"

theorem not_nodup_ids_clashing :
    (plain clashing (lit "en")).pages.toOption.map (·.map fun p => Html.ids p.content) =
      some [[lit "x", lit "x"], [lit "f", lit "y", lit "y"], [lit "a", lit "a_heading", lit "a_heading"]] ∧
    (plain (lit "== P\n\x7blabel A\x7d") spoken).pages.toOption.map (·.map fun p => Html.ids p.content) =
      some [[lit "a", lit "a"]] ∧
    ¬ ∀ (site : Site) (pages : List Page), site.Simple → site.pages = .ok pages →
      ∀ p ∈ pages, (Html.ids p.content).Nodup := by
  have ⟨made, tongue⟩ : (plain clashing (lit "en")).pages.toOption.map (·.map fun p => Html.ids p.content) =
      some [[lit "x", lit "x"], [lit "f", lit "y", lit "y"], [lit "a", lit "a_heading", lit "a_heading"]] ∧
      (plain (lit "== P\n\x7blabel A\x7d") spoken).pages.toOption.map (·.map fun p => Html.ids p.content) =
        some [[lit "a", lit "a"]] := by
    decide +kernel
  refine ⟨made, tongue, fun h => ?_⟩
  have simple : (plain clashing (lit "en")).Simple := simple_plain (lit "en") (by decide)
  have ⟨pages, ok, made⟩ := exists_of_toOption_map made
  have all : ∀ ids ∈ pages.map fun p => Html.ids p.content, ids.Nodup := List.forall_mem_map.mpr (h _ pages simple ok)
  rw [made] at all
  exact absurd (all _ List.mem_cons_self) (by decide)

end Site
end WikiPages
