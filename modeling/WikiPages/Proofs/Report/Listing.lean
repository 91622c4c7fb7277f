import WikiPages.Proofs.Report.Page
import WikiPages.Proofs.Xml.Reading

namespace WikiPages

open Text Cleanup

namespace Report

variable {title : Text}

-- Titles without control characters and without the characters around holes.
def IsPlain (title : Text) : Prop :=
  ∀ c ∈ title, c ≠ '$' ∧ c ≠ '{' ∧ c ≠ '}' ∧ ¬ (c.toNat < 32 ∨ 127 ≤ c.toNat ∧ c.toNat < 160)

instance : Decidable (IsPlain title) :=
  List.decidableBAll _ title

theorem IsPlain.not_mem (h : IsPlain title) : '$' ∉ title ∧ '}' ∉ title ∧ cr ∉ title := by
  refine ⟨fun hm => (h _ hm).1 rfl, fun hm => (h _ hm).2.2.1 rfl, fun hm => (h _ hm).2.2.2 ?_⟩
  decide

theorem heading_eq_trim (h : ¬ Line.headingMark <:+: title) : heading title = trim title := by
  have hs : ¬ Line.headingMark <:+: ' ' :: title := by
    rw [List.infix_cons_iff, not_or]
    exact ⟨by simp [Line.headingMark, lit], h⟩
  have hw : lit "== " ++ title = Line.headingMark ++ ' ' :: title := rfl
  rw [heading, hw, replaceAll_append (by decide), replaceAll_of_absent hs]
  rfl

theorem finds_of_trimmed (h : ¬ Line.headingMark <:+: title) (ht : trim title = title) :
    Finds title (heading title) := by
  rw [heading_eq_trim h, ht]
  exact .inl rfl

end Report

namespace Site

open Report

variable {site report : Site} {tree : FileTree} {pages : List Page}

theorem reportSite_eq (conforms : site.reader.Conforms)
    (bundled : site.expander.templates = Cabinet.templates tree Cabinet.bundled)
    (hp : ∀ p ∈ pages, cr ∉ p.title) (h : site.reportSite pages = .ok report) :
    report = { site with
      specification := lit "== " ++
        (site.reportTitle ++ lit "\n\x7btable|Title|Data inputs|Data outputs\x7d")
      expander := { site.expander with
        dictionary := {}, data := some (document site.reportTitle pages) } } := by
  rw [reportSite, bundled] at h
  have ⟨xml, hx, h⟩ := exists_of_bind h
  have ⟨specification, hf, h⟩ := exists_of_bind h
  have ⟨data, hd, h⟩ := exists_of_bind h
  have hf := Cabinet.fill_reportSpecification.symm.trans (eq_ok_of_mapError hf)
  have hd := (read_data conforms hx hp).symm.trans (eq_ok_of_mapError hd)
  split at hd
  case isFalse => cases hd
  case isTrue =>
    cases hf
    cases hd
    exact (Except.ok.inj h).symm

-- The rows of the report on some pages: one for each, if the title of the report leads to the same identifier
-- before and after it is read from its heading, or to the shared one, and else none. A row has the file of its
-- page, its title as far as cleaning leaves it, and its counts.
def listed (site : Site) (pages : List Page) : List Row :=
  if Finds site.reportTitle (heading site.reportTitle) then pages.map fun p => (Row.ofPage p).tidy else []

theorem listed_eq : site.listed pages =
    (shownRows site.reportTitle (heading site.reportTitle) pages).map Row.tidy := by
  rw [listed, shownRows]
  split
  case isTrue => rw [List.map_map, Function.comp_def]
  case isFalse => rfl

theorem sound_listed : ∀ r ∈ site.listed pages, r.Sound := by
  intro r hr
  rw [listed_eq] at hr
  have ⟨q, hq, he⟩ := List.mem_map.mp hr
  exact he ▸ (sound_shownRows _ _ _ q hq).1.tidy

theorem exists_report {reports : List Page} (conforms : site.reader.Conforms)
    (bundled : site.expander.templates = Cabinet.templates tree Cabinet.bundled)
    (single : IsLine site.reportTitle) (plain : ∀ p ∈ pages, IsPlain p.title)
    (ok : site.report pages = .ok reports) :
    ∃ r front back, reports = [r] ∧
      r.content = mergeHeads (front ++ (body cleanStart (site.listed pages) ++ back)) ∧
      ('$' ∉ site.language → '$' ∉ site.reportTitle → back = Cabinet.webPageFoot) := by
  rw [report] at ok
  have ⟨made, hs, hp⟩ := exists_of_bind ok
  have hm := reportSite_eq conforms bundled (fun p hp => (plain p hp).not_mem.2.2) hs
  have hl : lines made.specification = [lit "== " ++ site.reportTitle, Report.line] := by
    rw [hm]
    exact lines_specification single
  have hb : made.expander.templates = Cabinet.templates tree Cabinet.bundled := by
    rw [hm]
    exact bundled
  have hd : made.expander.data = some (document site.reportTitle pages) := by rw [hm]
  have he : made.language = site.language := by rw [hm]
  have ⟨r, front, back, hr, _, hc, hf⟩ := exists_pages hb hd
    (fun p hp => ⟨(plain p hp).not_mem.1, (plain p hp).not_mem.2.1⟩) hl hp
  refine ⟨r, front, back, hr, listed_eq ▸ hc, fun hl ht => hf (he ▸ hl) fun hm => ?_⟩
  cases List.mem_append.mp ((heading_sublist _).subset hm)
  case inl h => exact absurd h (by decide)
  case inr h => exact ht h

-- When a site that uses the bundled templates is made, there is one report, with a table at the end of which
-- are the listed rows in order. Holes in the language or in the report's title may add to what is behind the
-- table. The table stays where it is unless a head section ends in a title or behind the table.
theorem exists_table {o : Output} (conforms : site.reader.Conforms)
    (bundled : site.expander.templates = Cabinet.templates tree Cabinet.bundled)
    (single : IsLine site.reportTitle) (plain : ∀ p ∈ o.pages, IsPlain p.title)
    (ok : site.output = .ok o) :
    ∃ r front back, o.reports = [r] ∧
      r.content = mergeHeads (front ++ (body cleanStart (site.listed o.pages) ++ back)) ∧
      ('$' ∉ site.language → '$' ∉ site.reportTitle → back = Cabinet.webPageFoot) ∧
      (¬ headEnd <:+: back → (∀ r ∈ site.listed o.pages, ¬ headEnd <:+: r.title) →
        ∃ front, r.content = front ++ (body cleanStart (site.listed o.pages) ++ back)) := by
  rw [output] at ok
  have ⟨pages, _, ok⟩ := exists_of_bind ok
  have ⟨reports, hr, ok⟩ := exists_of_bind ok
  cases ok
  have ⟨r, front, back, he, hc, hb⟩ := exists_report conforms bundled single plain hr
  refine ⟨r, front, back, he, hc, hb, fun hn ht => ?_⟩
  rw [hc]
  exact exists_mergeHeads_body sound_listed ht hn front

def small (reportTitle : String) : Site where
  specification := lit "== Only"
  expander      :=
    { templates := Cabinet.templates {} Cabinet.bundled, fetch := Block.fetchFrom Xml.Document.parse? {} none
      policy := default }
  language      := lit "en"
  reportTitle   := lit reportTitle

def onlyRow : Row := ⟨lit "only.html", lit "Only", lit "0", lit "0"⟩

theorem exists_table_small : ∃ o r front, (small "Report").output = .ok o ∧ o.reports = [r] ∧
    r.content = front ++ (body cleanStart [onlyRow] ++ Cabinet.webPageFoot) := by
  have hm : (match (small "Report").output with
      | .ok o    => decide ((∀ p ∈ o.pages, IsPlain p.title) ∧
          (o.pages.map fun p => (Row.ofPage p).tidy) = [onlyRow])
      | .error _ => false) = true := by decide +kernel
  cases ho : (small "Report").output
  case error =>
    rw [ho] at hm
    cases hm
  case ok o =>
    rw [ho] at hm
    have ⟨hp, hr⟩ := of_decide_eq_true hm
    have hl : (small "Report").listed o.pages = [onlyRow] := by
      rw [listed, if_pos (finds_of_trimmed (by decide) (by decide)), hr]
    have ⟨r, _, back, he, _, hb, hc⟩ :=
      @exists_table (small "Report") {} o Xml.Document.conforms_parse? rfl (by decide) hp ho
    have hb := hb (by decide) (by decide)
    have ⟨front, hf⟩ := hc (hb ▸ by decide +kernel) (by rw [hl]; decide +kernel)
    rw [hl, hb] at hf
    exact ⟨o, r, front, rfl, he, hf⟩

-- When the title of the report begins with a blank, its data is not found, and the row of the page is nowhere.
theorem not_listed_small : ¬ ∀ (site : Site) (tree : FileTree) (o : Output),
    site.expander.templates = Cabinet.templates tree Cabinet.bundled →
      (∀ p ∈ o.pages, IsPlain p.title) → site.output = .ok o →
        ∃ r ∈ o.reports, body cleanStart (o.pages.map fun p => (Row.ofPage p).tidy) <:+: r.content := by
  intro h
  have hm : (match (small " Report").output with
      | .ok o    => decide ((∀ p ∈ o.pages, IsPlain p.title) ∧ ∀ r ∈ o.reports,
          contains (body cleanStart (o.pages.map fun p => (Row.ofPage p).tidy)) r.content = false)
      | .error _ => false) = true := by decide +kernel
  cases ho : (small " Report").output
  case error =>
    rw [ho] at hm
    cases hm
  case ok o =>
    rw [ho] at hm
    have ⟨hp, hn⟩ := of_decide_eq_true hm
    have ⟨r, hr, hi⟩ := h (small " Report") {} o rfl hp ho
    exact contains_eq_false_iff.mp (hn r hr) hi

end Site

end WikiPages
