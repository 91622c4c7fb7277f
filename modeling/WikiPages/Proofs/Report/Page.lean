import WikiPages.Proofs.Menu.Filling
import WikiPages.Proofs.Report.Cleaning
import WikiPages.Proofs.Report.Table
import WikiPages.Proofs.Text.Lines
import WikiPages.Proofs.Text.Trimming

namespace WikiPages

open Text

theorem PageTree.render_single (root : Snippet) (s : Text) :
    ((PageTree.ofRoot root).append 0 (.leaf s)).render =
      match root.tail with
      | none      => root.head ++ s
      | some tail => trimEnd (root.head ++ s) ++ tail := by
  have ⟨head, tail⟩ := root
  cases tail
  case none =>
    change (s.reverse ++ (head.reverse ++ [])).reverse = head ++ s
    simp
  case some tail =>
    change (tail.reverse ++ (s.reverse ++ (head.reverse ++ [])).dropWhile isBlank).reverse = _
    simp [trimEnd]

namespace Report

variable {site : Site} {tree : FileTree} {title : Text} {pages : List Page} {rows : List Row}

def heading (title : Text) : Text := trim (replaceAll Line.headingMark [] (lit "== " ++ title))

theorem heading?_eq (title : Text) : Line.heading? (lit "== " ++ title) = some (heading title) := rfl

theorem lines_specification (h : IsLine title) :
    lines (lit "== " ++ (title ++ lit "\n\x7btable|Title|Data inputs|Data outputs\x7d")) =
      [lit "== " ++ title, line] := by
  have hl : IsLine (lit "== " ++ title) := by
    simp only [IsLine, List.mem_append, not_or]
    exact ⟨⟨by decide, h.1⟩, by decide, h.2⟩
  have hs : lit "== " ++ (title ++ lit "\n\x7btable|Title|Data inputs|Data outputs\x7d") =
      lit "== " ++ title ++ lineBreak ++ line := by
    simp [line, lit, lineBreak, lf]
  rw [hs, lines_append hl, lines_of_isLine ⟨by decide, by decide⟩]

def tableText (rows : List Row) : Text := tableHead ++ body strippedStart rows

theorem trimEnd_tableText (a : Text) :
    trimEnd (a ++ (tableText rows ++ lineBreak)) = a ++ tableText rows := by
  have hw : a ++ (tableText rows ++ lineBreak) =
      (a ++ tableHead ++ lit "<tbody>\n" ++ join lineBreak (rows.map (Row.text strippedStart)) ++
        lit "\n</tbody>\n</table") ++ ['>'] ++ lineBreak := by
    simp [tableText, body, lit]
  rw [hw, trimEnd_append_blank (forall_mem_of_all rfl)]
  simp [trimEnd, tableText, body, lit, isBlank]

def draft (pageTitle : Text) (page : Snippet) (rows : List Row) (ledger : Ledger) : Draft where
  title  := pageTitle
  tree   := (PageTree.ofRoot page).append 0 (snippet rows)
  opened := ⟨[1]⟩
  ledger := ledger

theorem exists_content_draft (pageTitle : Text) (page : Snippet) (rows : List Row) (ledger : Ledger) :
    ∃ b, (draft pageTitle page rows ledger).finish.content = page.head ++ (tableText rows ++ b) ∧
      ∀ tail, page.tail = some tail → b = tail := by
  have hr : (draft pageTitle page rows ledger).finish.content = _ :=
    PageTree.render_single page (tableText rows ++ lineBreak)
  cases ht : page.tail
  case none =>
    rw [ht] at hr
    refine ⟨lineBreak, hr, ?_⟩
    intro tail h
    cases h
  case some tail =>
    simp only [ht, trimEnd_tableText, List.append_assoc] at hr
    exact ⟨tail, hr, fun _ h => Option.some.inj h⟩

section Bundled

variable (bundled : site.expander.templates = Cabinet.templates tree Cabinet.bundled)
  (hd : site.expander.data = some (document title pages)) (hp : ∀ p ∈ pages, '$' ∉ p.title)

include bundled

theorem startDraft_eq {draft : Draft} {pageTitle : Text} (h : site.startDraft pageTitle = .ok draft) :
    ∃ page, draft = .start pageTitle page ∧
      ('$' ∉ site.language → '$' ∉ pageTitle → page.tail = some Cabinet.webPageFoot) := by
  rw [Site.startDraft] at h
  have ⟨_, hm, hs⟩ := exists_of_map (eq_ok_of_mapError h)
  refine ⟨_, hs.symm, fun hl hn => ?_⟩
  rw [bundled, Cabinet.page_webPage hl] at hm
  cases hm
  exact Cabinet.ofTemplate_webPage hl hn

include hd hp

theorem addLine_start (pageTitle : Text) (page : Snippet) :
    ∃ ledger, site.addLine (.start pageTitle page) line =
      .ok (draft pageTitle page (shownRows title pageTitle pages) ledger) := by
  have hl : Line.level line = 0 := by decide
  have ha : site.addLine (.start pageTitle page) line =
      site.addBlock (.start pageTitle page) block := by
    rw [Site.addLine, ofLine_line, hl]
    rfl
  have hb : (site.expander.expand (Draft.start pageTitle page).title block).run.run
      (Draft.start pageTitle page).ledger = _ := expand_table bundled hd hp
  rw [ha, Site.addBlock, hb]
  exact ⟨_, rfl⟩

theorem exists_rawPages {raw : List Page} (h : site.rawPages [lit "== " ++ title, line] = .ok raw) :
    ∃ p a b, raw = [p] ∧ p.title = heading title ∧
      p.content = a ++ (tableText (shownRows title (heading title) pages) ++ b) ∧
      ('$' ∉ site.language → '$' ∉ heading title → b = Cabinet.webPageFoot) := by
  have hn : Line.heading? line = none := by decide
  have hb : allBlank line = false := by decide
  have h₁ : site.line [] (lit "== " ++ title) = (site.startDraft (heading title)).map (· :: []) := by
    simp only [Site.line, heading?_eq]
  have h₂ (d : Draft) : site.line [d] line = (site.addLine d line).map (· :: []) := by
    simp only [Site.line, hn, hb, Bool.false_eq_true, if_false]
  rw [Site.rawPages, List.foldlM_cons, h₁] at h
  obtain ⟨_, h, hr⟩ := exists_of_map h
  obtain ⟨_, hd', h⟩ := exists_of_bind h
  obtain ⟨d, hs, rfl⟩ := exists_of_map hd'
  obtain ⟨page, he, hf⟩ := startDraft_eq bundled hs
  obtain ⟨ledger, ha⟩ := addLine_start bundled hd hp (heading title) page
  obtain ⟨b, hc, ht⟩ := exists_content_draft (heading title) page
    (shownRows title (heading title) pages) ledger
  rw [List.foldlM_cons, h₂, he, ha] at h
  cases h
  exact ⟨_, page.head, b, hr.symm, rfl, hc, fun hl hn => ht _ (hf hl hn)⟩

end Bundled

theorem not_mem_tableText {c : Char} (hs : ∀ r ∈ rows, r.Sound) (ht : ∀ r ∈ rows, c ∉ r.title)
    (hn : Identifier.isTokenChar c = false ∧ c ≠ '.') (hh : c ∉ tableHead)
    (hb : c ∉ body strippedStart [⟨[], [], [], []⟩]) : c ∉ tableText rows := by
  simp only [body, Row.text, List.map_cons, List.map_nil, join_singleton, List.mem_append, not_or] at hb
  have hr : ∀ r ∈ rows, ∀ s, c ∉ '<' :: s → c ∉ r.text strippedStart ++ '\n' :: '<' :: s := by
    intro r hm s h
    obtain ⟨hf, hi, ho⟩ := (hs r hm).not_mem hn.1 hn.2
    have hl : c ≠ '\n' := by
      rintro rfl
      exact hb.1 (by decide)
    simp only [Row.text, List.mem_append, List.mem_cons, not_or] at hb h ⊢
    simp [hb, h, hf, hi, ho, hl, ht r hm]
  have he : c ∉ '\n' :: '<' :: lit "/tbody>\n</table>" := hb.2.2
  have hj := Row.join_induction (P := fun s => c ∉ s) hr he fun hm => he (List.mem_cons_of_mem _ hm)
  have hw : tableText rows = tableHead ++ (lit "<tbody>\n" ++
      (join lineBreak (rows.map (Row.text strippedStart)) ++ '\n' :: '<' :: lit "/tbody>\n</table>")) :=
    rfl
  rw [hw, List.mem_append, List.mem_append, not_or, not_or]
  exact ⟨hh, hb.1, hj⟩

theorem lasts_tableText (hs : ∀ r ∈ rows, r.Sound) (ht : ∀ r ∈ rows, '$' ∉ r.title ∧ '}' ∉ r.title) :
    Menu.Lasts (tableText rows) where
  opening := not_mem_tableText hs (fun r hr => (ht r hr).1) ⟨rfl, by decide⟩ (by decide)
    (by decide)
  closing := not_mem_tableText hs (fun r hr => (ht r hr).2) ⟨rfl, by decide⟩ (by decide)
    (by decide)
  long    := by
    have hl : 38 < (Identifier.letters tableHead).length := by decide
    rw [Identifier.letters] at hl ⊢
    rw [tableText, List.filter_append, List.length_append]
    omega

theorem heading_sublist (title : Text) : (heading title).Sublist (lit "== " ++ title) := by
  exact (trim_sublist _).trans (Pattern.replace_sublist _ _)

theorem sound_shownRows (title pageTitle : Text) (pages : List Page) :
    ∀ r ∈ shownRows title pageTitle pages, r.Sound ∧ ∃ p ∈ pages, r = Row.ofPage p := by
  intro r hr
  rw [shownRows] at hr
  split at hr
  case isTrue =>
    obtain ⟨p, hp, he⟩ := List.mem_map.mp hr
    subst he
    exact ⟨Row.sound_ofPage p, p, hp, rfl⟩
  case isFalse => cases hr

-- The pages of a report. Which rows they show does not depend on the title's other effects on them.
theorem exists_pages {reports : List Page}
    (bundled : site.expander.templates = Cabinet.templates tree Cabinet.bundled)
    (hd : site.expander.data = some (document title pages))
    (hp : ∀ p ∈ pages, '$' ∉ p.title ∧ '}' ∉ p.title)
    (hw : lines site.specification = [lit "== " ++ title, line]) (h : site.pages = .ok reports) :
    ∃ p front back, reports = [p] ∧ p.title = heading title ∧
      p.content = Cleanup.mergeHeads (front ++
        (body cleanStart ((shownRows title (heading title) pages).map Row.tidy) ++ back)) ∧
      ('$' ∉ site.language → '$' ∉ heading title → back = Cabinet.webPageFoot) := by
  rw [Site.pages, hw] at h
  have ⟨raw, hr, h⟩ := exists_of_bind h
  have ⟨filled, hf, h⟩ := exists_of_bind h
  have ⟨p, a, b, he, hn, hc, hb⟩ := exists_rawPages bundled hd (fun p hm => (hp p hm).1) hr
  have hs := sound_shownRows title (heading title) pages
  have hl : Menu.Lasts (tableText (shownRows title (heading title) pages)) := by
    refine lasts_tableText (fun r hm => (hs r hm).1) fun r hm => ?_
    have ⟨_, p, hm, hr⟩ := hs r hm
    exact hr ▸ hp p hm
  have ⟨front, back, hg, hk⟩ := Menu.exists_fillAll bundled hl hc (he ▸ hf)
  have ⟨front, hm⟩ := exists_clean_body (fun r hm => (hs r hm).1) (front ++ tableHead) back
  rw [hg] at h
  cases h
  refine ⟨_, front, Cleanup.dropEmptyAttributes (Cleanup.dropEmptyWrappers back), rfl, hn, ?_, ?_⟩
  · rw [← hm, tableText]
    simp
  · intro hl ht
    have hf := hb hl ht
    rw [hk (hf ▸ by decide), hf]
    decide

end Report
end WikiPages
