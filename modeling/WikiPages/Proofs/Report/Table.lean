import WikiPages.Proofs.Expansion.Steps
import WikiPages.Proofs.Report.Rows
import WikiPages.Proofs.Report.Stripping

namespace WikiPages.Report

open Text Expander

def line : Text := lit "\x7btable|Title|Data inputs|Data outputs\x7d"

def block : Block := { kind := lit "table", parameters := parameters }

theorem ofLine_line (fetch : Block.Fetch) : Block.ofLine fetch line = .ok block := by
  have : Directive.parse line = { kind := lit "table", parameters := parameters } := by decide
  rw [Block.ofLine, this]
  rfl

def tableHead : Text :=
  lit "<table id=\"_table\"><caption></caption>\n<thead><tr><th class=\"\">Title</th>" ++
    lit "<th class=\"\">Data inputs</th><th class=\"\">Data outputs</th></tr></thead>\n"

def tableStart : Text := tableHead ++ lit "<tbody>\n"

def tableEnd : Text := lit "\n</tbody>\n</table>"

def tableTemplate : Text :=
  lit "<table id=\"$\x7bid\x7d\"><caption>$\x7btitle\x7d</caption>\n" ++
    lit "<thead>$\x7bheader:th@tr\x7d</thead>\n<tbody>\n$\x7bdata:td@tr\x7d\n</tbody>\n</table>"

def cellEnd : Text := lit "</td>"

def cellTemplate : Text := lit "<td class=\"$\x7bclass\x7d\">$\x7btitle\x7d</td>"

def header : Text :=
  lit "<tr><th class=\"\">Title</th><th class=\"\">Data inputs</th><th class=\"\">Data outputs</th></tr>"

def shownRows (title pageTitle : Text) (pages : List Page) : List Row :=
  if Finds title pageTitle then pages.map Row.ofPage else []

variable {e : Expander} {tree : FileTree} {around : List Xml.Element} {number : Nat} {p : Page}
  {pages : List Page} {s title pageTitle rest : Text} {field : Option Xml.Place}

def values (p : Page) : List Text := [link p, ofNat p.inputs, ofNat p.outputs]

theorem not_mem_values (h : '$' ∉ p.title) : ∀ value ∈ values p, '$' ∉ value := by
  have hn (n : Nat) : '$' ∉ ofNat n := fun hm =>
    absurd (Nat.isDigit_of_mem_toDigits (by decide) (by decide) hm) (by decide)
  have hf : '$' ∉ p.file := fun hm => (isTokenChar_or_of_mem_file hm).elim (by decide) (by decide)
  have hl : '$' ∉ link p := by
    simp only [link, List.mem_append, not_or]
    exact ⟨⟨⟨⟨by decide, hf⟩, by decide⟩, h⟩, by decide⟩
  intro value hv
  simp only [values, List.mem_cons, List.not_mem_nil, or_false] at hv
  rcases hv with rfl | rfl | rfl
  · exact hl
  · exact hn _
  · exact hn _

theorem dataItem_td (h : '$' ∉ Binding.fieldText field) :
    dataItem cellTemplate field = pure (cellStart ++ Binding.fieldText field ++ cellEnd) := by
  have ht : replaceAll titleHole (Binding.fieldText field) cellTemplate =
      cellStart ++ (Binding.fieldText field ++ cellEnd) := rfl
  have hv : '$' ∉ Binding.fieldText field ++ cellEnd := by
    rw [List.mem_append, not_or]
    exact ⟨h, by decide⟩
  have hr (kind : Text) (f : Text → Text) (hk : kind = attributeKind ∨ kind = elementKind) :
      (Hole.named kind).replace f (cellStart ++ (Binding.fieldText field ++ cellEnd)) =
        cellStart ++ (Binding.fieldText field ++ cellEnd) := by
    have hs : (Hole.named kind).replace f (cellStart ++ (Binding.fieldText field ++ cellEnd)) =
        cellStart ++ (Hole.named kind).replace f (Binding.fieldText field ++ cellEnd) := by
      rcases hk with rfl | rfl <;> rfl
    have hf : (Hole.named kind).replace f (Binding.fieldText field ++ cellEnd ++ []) =
        Binding.fieldText field ++ cellEnd ++ [] := Hole.replace_named_of_free hv
    rw [List.append_nil] at hf
    rw [hs, hf]
  rw [dataItem, nameItem_eq_pure (by decide), pure_bind, ht, hr _ _ (.inl rfl)]
  dsimp only
  rw [hr _ _ (.inr rfl), List.append_assoc]

section Bundled

variable (bundled : e.templates = Cabinet.templates tree Cabinet.bundled)

include bundled

theorem headerItem_th {parameter : Parameter} (hv : parameter.variant = none)
    (ho : parameter.overrides = {}) :
    e.headerItem (lit "th") parameter =
      pure (lit "<th class=\"\">" ++ parameter.name ++ lit "</th>") := by
  have hp : e.page (lit "th") {} = pure (lit "<th class=\"$\x7bstyle\x7d\">$\x7btitle\x7d</th>") :=
    page_eq_pure (bundled ▸ rfl)
  have ht : e.headerTemplate (lit "th") parameter = lit "th" := by rw [headerTemplate, hv]
  have hs : parameter.style = [] := by
    rw [Parameter.style, hv]
    rfl
  rw [headerItem, ht, ho, hp, hs, pure_bind]
  rw [nameItem_eq_pure (by decide)]
  rfl

theorem wrapRow_tr {items : Text} :
    e.wrapRow (some (lit "tr")) items = pure (lit "<tr>" ++ items ++ lit "</tr>") := by
  have hr : e.templates.page (lit "tr") {} = .ok (lit "<tr>$\x7bcontent\x7d</tr>") := bundled ▸ rfl
  rw [wrapRow_eq_pure hr]
  rfl

theorem fillHeader_th : e.fillHeader block s (lit "th@tr") =
    pure (replaceAll (Hole.ofNamed headerKind (lit "th@tr")) header s) := by
  have hp : ItemRow.parse (lit "th@tr") = ⟨lit "th", some (lit "tr")⟩ := by decide
  have hb : ∀ parameter ∈ block.parameters,
      parameter.variant = none ∧ parameter.overrides = {} := by decide
  have hm := mapM_eq_pure fun parameter hm =>
    headerItem_th bundled (hb parameter hm).1 (hb parameter hm).2
  have hh : lit "<tr>" ++ (block.parameters.map fun parameter =>
      lit "<th class=\"\">" ++ parameter.name ++ lit "</th>").flatten ++ lit "</tr>" = header := by
    decide
  rw [fillHeader, hp, hm, pure_bind, wrapRow_tr bundled, pure_bind, hh]

theorem dataRow_td (h : '$' ∉ p.title) :
    e.dataRow cellTemplate (some (lit "tr")) parameters (rowPlace around number p) =
      pure ((Row.ofPage p).text cellStart) := by
  have hf : (Binding.fields (rowPlace around number p) parameters).map Binding.fieldText =
    values p := fieldText_fields
  have hd : ∀ field ∈ Binding.fields (rowPlace around number p) parameters,
      dataItem cellTemplate field = pure (cellStart ++ Binding.fieldText field ++ cellEnd) :=
    fun field hm => dataItem_td (not_mem_values h _ (hf ▸ List.mem_map_of_mem hm))
  have hc : (Binding.fields (rowPlace around number p) parameters).map (fun field =>
        cellStart ++ Binding.fieldText field ++ cellEnd) =
      (values p).map fun value => cellStart ++ value ++ cellEnd := by
    rw [← hf, List.map_map]
    rfl
  rw [dataRow, mapM_eq_pure hd, pure_bind, wrapRow_tr bundled, hc]
  simp [values, Row.text, Row.ofPage, link, cellEnd, lit]

theorem mapM_dataRow (h : ∀ p ∈ pages, '$' ∉ p.title) :
    (rowPlaces around number pages).mapM (e.dataRow cellTemplate (some (lit "tr")) parameters) =
      pure ((pages.map Row.ofPage).map (Row.text cellStart)) := by
  induction pages generalizing number
  case nil => rfl
  case cons p pages hi =>
    have hi := @hi (number + 12) fun p hp => h p (List.mem_cons_of_mem _ hp)
    rw [rowPlaces, List.mapM_cons, dataRow_td bundled (h p List.mem_cons_self), hi]
    rfl

theorem fillRows_td (hd : e.data = some (document title pages)) (h : ∀ p ∈ pages, '$' ∉ p.title) :
    e.fillRows pageTitle tableId block s (lit "td@tr") = countOutputs 3 >>= fun _ =>
      pure (replaceAll (Hole.ofNamed dataKind (lit "td@tr")) (join lineBreak
        ((shownRows title pageTitle pages).map (Row.text cellStart))) s) := by
  have hp : ItemRow.parse (lit "td@tr") = ⟨lit "td", some (lit "tr")⟩ := by decide
  have hl : max block.parameters.length 1 = 3 := by decide
  have ht : e.page (lit "td") {} = pure cellTemplate := page_eq_pure (bundled ▸ rfl)
  rw [fillRows, hp, hl, hd]
  dsimp only
  rw [rows_document rfl rfl, ht]
  refine congrArg (countOutputs 3 >>= ·) (funext fun _ => ?_)
  by_cases hf : Finds title pageTitle
  · rw [if_pos hf, shownRows, if_pos hf]
    have hm := @mapM_dataRow e tree (aroundRows title pages) 5 pages bundled h
    cases pages
    case nil => rfl
    case cons p pages =>
      have hb : block.parameters = parameters := rfl
      have hne : ¬ (rowPlaces (aroundRows title (p :: pages)) 5 (p :: pages)).isEmpty = true :=
        Bool.false_ne_true
      rw [if_neg hne, pure_bind, hb, hm, pure_bind]
  · rw [if_neg hf, shownRows, if_neg hf]
    rfl

theorem fillHeaders_table : e.fillHeaders block (nameBlock tableId block.title tableTemplate) =
    pure (tableStart ++ Hole.ofNamed dataKind (lit "td@tr") ++ tableEnd) := by
  have ha : Hole.arguments headerKind (nameBlock tableId block.title tableTemplate) =
    [lit "th@tr"] := by decide
  have hr : replaceAll (Hole.ofNamed headerKind (lit "th@tr")) header
      (nameBlock tableId block.title tableTemplate) =
    tableStart ++ Hole.ofNamed dataKind (lit "td@tr") ++ tableEnd := by decide +kernel
  rw [fillHeaders, ha, List.foldlM_cons, fillHeader_th bundled, pure_bind, List.foldlM_nil, hr]

theorem fill_table (hd : e.data = some (document title pages)) (h : ∀ p ∈ pages, '$' ∉ p.title) :
    e.fill pageTitle tableId block tableTemplate = countOutputs 3 >>= fun _ =>
      pure (tableStart ++ join lineBreak
        ((shownRows title pageTitle pages).map (Row.text cellStart)) ++
          tableEnd) := by
  have hv (id : Text) : e.fillValue pageTitle id block
      (tableStart ++ Hole.ofNamed dataKind (lit "td@tr") ++ tableEnd) =
        pure (tableStart ++ Hole.ofNamed dataKind (lit "td@tr") ++ tableEnd) :=
    if_neg (by decide +kernel)
  have ha : Hole.arguments dataKind (tableStart ++ Hole.ofNamed dataKind (lit "td@tr") ++ tableEnd) =
    [lit "td@tr"] := by decide
  have hr (value : Text) : replaceAll (Hole.ofNamed dataKind (lit "td@tr")) value
      (tableStart ++ Hole.ofNamed dataKind (lit "td@tr") ++ tableEnd) =
        tableStart ++ value ++ tableEnd := by
    rw [List.append_assoc, Hole.ofNamed, Hole.fill_of_free (by decide), Hole.fill_of,
      Hole.fill_eq_self (by decide), List.append_assoc]
  rw [fill, fillHeaders_table bundled, pure_bind, fillData, hv, pure_bind, ha, List.foldlM_cons,
    fillRows_td bundled hd h, bind_assoc]
  simp only [pure_bind, List.foldlM_nil, hr]

def snippet (rows : List Row) : Snippet :=
  .leaf (tableHead ++ body strippedStart rows ++ lineBreak)

omit bundled in
theorem finishSnippet_table {rows : List Row} (hs : ∀ r ∈ rows, r.Sound)
    (ht : ∀ r ∈ rows, '$' ∉ r.title) :
    finishSnippet (.leaf (tableStart ++ join lineBreak (rows.map (Row.text cellStart)) ++ tableEnd)) =
      snippet rows := by
  have ⟨c, s, hc, hn⟩ := Row.exists_join rows cellStart (lit "</tbody>\n</table>" ++ lineBreak)
  have hw : tableStart ++ join lineBreak (rows.map (Row.text cellStart)) ++ tableEnd ++ lineBreak =
      tableStart ++ c :: s := by
    rw [← hc]
    simp [tableEnd, lit]
  have hd : c ≠ '$' := by rcases hn with rfl | rfl <;> decide
  have hr := @strip_rows rows (lit "/tbody>\n</table>\n") hs ht
  have he : Hole.stripUnfilled (c :: s) =
      join lineBreak (rows.map (Row.text strippedStart)) ++ tableEnd ++ lineBreak := by
    rw [← hc]
    apply hr.trans
    rw [List.append_assoc]
    rfl
  have hf : Hole.stripUnfilled
        (tableStart ++ join lineBreak (rows.map (Row.text cellStart)) ++ tableEnd ++ lineBreak) =
      tableStart ++ (join lineBreak (rows.map (Row.text strippedStart)) ++ tableEnd ++ lineBreak) := by
    rw [hw, Hole.stripUnfilled_of_free (by decide) hd, he]
  rw [finishSnippet, Snippet.leaf, Snippet.push, Snippet.map, hf]
  simp [snippet, Snippet.leaf, body, tableStart, tableEnd]

theorem expand_table (hd : e.data = some (document title pages)) (h : ∀ p ∈ pages, '$' ∉ p.title) :
    (e.expand pageTitle block).run.run {} =
      (.ok (snippet (shownRows title pageTitle pages)), { ids := ⟨[tableId]⟩, outputs := 3 }) := by
  have hi : ({} : Ledger).issue (IdPool.lineContext block.kind block.title) =
      (tableId, { ids := ⟨[tableId]⟩ }) := rfl
  have ht : e.page block.kind block.overrides = pure tableTemplate := page_eq_pure (bundled ▸ rfl)
  have hc : Snippet.ofTemplate tableTemplate = .leaf tableTemplate := by decide +kernel
  have hr : ∀ r ∈ shownRows title pageTitle pages, r.Sound ∧ '$' ∉ r.title := by
    intro r hr
    rw [shownRows] at hr
    split at hr
    case isTrue =>
      have ⟨p, hp, he⟩ := List.mem_map.mp hr
      subst he
      exact ⟨Row.sound_ofPage p, h p hp⟩
    case isFalse => cases hr
  rw [expand, run_issue_bind, hi, ht, pure_bind, hc]
  dsimp only [Snippet.leaf]
  rw [fill_table bundled hd h, bind_assoc, run_countOutputs_bind, pure_bind, run_pure]
  have := finishSnippet_table (fun r hm => (hr r hm).1) fun r hm => (hr r hm).2
  rw [Snippet.leaf] at this
  rw [this]
  rfl

end Bundled
end WikiPages.Report
