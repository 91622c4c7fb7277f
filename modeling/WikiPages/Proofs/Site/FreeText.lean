import WikiPages.Proofs.Expansion.Steps
import WikiPages.Proofs.Page.Lines
import WikiPages.Proofs.Specification.Lacking
import WikiPages.Proofs.Specification.Reading
import WikiPages.Proofs.Template.Leaks

namespace WikiPages

open Text

variable {l piece s : Text} {parts : List Text}

namespace Text

theorem flatMap_lineBreak (h : parts ≠ []) : parts.flatMap (· ++ lineBreak) = join lineBreak parts ++ lineBreak := by
  induction parts using join.induct
  case case1 => exact absurd rfl h
  case case2 => simp
  case case3 first second parts hi => simp [hi]

theorem IsTrimmed.exists_last (h : IsTrimmed s) (hne : s ≠ []) : ∃ front c, s = front ++ [c] ∧ isBlank c = false :=
  ⟨_, _, (List.dropLast_append_getLast hne).symm, h.last _ (List.getLast?_eq_some_getLast hne)⟩

theorem endsLine_flatMap (h : ∀ part ∈ parts, IsTrimmed part ∧ part ≠ []) (hne : parts ≠ []) :
    EndsLine (parts.flatMap (· ++ lineBreak)) := by
  have ⟨front, last, he⟩ := List.eq_nil_or_concat parts |>.resolve_left hne
  have ⟨trimmed, hl⟩ := h last (by simp [he])
  have ⟨start, c, hs, hc⟩ := trimmed.exists_last hl
  exact ⟨front.flatMap (· ++ lineBreak) ++ start, c, by simp [he, hs, lineBreak], hc⟩

theorem trimEnd_flatMap (h : ∀ part ∈ parts, IsTrimmed part ∧ part ≠ []) (hne : parts ≠ []) (head : Text) :
    trimEnd (head ++ parts.flatMap (· ++ lineBreak)) = head ++ join lineBreak parts := by
  have ⟨front, c, hs, hc⟩ := endsLine_flatMap h hne
  have blank : isBlank lf = true := rfl
  rw [flatMap_lineBreak hne] at hs ⊢
  have he : join lineBreak parts ++ lineBreak = (front ++ [c]) ++ lineBreak := by simpa [lineBreak] using hs
  rw [List.append_cancel_right he]
  simp [trimEnd, lineBreak, blank, hc]

end Text

namespace Line

def pieces (l : Text) : List Text := ((split '|' (withoutMarkers l)).map trim).filter (· ≠ [])

-- A line that is neither a heading nor a directive and says something.
structure IsFree (l : Text) : Prop where
  plain    : heading? l = none
  unopened : '{' ∉ l
  unclosed : '}' ∉ l
  spoken   : pieces l ≠ []

instance : Decidable (IsFree l) :=
  decidable_of_iff (heading? l = none ∧ '{' ∉ l ∧ '}' ∉ l ∧ pieces l ≠ [])
    ⟨fun ⟨plain, unopened, unclosed, spoken⟩ => ⟨plain, unopened, unclosed, spoken⟩,
      fun h => ⟨h.plain, h.unopened, h.unclosed, h.spoken⟩⟩

def snippet (l : Text) : Snippet := .withSlot ((pieces l).flatMap (· ++ lineBreak)) lineBreak

theorem trimmed_of_mem_pieces (h : piece ∈ pieces l) : IsTrimmed piece ∧ piece ≠ [] := by
  simp only [pieces, List.mem_filter, List.mem_map, decide_eq_true_eq] at h
  have ⟨⟨_, _, he⟩, hne⟩ := h
  exact ⟨he ▸ isTrimmed_trim _, hne⟩

theorem subset_of_mem_pieces (h : piece ∈ pieces l) : piece ⊆ l := by
  simp only [pieces, List.mem_filter, List.mem_map] at h
  have ⟨⟨part, hp, he⟩, _⟩ := h
  have within : part ⊆ withoutMarkers l := subset_of_mem_splitWhere hp
  have behind : withoutMarkers l ⊆ l := (List.dropWhile_sublist _).subset
  exact he ▸ List.Subset.trans (trim_sublist part).subset (List.Subset.trans within behind)

theorem allBlank_eq_false (h : pieces l ≠ []) : allBlank l = false := by
  have ⟨piece, hp⟩ := List.exists_mem_of_ne_nil _ h
  have ⟨trimmed, hne⟩ := trimmed_of_mem_pieces hp
  have ⟨front, c, he, hc⟩ := trimmed.exists_last hne
  have hm : c ∈ l := subset_of_mem_pieces hp (by simp [he])
  exact List.all_eq_false.mpr ⟨c, hm, by simp [hc]⟩

theorem isLines_snippet (h : pieces l ≠ []) : (snippet l).IsLines :=
  ⟨endsLine_flatMap (fun _ => trimmed_of_mem_pieces) h, rfl⟩

theorem freeLines_list (l : Text) :
    Expander.freeLines (Parameter.list (withoutMarkers l)) = (pieces l).flatMap (· ++ lineBreak) := by
  have trimmed : ∀ piece ∈ pieces l, trim piece = piece := fun piece hp => (trimmed_of_mem_pieces hp).1.trim_eq
  rw [Expander.freeLines, Parameter.list, List.flatMap_map]
  exact List.flatMap_congr fun piece hp => by simp [trimmed piece hp]

theorem IsFree.ofLine (h : IsFree l) (fetch : Block.Fetch) :
    Block.ofLine fetch l = .ok (Block.withData (Directive.ofFreeText l) none) := by
  have read : Directive.parse l = Directive.ofFreeText l := by
    rw [Directive.parse, Directive.braces?_eq_none h.unopened]
  rw [Block.ofLine, read]
  rfl

end Line

namespace Expander

variable {e : Expander}

theorem fill_nil (title id : Text) (block : Block) : e.fill title id block [] = pure [] := rfl

-- Free text has the bundled template, and forms the tags that they have by default.
structure PlainText (e : Expander) : Prop where
  template : e.templates.text Directive.freeKind Templates.pageExtension =
    (Cabinet.templates {} Cabinet.bundled).text Directive.freeKind Templates.pageExtension
  tags     : e.policy.formTags = TagPolicy.tags TagPolicy.defaultFormTags

theorem PlainText.page (h : e.PlainText) : e.page Directive.freeKind {} = pure Hole.content := by
  apply page_eq_pure
  rw [Templates.page, Templates.fill, h.template]
  rfl

theorem PlainText.isForm (h : e.PlainText) : e.policy.isForm Hole.content = false := by
  rw [TagPolicy.isForm, h.tags]
  decide

theorem PlainText.slotText (h : e.PlainText) (title l : Text) :
    e.slotText title Hole.content (Block.withData (Directive.ofFreeText l) none) =
      pure ((Line.pieces l).flatMap (· ++ lineBreak)) := by
  simp only [Expander.slotText, h.isForm, Bool.false_eq_true, ↓reduceIte]
  exact congrArg pure (Line.freeLines_list l)

theorem finishSnippet_free (hl : Line.IsFree l) :
    finishSnippet ((Snippet.withSlot [] []).pushBeforeSlot ((Line.pieces l).flatMap (· ++ lineBreak))) =
      Line.snippet l := by
  have unclosed : '}' ∉ (Line.pieces l).flatMap (· ++ lineBreak) := by
    intro hm
    have ⟨piece, hp, hm⟩ := List.mem_flatMap.mp hm
    rcases List.mem_append.mp hm with hm | hm
    · exact hl.unclosed (Line.subset_of_mem_pieces hp hm)
    · exact absurd hm (by decide)
  exact congrArg (Snippet.withSlot · lineBreak) (Hole.stripUnfilled_of_unclosed unclosed)

theorem PlainText.expand (h : e.PlainText) (hl : Line.IsFree l) (title : Text) (ledger : Ledger) :
    ∃ ledger', (e.expand title (Block.withData (Directive.ofFreeText l) none)).run.run ledger =
      (.ok (Line.snippet l), ledger') := by
  have cut : Snippet.ofTemplate Hole.content = .withSlot [] [] := by decide
  have inner := h.slotText title l
  refine ⟨(ledger.issue (IdPool.lineContext Directive.freeKind [])).2, ?_⟩
  rw [Expander.expand, run_issue_bind, ← finishSnippet_free hl]
  simp only [Block.withData, Directive.ofFreeText] at inner ⊢
  simp only [h.page, pure_bind, cut, Snippet.withSlot, fill_nil, inner]
  rfl

end Expander

namespace Site

open Draft

variable {site : Site} {written : List Text} {d : Draft} {drafts : List Draft}

theorem addBlock_eq_ok {block : Block} {f : Snippet} {ledger : Ledger}
    (h : (site.expander.expand d.title block).run.run d.ledger = (.ok f, ledger)) :
    site.addBlock d block = .ok (({ d with
      ledger := if site.expander.policy.isInput f.text then ledger.countInput else ledger } : Draft).insert f) := by
  rw [addBlock, h]

theorem line_free (h : site.expander.PlainText) (hl : Line.IsFree l) (d : Draft) (drafts : List Draft) :
    ∃ d', site.line (d :: drafts) l = .ok (d' :: drafts) ∧ Adds site d l (Line.snippet l) d' := by
  have ⟨ledger, expanded⟩ := h.expand hl d.title d.ledger
  have added := addBlock_eq_ok (d := d.enter (.ofNat (Line.level l))) expanded
  refine ⟨_, ?_, .block (hl.ofLine _) expanded⟩
  rw [line_line hl.plain, Line.allBlank_eq_false hl.spoken, addLine, hl.ofLine]
  exact congrArg (Except.map (· :: drafts)) added

theorem foldlM_free (h : site.expander.PlainText) (hw : ∀ l ∈ written, Line.IsFree l) (d : Draft)
    (drafts : List Draft) :
    ∃ d', written.foldlM site.line (d :: drafts) = .ok (d' :: drafts) ∧
      AddsAll site d written (written.map Line.snippet) d' := by
  induction written generalizing d
  case nil => exact ⟨d, rfl, .nil⟩
  case cons l written hi =>
    have ⟨first, rest⟩ := List.forall_mem_cons.mp hw
    have ⟨d', hl, added⟩ := line_free h first d drafts
    have ⟨d'', hr, all⟩ := hi rest d'
    exact ⟨d'', by rw [List.foldlM_cons, hl]; exact hr, .cons added all⟩

-- Lines of free text stand on their page one below the other, whatever their markers and levels are. Without any the
-- slot takes the blank end of what is in front of it, as everywhere.
theorem content_of_free (h : site.expander.PlainText) (hw : ∀ l ∈ written, Line.IsFree l) (title head tail : Text)
    (drafts : List Draft) :
    ∃ d, written.foldlM site.line (.start title (.withSlot head tail) :: drafts) = .ok (d :: drafts) ∧
      d.finish.title = title ∧
      d.finish.content =
        (if written = [] then trimEnd head else head ++ join lineBreak (written.flatMap Line.pieces)) ++ tail := by
  have ⟨d, run, all⟩ := foldlM_free h hw (.start title (.withSlot head tail)) drafts
  have pairs : steps written (written.map Line.snippet) =
      written.map fun l => (.ofNat (Line.level l), Line.snippet l) :=
    List.zip_map'
  have lines : ∀ line ∈ steps written (written.map Line.snippet), line.2.IsLines := by
    rw [pairs]
    intro line hm
    have ⟨l, hl, he⟩ := List.mem_map.mp hm
    exact he ▸ Line.isLines_snippet (hw l hl).spoken
  have heads : (steps written (written.map Line.snippet)).flatMap (·.2.head) =
      (written.flatMap Line.pieces).flatMap (· ++ lineBreak) := by
    rw [pairs, List.flatMap_map, List.flatMap_assoc]
    rfl
  have content : d.finish.content = _ := congrArg (·.tree.render) (all.run {}).2
  refine ⟨d, run, all.title_eq, ?_⟩
  rw [content]
  refine (render_lines title head tail lines).trans (congrArg (· ++ tail) ?_)
  rw [heads]
  split
  case isTrue he => simp [he]
  case isFalse hne =>
    have spoken : written.flatMap Line.pieces ≠ [] := by
      have ⟨l, hl⟩ := List.exists_mem_of_ne_nil _ hne
      have ⟨piece, hp⟩ := List.exists_mem_of_ne_nil _ (hw l hl).spoken
      exact List.ne_nil_of_mem (List.mem_flatMap_of_mem hl hp)
    have trimmed : ∀ piece ∈ written.flatMap Line.pieces, IsTrimmed piece ∧ piece ≠ [] := by
      intro piece hp
      have ⟨_, _, hp⟩ := List.mem_flatMap.mp hp
      exact Line.trimmed_of_mem_pieces hp
    exact trimEnd_flatMap trimmed spoken head

def nestedLines : List Text :=
  [lit "* One | Two", lit "*** Three", lit "# * Four || |", lit "Five $", lit "** Six"]

theorem content_of_free_nested :
    headed.expander.PlainText ∧ (∀ l ∈ nestedLines, Line.IsFree l) ∧
    ∃ d, nestedLines.foldlM headed.line [.start (lit "Home") (.withSlot (lit "<main>\n") (lit "\n</main>"))] =
        .ok [d] ∧
      d.finish.content = lit "<main>\nOne\nTwo\nThree\nFour\nFive $\nSix\n</main>" := by
  have plain : headed.expander.PlainText := ⟨by rfl, by rfl⟩
  have free : ∀ l ∈ nestedLines, Line.IsFree l := by decide
  have ⟨d, run, _, content⟩ := content_of_free plain free (lit "Home") (lit "<main>\n") (lit "\n</main>") []
  exact ⟨plain, free, d, run, content.trans (by decide)⟩

-- With no line to take the blanks, they are not kept.
theorem not_content_of_no_lines :
    ¬ ∀ (site : Site) (written : List Text) (title head tail : Text),
      site.expander.PlainText → (∀ l ∈ written, Line.IsFree l) →
        ∃ d, written.foldlM site.line [.start title (.withSlot head tail)] = .ok [d] ∧
          d.finish.content = head ++ join lineBreak (written.flatMap Line.pieces) ++ tail := by
  intro h
  have ⟨d, run, content⟩ := h headed [] (lit "Only") (lit "<main>\n") (lit "\n</main>") ⟨by rfl, by rfl⟩ nofun
  cases run
  exact absurd content (by decide)

end Site
end WikiPages
