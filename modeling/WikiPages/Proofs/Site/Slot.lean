import WikiPages.Proofs.Site.Building
import WikiPages.Proofs.Template.Slot

namespace WikiPages

open Text

namespace Draft

open PageTree Visit

variable {page : Snippet} {title : Text} {lines : Steps}

-- What is written between the two sides of a page: a walk over the snippets of its lines, in their order.
structure Between (page : Snippet) (title : Text) (lines : Steps) (inner : List Visit) : Prop where
  walk  : (run title page lines).tree.Walk ((run title page lines).tree.children 0) inner
  order : (entered inner).map (run title page lines).tree.snippet? = lines.map fun line => some line.2

-- The lines of a page are rendered at its slot. As everywhere, a slot takes the blanks in front of it with it.
def Around (page : Snippet) (title : Text) (lines : Steps) (content : Text) : Prop :=
  ∃ inner, Between page title lines inner ∧
    content = Mark.erase (page.head.map .char ++
      inner.flatMap (run title page lines).tree.marks ++
      (page.tail.map fun tail => .slot :: tail.map .char).getD [])

theorem around_render (title : Text) (page : Snippet) (lines : Steps) :
    Around page title lines (run title page lines).tree.render := by
  have spine := Spine.run title page lines
  have ⟨before, behind, w, he, _⟩ := spine.walk
  have render := spine.grown.render_eq_erase_of_walk w
  generalize before ++ behind.map leave = visits at w he render
  cases w
  case node inner _ walk behind =>
    cases behind
    refine ⟨inner, ⟨walk, ?_⟩, ?_⟩
    · have size := size_run title page lines
      have order : 0 :: entered inner = List.range (lines.length + 1) := by
        rw [← size, ← he, List.cons_append, entered_enter, entered_append, entered_leave]
        exact (congrArg _ (List.append_nil _)).symm
      have all := congrArg (List.map (run title page lines).tree.snippet?) order
      rw [map_snippet?_run, List.map_cons, List.map_cons, List.map_map] at all
      exact (List.cons.inj all).2
    · have root : (run title page lines).tree.snippet? 0 = some page := snippet?_run title page lines 0
      have head : (run title page lines).tree.marks (.enter 0) = page.head.map .char := by
        rw [marks, root]
        rfl
      have foot : (run title page lines).tree.marks (.leave 0) =
          (page.tail.map fun tail => .slot :: tail.map .char).getD [] := by
        rw [marks, root, Option.bind_some]
        cases page.tail <;> rfl
      rw [render, List.cons_append, List.flatMap_cons, List.flatMap_append, List.flatMap_singleton, head, foot,
        List.append_assoc]

end Draft

namespace Site

variable {site : Site} {t : Text}

theorem apart_pageValues (language title : Text) : (pageValues language title).Apart := by
  have keys : ∀ key ∈ [lit "lang", lit "title"], Hole.Apart key := by decide
  intro entry he
  exact keys entry.1 (List.mem_map_of_mem he)

-- What a page starts from, and the text of its template in front of the slot, when it is filled.
def root (site : Site) (t title : Text) : Snippet := .ofTemplate ((pageValues site.language title).apply t)

def frontOf (site : Site) (t title : Text) : Text :=
  (pageValues site.language title).apply (Snippet.ofTemplate t).head

-- A page starts from its template, filled and then cut. That is the template cut and then filled on both sides of
-- its slot, exactly if what is filled in makes no slot in front of that one. The lines below a heading are rendered
-- at the slot of what the page starts from.
theorem slot_stays_iff (ht : site.expander.templates.text pageTemplate Templates.pageExtension = .ok t) :
    (∀ title,
      site.startDraft title = .ok (.start title (site.root t title)) ∧
      (site.root t title = (Snippet.ofTemplate t).map (pageValues site.language title).apply ↔
        ¬ Hole.content <:+: site.frontOf t title)) ∧
    ∀ written pages, site.rawPages written = .ok pages →
      List.Forall₂
        (fun s p => p.title = s.title ∧ ∃ fs d,
          AddsAll site (.start s.title (site.root t s.title)) s.lines fs d ∧ p = d.finish ∧
          fs.length = s.lines.length ∧
          Draft.Around (site.root t s.title) s.title (steps s.lines fs) p.content)
        (sections written) pages := by
  refine ⟨fun title => ⟨?_, Snippet.ofTemplate_apply_iff (apart_pageValues site.language title)⟩,
    fun written pages h => ?_⟩
  · rw [startDraft, Templates.page, Templates.fill, ht]
    rfl
  · rw [rawPages_eq] at h
    have ⟨drafts, hd, hp⟩ := exists_of_map h
    rw [← hp, List.forall₂_map_right_iff]
    refine (forall₂_of_mapM hd).imp fun s d hs => ?_
    have ⟨t', fs, ht', all, length, title, tree⟩ := exists_run hs
    cases ht.symm.trans ht'
    have content : d.finish.content = _ := congrArg PageTree.render tree
    exact ⟨title, fs, d, all, rfl, length, content ▸ Draft.around_render ..⟩

def headedTemplate : Text := lit "<h1>$\x7btitle\x7d</h1>\n$\x7bcontent\x7d\n<p>$\x7blang\x7d</p>"

def headed : Site where
  specification := []
  expander      :=
    { templates := Cabinet.templates {}
        [.memory [(lit "web-page.html", headedTemplate), (lit "_default.html", Hole.content)]]
      fetch     := fun _ => .error (.data .malformed)
      policy    := default }
  language      := lit "en"
  reportTitle   := lit "Report"

theorem slot_stays_headed :
    headed.expander.templates.text pageTemplate Templates.pageExtension = .ok headedTemplate ∧
    headed.root headedTemplate (lit "Home") =
      .withSlot (lit "<h1>Home</h1>\n") (lit "\n<p>en</p>") ∧
    headed.root headedTemplate (lit "Home") =
      (Snippet.ofTemplate headedTemplate).map (pageValues headed.language (lit "Home")).apply ∧
    ∃ p fs, headed.rawPages [lit "== Home", lit "Hello"] = .ok [p] ∧
      p.content = lit "<h1>Home</h1>\nHello\n<p>en</p>" ∧
      Draft.Around (headed.root headedTemplate (lit "Home")) (lit "Home") (steps [lit "Hello"] fs)
        p.content := by
  have ht : headed.expander.templates.text pageTemplate Templates.pageExtension = .ok headedTemplate := by rfl
  have ⟨started, rendered⟩ := slot_stays_iff ht
  have front : headed.frontOf headedTemplate (lit "Home") = lit "<h1>Home</h1>\n" := by decide
  have stays := (started (lit "Home")).2.mpr (front ▸ by decide)
  have pages : headed.rawPages [lit "== Home", lit "Hello"] =
      .ok [{ title := lit "Home", content := lit "<h1>Home</h1>\nHello\n<p>en</p>" }] := by rfl
  cases rendered _ _ pages
  case cons page _ =>
    have ⟨_, fs, _, _, _, _, around⟩ := page
    exact ⟨ht, by decide, stays, _, fs, pages, rfl, around⟩

-- A heading can be a slot, and then comes first.
theorem not_root_eq_map :
    ¬ ∀ (site : Site) (t l title : Text) (start : Draft),
      site.expander.templates.text pageTemplate Templates.pageExtension = .ok t →
      Line.heading? l = some title → site.startDraft title = .ok start →
        start.tree.root = (Snippet.ofTemplate t).map (pageValues site.language title).apply := by
  intro h
  have started : headed.startDraft Hole.content =
      .ok (.start Hole.content (.withSlot (lit "<h1>") (lit "</h1>\n$\x7bcontent\x7d\n<p>en</p>"))) := by rfl
  have same := h headed headedTemplate (lit "== $\x7bcontent\x7d") Hole.content _ (by rfl) (by rfl) started
  exact absurd same (by decide)

end Site
end WikiPages
