import WikiPages.Proofs.Expansion.Counting
import WikiPages.Proofs.Html.Layout
import WikiPages.Proofs.Template.Spacing

namespace WikiPages

open Text Hole Html

def Snippet.ids (f : Snippet) : List Text := Html.ids f.head ++ Html.ids (f.tail.getD [])

structure Snippet.Laid (f : Snippet) : Prop where
  head : Layout f.head
  tail : Layout (f.tail.getD [])

instance : DecidablePred Snippet.Laid := fun f =>
  decidable_of_iff (Layout f.head ∧ Layout (f.tail.getD [])) ⟨fun ⟨head, tail⟩ => ⟨head, tail⟩, fun h => ⟨h.head, h.tail⟩⟩

theorem Snippet.Laid.map_fillAll {f : Snippet} {g : Text → Option Text} (h : f.Laid) (head : Suits g f.head)
    (tail : Suits g (f.tail.getD [])) :
    (f.map (fillAll g)).Laid ∧ (f.map (fillAll g)).ids = (f.ids.map (fillAll g)).filter (· ≠ []) := by
  have behind : (f.map (fillAll g)).tail.getD [] = fillAll g (f.tail.getD []) := by
    rw [Snippet.map]
    cases f.tail <;> rfl
  obtain ⟨front, first, _⟩ := h.head.fillAll head
  obtain ⟨back, second, _⟩ := h.tail.fillAll tail
  refine ⟨⟨front, behind ▸ back⟩, ?_⟩
  rw [Snippet.ids, behind, second, Snippet.ids, List.map_append, List.filter_append, ← first]
  rfl

namespace Html

def headingEnd : Text := lit "_heading"

-- The ids that a bundled template may show: that of its line and, for a section, that of its heading.
def idsOf (file : Text) : List Text :=
  of (lit "id") :: if file = lit "section.html" then [of (lit "id") ++ headingEnd] else []

def parts : List (Text × List Text) :=
  [(lit "th", [lit "style", lit "title"]), (lit "tr", [lit "content"]), (lit "menu-item", [lit "url", lit "title"])]

-- A bundled template, whole or cut at its slot. Headers and data take items without ids.
structure Sheet (file t : Text) : Prop where
  cuts    : ∀ cut ∈ [Snippet.leaf t, Snippet.ofTemplate t], cut.Laid ∧ cut.ids.Sublist (idsOf file)
  headers : ∀ argument ∈ arguments Expander.headerKind t, argument = lit "th@tr"
  data    : ∀ argument ∈ arguments Expander.dataKind t, argument ∈ [lit "td@tr", lit "list-item", lit "select-item"]
  items   : ∀ start ∈ [lit "th", lit "tr", lit "td", lit "list-item", lit "select-item"], start <+: file → Expander.Bare t
  spaced  : ∀ start ∈ [lit "th", lit "text-input"], start <+: file → Edged t
  known   : ∀ part ∈ parts, part.1 <+: file → insides t ⊆ part.2 ∧ ids t = []
  page    : lit "web-page" <+: file → ∀ cut ∈ [Snippet.leaf t, Snippet.ofTemplate t], cut.ids = []

instance {file t : Text} : Decidable (Sheet file t) :=
  decidable_of_iff
    ((∀ cut ∈ [Snippet.leaf t, Snippet.ofTemplate t], cut.Laid ∧ cut.ids.Sublist (idsOf file)) ∧
      (∀ argument ∈ arguments Expander.headerKind t, argument = lit "th@tr") ∧
      (∀ argument ∈ arguments Expander.dataKind t,
        argument = lit "td@tr" ∨ argument = lit "list-item" ∨ argument = lit "select-item") ∧
      (∀ start ∈ [lit "th", lit "tr", lit "td", lit "list-item", lit "select-item"], start <+: file → Expander.Bare t) ∧
      (∀ start ∈ [lit "th", lit "text-input"], start <+: file → Edged t) ∧
      (∀ part ∈ parts, part.1 <+: file → insides t ⊆ part.2 ∧ ids t = []) ∧
      (lit "web-page" <+: file → ∀ cut ∈ [Snippet.leaf t, Snippet.ofTemplate t], cut.ids = []))
    ⟨fun ⟨cuts, headers, data, items, spaced, known, page⟩ =>
        ⟨cuts, headers, by simpa using data, items, spaced, known, page⟩,
      fun h => ⟨h.cuts, h.headers, by simpa using h.data, h.items, h.spaced, h.known, h.page⟩⟩

theorem sheets : ∀ entry ∈ Shelf.bundledTexts, Sheet entry.1 (dropFinalBreak entry.2) := by
  decide +kernel

theorem sheet_nil (file : Text) : Sheet file [] := by
  have none : arguments Expander.headerKind [] = [] ∧ arguments Expander.dataKind [] = [] := by decide
  have leaf : Snippet.ofTemplate [] = .leaf [] := rfl
  have laid : (Snippet.leaf []).Laid ∧ (Snippet.leaf []).ids = [] := by decide
  exact ⟨by simp [leaf, laid], by simp [none], by simp [none], fun _ _ _ => .of_free List.not_mem_nil,
    fun _ _ _ => by decide, fun _ _ _ => ⟨nofun, rfl⟩, by simp [leaf, laid]⟩

def marks : Text := ['\x22', '$', '<', '>']

def signs : Text := lf :: marks

theorem not_mem_of_signs {s : Text} (h : (signs.all fun c => !List.elem c s) = true) : ∀ c ∈ signs, c ∉ s := by
  intro c hc hm
  have := List.all_eq_true.mp h c hc
  simp [hm] at this

theorem unmarked_of_signs {s : Text} (h : ∀ c ∈ signs, c ∉ s) : Unmarked s where
  free   := h '$' (by decide)
  inline := by
    intro c hm
    have (d : Char) (hd : d ∈ signs) : c ≠ d := fun he => h d hd (he ▸ hm)
    exact ⟨this _ (by decide), this _ (by decide), this _ (by decide), this _ (by decide)⟩

end Html

namespace Expander

variable {tree : FileTree} {e : Expander} {block : Block} {p : Parameter} {argument name : Text}

theorem prefix_headerName (e : Expander) (p : Parameter) :
    lit "th" <+: Cabinet.fileName (e.headerName (lit "th") p) Templates.pageExtension := by
  rw [← headerTemplate_eq]
  rcases headerTemplate_cases (e := e) (lit "th") p with he | ⟨variant, he⟩
  · rw [he]
    exact ⟨_, rfl⟩
  · rw [he]
    exact ⟨_, rfl⟩

section

variable (h : e.templates = Cabinet.templates tree Cabinet.bundled)

include h

theorem sheet_of_bundled (name : Text) :
    Sheet (Cabinet.fileName name Templates.pageExtension) (e.templateText name) := by
  rcases templateText_cases h name with he | ⟨entry, hm, hk, he⟩
  · exact he ▸ sheet_nil _
  · exact hk ▸ he ▸ sheets entry hm

theorem layout_of_bundled (name : Text) : Layout (e.templateText name) :=
  ((sheet_of_bundled h name).cuts (.leaf _) List.mem_cons_self).1.head

theorem parse_header_of_bundled (ha : argument ∈ arguments headerKind (e.templateText name)) :
    itemRow argument = ⟨lit "th", some (lit "tr")⟩ := by
  rw [(sheet_of_bundled h name).headers argument ha]
  decide

theorem separate_of_bundled (block : Block) (name : Text) : e.Separate block (e.templateText name) := by
  have row : Bare (e.templateText (lit "tr")) :=
    (sheet_of_bundled h _).items (lit "tr") (by decide) ⟨_, rfl⟩
  refine ⟨fun argument ha => ?_, fun argument ha => ?_⟩
  · rw [parse_header_of_bundled h ha]
    refine ⟨fun p _ => ?_, fun name hr => Option.some.inj hr ▸ row⟩
    exact (sheet_of_bundled h _).items (lit "th") (by decide) (prefix_headerName e p)
  · have item (start : Text) (hs : start ∈ [lit "td", lit "list-item", lit "select-item"])
        (hp : start <+: Cabinet.fileName start Templates.pageExtension) : Bare (e.templateText start) :=
      (sheet_of_bundled h _).items start (List.mem_cons_of_mem _ (List.mem_cons_of_mem _ hs)) hp
    have known := (sheet_of_bundled h name).data argument ha
    simp only [List.mem_cons, List.not_mem_nil, or_false] at known
    rcases known with rfl | rfl | rfl
    · have parsed : itemRow (lit "td@tr") = ⟨lit "td", some (lit "tr")⟩ := by decide
      rw [parsed]
      exact ⟨item _ (by decide) ⟨_, rfl⟩, fun name hr => Option.some.inj hr ▸ row⟩
    · have parsed : itemRow (lit "list-item") = ⟨lit "list-item", none⟩ := by decide
      rw [parsed]
      exact ⟨item _ (by decide) ⟨_, rfl⟩, nofun⟩
    · have parsed : itemRow (lit "select-item") = ⟨lit "select-item", none⟩ := by decide
      rw [parsed]
      exact ⟨item _ (by decide) ⟨_, rfl⟩, nofun⟩

theorem apply_spaced {start : Text} {σ : Substitution} (hs : start ∈ [lit "th", lit "text-input"])
    (hp : start <+: Cabinet.fileName name Templates.pageExtension) (hσ : ∀ c ∈ signs, σ.Lacks c) :
    σ.apply (e.templateText name) = fillAll σ.lookup (e.templateText name) := by
  have edged := (sheet_of_bundled h name).spaced start hs hp
  refine (Spaced.of_clean (layout_of_bundled h name).clean edged).apply_eq_fillAll fun entry he => ⟨?_, ?_⟩
  · rintro c hc (rfl | rfl)
    · exact (hσ '\x22' (by decide) entry he).1 hc
    · exact (hσ '<' (by decide) entry he).1 hc
  · exact (hσ '$' (by decide) entry he).2

theorem immediate_of_bundled (hb : ∀ p ∈ block.parameters, ∀ c ∈ signs, p.Lacks c) (name : Text) :
    e.Immediate block (e.templateText name) := by
  intro argument ha p hp
  rw [parse_header_of_bundled h ha]
  exact apply_spaced h (by decide) (prefix_headerName e p) fun c hc => (hb p hp c hc).overrides

end

theorem unmarked_lookup {σ : Substitution} (h : ∀ c ∈ signs, σ.Lacks c) :
    ∀ inside, ∀ v ∈ σ.lookup inside, Unmarked v :=
  fun inside v hv => unmarked_of_signs fun c hc => (h c hc (inside, v) (mem_of_lookup hv)).2

theorem unmarked_headerValue (hp : ∀ c ∈ signs, p.Lacks c) :
    ∀ inside, ∀ v ∈ headerValue p inside, Unmarked v := by
  intro inside v hv
  rcases Option.or_eq_some_iff.mp hv with hv | ⟨_, hv⟩
  · rcases Option.or_eq_some_iff.mp hv with hv | ⟨_, hv⟩
    · exact unmarked_lookup (fun c hc => (hp c hc).overrides) inside v hv
    · exact (eq_of_mem_only hv).2 ▸ unmarked_of_signs fun c hc => (hp c hc).style
  · exact (eq_of_mem_only hv).2 ▸ unmarked_of_signs fun c hc => (hp c hc).name

theorem silent_fillAll {f : Text → Option Text} {s : Text} (hs : Layout s) (hi : Html.ids s = []) (hf : Suits f s)
    (full : ∀ inside ∈ insides s, f inside ≠ none) : Silent (fillAll f s) := by
  have ⟨layout, ids, left⟩ := hs.fillAll hf
  have none : (insides s).filter (f · = none) = [] := List.filter_eq_nil_iff.mpr (by simpa using full)
  exact ⟨not_mem_of_insides layout.clean (left.trans none), layout.markup, by rw [ids, hi]; rfl⟩

section

variable (h : e.templates = Cabinet.templates tree Cabinet.bundled)

include h

theorem silent_headerItemText (hp : ∀ c ∈ signs, p.Lacks c) : Silent (e.headerItemText (lit "th") p) := by
  have ⟨holes, ids⟩ := (sheet_of_bundled h (e.headerName (lit "th") p)).known
    (lit "th", [lit "style", lit "title"]) (by decide) (prefix_headerName e p)
  have values : Suits (headerValue p) (e.templateText (e.headerName (lit "th") p)) :=
    fun inside _ v hv => .inl (unmarked_headerValue hp inside v hv)
  refine silent_fillAll (layout_of_bundled h _) ids values fun inside hi => ?_
  have known := holes hi
  simp only [List.mem_cons, List.not_mem_nil, or_false] at known
  rcases known with rfl | rfl <;> simp [headerValue, only]

theorem silent_headerText (hb : ∀ p ∈ block.parameters, ∀ c ∈ signs, p.Lacks c)
    (ha : argument ∈ arguments headerKind (e.templateText name)) : Silent (e.headerText block argument) := by
  have ⟨holes, ids⟩ := (sheet_of_bundled h (lit "tr")).known (lit "tr", [lit "content"]) (by decide) ⟨_, rfl⟩
  rw [headerText, parse_header_of_bundled h ha]
  have cells : Silent (block.parameters.map (e.headerItemText (lit "th"))).flatten := by
    refine .flatten fun t ht => ?_
    have ⟨p, hp, he⟩ := List.mem_map.mp ht
    exact he ▸ silent_headerItemText h (hb p hp)
  refine silent_fillAll (layout_of_bundled h _) ids (fun inside _ v hv => ?_) fun inside hi => ?_
  · have ⟨here, same⟩ := eq_of_mem_only hv
    exact .inr ⟨.inl here, same ▸ cells⟩
  · rw [List.mem_singleton.mp (holes hi), only_self]
    exact Option.some_ne_none _

end
end Expander
end WikiPages
