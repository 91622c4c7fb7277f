import WikiPages.Proofs.Expansion.Sides
import WikiPages.Proofs.Html.Sheets

namespace WikiPages

open Text Hole Html

-- What an id is issued for on a page, and whether it has a heading with an id of its own.
structure Component where
  request : IdPool.Request
  headed  : Bool

namespace Component

def idsFrom (pool : IdPool) (components : List Component) : List Text :=
  (IdPool.serveAll pool (components.map (·.request))).1

def poolAfter (pool : IdPool) (components : List Component) : IdPool :=
  (IdPool.serveAll pool (components.map (·.request))).2

def headingsFrom (pool : IdPool) (components : List Component) : List Text :=
  ((idsFrom pool components).zip components).flatMap fun (id, c) => if c.headed then [id ++ headingEnd] else []

def shownFrom (pool : IdPool) (components : List Component) : List Text :=
  ((idsFrom pool components).zip components).flatMap fun (id, c) => id :: if c.headed then [id ++ headingEnd] else []

variable (pool : IdPool) (components others : List Component)

theorem shownFrom_cons (c : Component) : shownFrom pool (c :: components) =
    ((c.request.serve pool).1 :: if c.headed then [(c.request.serve pool).1 ++ headingEnd] else []) ++
      shownFrom (c.request.serve pool).2 components := rfl

theorem length_idsFrom : (idsFrom pool components).length = components.length := by
  rw [idsFrom, IdPool.length_serveAll, List.length_map]

theorem shownFrom_append : shownFrom pool (components ++ others) =
    shownFrom pool components ++ shownFrom (poolAfter pool components) others := by
  have ids : idsFrom pool (components ++ others) =
      idsFrom pool components ++ idsFrom (poolAfter pool components) others := by
    rw [idsFrom, List.map_append, IdPool.serveAll_append]
    rfl
  rw [shownFrom, ids, List.zip_append (length_idsFrom pool components), List.flatMap_append]
  rfl

theorem map_fst_zip_idsFrom : ((idsFrom pool components).zip components).map Prod.fst = idsFrom pool components :=
  List.map_fst_zip (Nat.le_of_eq (length_idsFrom pool components))

theorem perm_shownFrom :
    (shownFrom pool components).Perm (idsFrom pool components ++ headingsFrom pool components) := by
  have apart := List.flatMap_append_perm ((idsFrom pool components).zip components) (fun entry => [entry.1])
    fun (id, c) => if c.headed then [id ++ headingEnd] else []
  rw [← List.map_eq_flatMap, map_fst_zip_idsFrom] at apart
  exact apart.symm

theorem nodup_idsFrom : (idsFrom {} components).Nodup := by
  exact (IdPool.fresh_serveAll {} _).1

theorem nodup_headingsFrom : (headingsFrom {} components).Nodup := by
  have all : (headingsFrom {} components).Sublist ((idsFrom {} components).map (· ++ headingEnd)) := by
    rw [headingsFrom, ← map_fst_zip_idsFrom {} components]
    nth_rewrite 1 [map_fst_zip_idsFrom]
    generalize (idsFrom {} components).zip components = entries
    induction entries
    case nil => exact .slnil
    case cons entry entries hi =>
      rw [List.flatMap_cons, List.map_cons, List.map_cons]
      dsimp only
      split
      case isTrue => exact hi.cons_cons _
      case isFalse => exact hi.cons _
  exact ((nodup_idsFrom components).map (List.append_left_injective headingEnd)).sublist all

theorem free_shown {id : Text} (h : ∀ c ∈ id, Identifier.isTokenChar c = true) (headed : Prop) [Decidable headed] :
    ∀ x ∈ id :: if headed then [id ++ headingEnd] else [], '$' ∉ x := by
  have free := (unmarked_of_token h).free
  have heading : '$' ∉ id ++ headingEnd := List.not_mem_append free (by decide)
  split <;> simp [free, heading]

theorem free_shownFrom : ∀ id ∈ shownFrom pool components, '$' ∉ id := by
  intro id hi
  have ⟨entry, he, hi⟩ := List.mem_flatMap.mp hi
  exact free_shown (IdPool.token_of_mem_serveAll (List.of_mem_zip he).1) _ id hi

end Component

theorem Snippet.exists_ofTemplate_fillAll {f : Text → Option Text} {t : Text} (h : Clean t) (hf : Plain f) :
    ∃ cut ∈ [leaf t, ofTemplate t], ofTemplate (fillAll f t) = cut.map (fillAll f) := by
  have clean := hf.clean h
  by_cases hc : lit "content" ∈ insides (fillAll f t)
  case neg =>
    rw [← infix_iff clean (by decide), ← content] at hc
    exact ⟨leaf t, by simp, ofTemplate_eq_leaf_iff.mpr hc⟩
  case pos =>
    obtain ⟨left, hole⟩ := (insides_fillAll_eq_filter h fun inside _ => hf inside).2 ▸ hc |> List.mem_filter.mp
    have here : content <:+: t := (infix_iff h (by decide)).mpr left
    cases hs : splitOnce? content t
    case none => exact absurd here (splitOnce?_eq_none_iff.mp hs)
    case some sides =>
      have cut := (ofTemplate_eq_withSlot hs).1
      obtain ⟨parts, first⟩ := ofTemplate_eq_withSlot_iff.mp cut
      obtain ⟨front, _⟩ := Clean.split (parts ▸ h)
      have filled : fillAll f t = fillAll f sides.1 ++ (content ++ fillAll f sides.2) := by
        rw [parts, fillAll_append front, content, fillAll_of (by decide), of_decide_eq_true hole]
        rfl
      refine ⟨ofTemplate t, by simp, ?_⟩
      rw [cut]
      refine ofTemplate_eq_withSlot_iff.mpr ⟨filled, fun hm => first ?_⟩
      have again : lit "content" ∈ insides (fillAll f sides.1) := (infix_iff (hf.clean front) (by decide)).mp hm
      exact (infix_iff front (by decide)).mpr (hf.insides_subset front again)

theorem Snippet.insides_subset {cut : Snippet} {t : Text} (h : Clean t) (hc : cut ∈ [leaf t, ofTemplate t]) :
    insides cut.head ⊆ insides t ∧ insides (cut.tail.getD []) ⊆ insides t := by
  simp only [List.mem_cons, List.not_mem_nil, or_false] at hc
  rcases hc with rfl | rfl
  · exact ⟨fun _ hm => hm, nofun⟩
  · have ⟨⟨_, front⟩, tails⟩ := h.ofTemplate
    refine ⟨front, ?_⟩
    cases ht : (ofTemplate t).tail
    case none => exact nofun
    case some tail => exact (tails tail ht).2

namespace Expander

variable {tree : FileTree} {e : Expander} {block : Block} {p : Parameter} {l l' : Ledger} {σ : Substitution}
variable {pageTitle id name s r : Text} {f : Snippet}

def lineValue (e : Expander) (σ : Substitution) (block : Block) (pageTitle id inside : Text) : Option Text :=
  (σ.lookup inside).or (e.blockValue block pageTitle id inside)

theorem token_issue (l : Ledger) (context : Text) : ∀ c ∈ (l.issue context).1, Identifier.isTokenChar c = true :=
  (IdPool.firstFree_freeId l.ids _).token (Identifier.normalize_token context)

theorem lineValue_id (h : σ.lookup (lit "id") = none) (e : Expander) (block : Block) (pageTitle id : Text) :
    e.lineValue σ block pageTitle id (lit "id") = some id := by
  rw [lineValue, h]
  rfl

section Fill

variable (bundled : e.templates = Cabinet.templates tree Cabinet.bundled) (unbound : e.data = none)
variable (hb : ∀ c ∈ signs, block.Lacks c) (hd : block.data = none)
variable (hid : ∀ c ∈ id, Identifier.isTokenChar c = true) (hσ : ∀ c ∈ signs, σ.Lacks c)

include bundled unbound hb hd hid hσ

theorem suits_lineValue (pageTitle : Text) (hi : insides s ⊆ insides (e.templateText name)) :
    Suits (e.lineValue σ block pageTitle id) s := by
  have parameters : ∀ p ∈ block.parameters, ∀ c ∈ signs, p.Lacks c := fun p hp c hc => (hb c hc).parameters p hp
  intro inside hm v hv
  rcases Option.or_eq_some_iff.mp hv with hv | ⟨_, hv⟩
  case inl => exact .inl (unmarked_lookup hσ inside v hv)
  rcases Option.or_eq_some_iff.mp hv with hv | ⟨_, hv⟩
  · rcases Option.or_eq_some_iff.mp hv with hv | ⟨_, hv⟩
    · rcases Option.or_eq_some_iff.mp hv with hv | ⟨_, hv⟩
      · rcases Option.or_eq_some_iff.mp hv with hv | ⟨_, hv⟩
        · exact .inl ((eq_of_mem_only hv).2 ▸ unmarked_of_token hid)
        · exact .inl ((eq_of_mem_only hv).2 ▸ unmarked_of_token (Identifier.normalize_token _))
      · exact .inl ((eq_of_mem_only hv).2 ▸ unmarked_of_signs fun c hc => (hb c hc).title)
    · obtain ⟨argument, ha, he⟩ := Option.map_eq_some_iff.mp hv
      have named := (mem_arguments (layout_of_bundled bundled name).clean).mpr ⟨inside, hi hm, ha⟩
      exact .inr ⟨.inr (.inl (ha ▸ Option.some_ne_none _)), he ▸ silent_headerText bundled parameters named⟩
  · have nothing : v = [] := by
      rcases Option.or_eq_some_iff.mp hv with hv | ⟨_, hv⟩
      · simp only [(eq_of_mem_only hv).2, Binding.scalar, unbound, hd, Option.getD_none]
      · obtain ⟨argument, _, he⟩ := Option.map_eq_some_iff.mp hv
        simp only [← he, dataText, Binding.rows, unbound, hd, List.map_nil]
        rfl
    exact .inl (nothing ▸ ⟨List.not_mem_nil, List.forall_mem_nil _⟩)

omit hd in
theorem yields_lineValue (hs : Clean s) (hi : insides s ⊆ insides (e.templateText name)) :
    Yields (e.fill pageTitle id block (fillAll σ.lookup s)) (fillAll (e.lineValue σ block pageTitle id) s) := by
  have parameters : ∀ p ∈ block.parameters, ∀ c ∈ signs, p.Lacks c := fun p hp c hc => (hb c hc).parameters p hp
  have plain : Plain σ.lookup := plain_lookup (hσ '$' (by decide))
  have clean := plain.clean hs
  have fewer := List.Subset.trans (plain.insides_subset hs) hi
  have whole := (layout_of_bundled bundled name).clean
  have separate := (separate_of_bundled bundled block name).of_subset whole clean fun inside hm _ => fewer hm
  have immediate : e.Immediate block (fillAll σ.lookup s) := fun argument ha =>
    immediate_of_bundled bundled parameters name argument (arguments_subset clean whole fewer ha)
  have filled : fillAll (e.blockValue block pageTitle id) (fillAll σ.lookup s) =
      fillAll (e.lineValue σ block pageTitle id) s := plain.fillAll_fillAll hs
  have nothing : ∀ d ∈ e.data, d.Lacks '$' := by simp [unbound]
  exact filled ▸ yields_fill (hb '$' (by decide)) immediate nothing (unmarked_of_token hid).free clean separate

end Fill

theorem map_idsOf {g : Text → Option Text} (hg : g (lit "id") = some id) (file : Text) :
    (idsOf file).map (fillAll g) = id :: if file = lit "section.html" then [id ++ headingEnd] else [] := by
  have own : fillAll g (of (lit "id") ++ []) = id ++ [] := by
    rw [fillAll_of (by decide), hg]
    rfl
  have heading : fillAll g (of (lit "id") ++ headingEnd) = id ++ headingEnd := by
    rw [fillAll_of (by decide), hg, (Unfilled.of_free (by decide)).fillAll_eq]
    rfl
  rw [List.append_nil, List.append_nil] at own
  rw [idsOf, List.map_cons, own]
  split <;> simp [heading]

theorem ids_map_fillAll {g : Text → Option Text} {cut : Snippet} {file : Text} (laid : cut.Laid)
    (few : cut.ids.Sublist (idsOf file)) (head : Suits g cut.head) (tail : Suits g (cut.tail.getD []))
    (hg : g (lit "id") = some id) :
    (cut.map (fillAll g)).ids.Sublist (id :: if file = lit "section.html" then [id ++ headingEnd] else []) := by
  rw [(laid.map_fillAll head tail).2, ← map_idsOf hg]
  exact (List.filter_sublist).trans (few.map _)

section Finish

variable {g : Text → Option Text} {a b inner : Text} {mine others : List Text}

theorem layout_finish (hs : Layout s) (hg : Suits g s) (hr : Layout r)
    (hd : ∀ id ∈ Html.ids (fillAll g s) ++ Html.ids r, '$' ∉ id) :
    Layout (stripUnfilled (fillAll g s ++ r)) ∧
      Html.ids (stripUnfilled (fillAll g s ++ r)) = Html.ids (fillAll g s) ++ Html.ids r := by
  have ⟨filled, _, _⟩ := hs.fillAll hg
  have same := ids_append filled.markup r
  rw [← same] at hd ⊢
  exact (filled.append hr).stripUnfilled hd

variable (ha : Layout a) (hga : Suits g a) (free : ∀ id ∈ mine, '$' ∉ id)

include ha hga free

theorem laid_finish_leaf (few : (Html.ids (fillAll g a)).Sublist mine) :
    (finishSnippet (.leaf (fillAll g a))).Laid ∧ (finishSnippet (.leaf (fillAll g a))).ids.Sublist mine := by
  have plain : ∀ id ∈ Html.ids (fillAll g a) ++ Html.ids lineBreak, '$' ∉ id := by
    rw [Silent.lineBreak.ids, List.append_nil]
    exact fun id hi => free id (few.subset hi)
  have ⟨layout, ids⟩ := layout_finish ha hga Layout.lineBreak plain
  rw [Silent.lineBreak.ids, List.append_nil] at ids
  refine ⟨⟨layout, .of_free List.not_mem_nil .nil⟩, ?_⟩
  change (Html.ids (stripUnfilled (fillAll g a ++ lineBreak)) ++ []).Sublist mine
  rwa [ids, List.append_nil]

theorem laid_finish_slot (hb : Layout b) (hgb : Suits g b) (hi : Layout inner)
    (few : (Html.ids (fillAll g a) ++ Html.ids (fillAll g b)).Sublist mine)
    (free' : ∀ id ∈ others, '$' ∉ id) (few' : (Html.ids inner).Sublist others) :
    (finishSnippet ((Snippet.withSlot (fillAll g a) (fillAll g b)).pushBeforeSlot inner)).Laid ∧
      (finishSnippet ((Snippet.withSlot (fillAll g a) (fillAll g b)).pushBeforeSlot inner)).ids.Subperm
        (mine ++ others) := by
  have plain : ∀ id ∈ Html.ids (fillAll g a) ++ Html.ids inner, '$' ∉ id := List.forall_mem_append.mpr
    ⟨fun id hi => free id (few.subset (List.mem_append_left _ hi)), fun id hi => free' id (few'.subset hi)⟩
  have plain' : ∀ id ∈ Html.ids (fillAll g b) ++ Html.ids lineBreak, '$' ∉ id := by
    rw [Silent.lineBreak.ids, List.append_nil]
    exact fun id hi => free id (few.subset (List.mem_append_right _ hi))
  have ⟨front, first⟩ := layout_finish ha hga hi plain
  have ⟨back, second⟩ := layout_finish hb hgb Layout.lineBreak plain'
  rw [Silent.lineBreak.ids, List.append_nil] at second
  refine ⟨⟨front, back⟩, ?_⟩
  change (Html.ids (stripUnfilled (fillAll g a ++ inner)) ++
    Html.ids (stripUnfilled (fillAll g b ++ lineBreak))).Subperm _
  rw [first, second]
  have moved : (Html.ids (fillAll g a) ++ Html.ids inner ++ Html.ids (fillAll g b)).Perm
      (Html.ids (fillAll g a) ++ Html.ids (fillAll g b) ++ Html.ids inner) := by
    rw [List.append_assoc, List.append_assoc]
    exact List.perm_append_comm.append_left _
  exact moved.subperm.trans (few.append few').subperm

end Finish

theorem takeWhile_trimEnd {keep : Char → Bool} (hk : ∀ c, isBlank c = true → keep c = false) (s : Text) :
    (trimEnd s).takeWhile keep = s.takeWhile keep := by
  have ⟨blanks, parts, blank⟩ := exists_blanks s
  have none : blanks.takeWhile keep = [] := by
    cases blanks
    case nil => rfl
    case cons c blanks => exact List.takeWhile_cons_of_neg (by simp [hk c (blank c List.mem_cons_self)])
  nth_rewrite 2 [← parts]
  rw [List.takeWhile_append, none, List.append_nil]
  split
  case isTrue full => exact (List.takeWhile_prefix keep).eq_of_length full
  case isFalse => rfl

section Fields

variable (undescribed : e.dictionary = {})

include undescribed

theorem inputOf_append (p : Parameter) : e.dictionary.inputOf p.name ++ ' ' :: p.name = lit "text-input " ++ p.name := by
  rw [undescribed]
  rfl

theorem kind_inputDirective (p : Parameter) : (e.inputDirective p).kind = lit "text-input" := by
  have front : ∃ rest, ((splitOnce? ['|'] (lit "text-input " ++ p.name)).getD (lit "text-input " ++ p.name, [])).1 =
      lit "text-input " ++ rest := by
    rw [splitOnce?_of_free_append (by decide)]
    cases splitOnce? ['|'] p.name
    case none => exact ⟨p.name, rfl⟩
    case some parts => exact ⟨parts.1, rfl⟩
  have ⟨rest, first⟩ := front
  have start : trimStart (lit "text-input " ++ rest) = lit "text-input " ++ rest := rfl
  have blank (c : Char) (h : isBlank c = true) : (!isBlank c && c != '(') = false := by simp [h]
  have kind : (Directive.Head.read (trim (lit "text-input " ++ rest))).kind = lit "text-input" := by
    rw [Directive.Head.read, trim, start, takeWhile_trimEnd blank]
    rfl
  rw [inputDirective, inputOf_append undescribed, Directive.ofParts]
  dsimp only
  rw [first, kind]
  rfl

theorem signs_inputDirective (hp : ∀ c ∈ signs, p.Lacks c) : ∀ c ∈ signs, (e.inputDirective p).Lacks c := by
  intro c hc
  have apart := not_mem_of_signs (s := [' ', ',', '-']) (by decide) c hc
  refine Directive.lacks_ofParts ?_ List.not_mem_nil apart
  rw [inputOf_append undescribed]
  exact List.not_mem_append (not_mem_of_signs (by decide) c hc) (hp c hc).name

theorem signs_inputValues (hσ : ∀ c ∈ signs, σ.Lacks c) : ∀ c ∈ signs, (e.inputValues p σ).Lacks c := by
  intro c hc
  have description : c ∉ Dictionary.description := not_mem_of_signs (by decide) c hc
  have placeholder : c ∉ Dictionary.placeholder := not_mem_of_signs (by decide) c hc
  have value : c ∉ lit "value" := not_mem_of_signs (by decide) c hc
  have nothing : c ∉ quoted [] := List.not_mem_nil
  rw [inputValues, undescribed]
  refine Substitution.lacks_insertAll (Substitution.lacks_insertAll nofun ?_) (hσ c hc)
  simp only [List.forall_mem_cons]
  exact ⟨⟨description, nothing⟩, ⟨placeholder, nothing⟩, ⟨value, List.not_mem_nil⟩, nofun⟩

end Fields

def fieldOverrides (e : Expander) (p : Parameter) : Substitution :=
  (e.inputDirective p).overrides.insertAll p.overrides.entries

theorem lookup_inputValues (h : σ.lookup (lit "id") = none) (e : Expander) (p : Parameter) :
    (e.inputValues p σ).lookup (lit "id") = none := by
  rw [Substitution.lookup, List.lookup_eq_none_iff] at h ⊢
  intro entry he
  rcases Substitution.mem_entries_insertAll he with he | he
  · exact h entry he
  · rcases Substitution.mem_entries_insertAll he with he | he
    · simp only [List.mem_cons, List.not_mem_nil, or_false] at he
      rcases he with rfl | rfl | rfl <;> rfl
    · cases he

structure KeepsId (e : Expander) (p : Parameter) : Prop where
  data : (e.inputDirective p).locator = none
  id   : (e.fieldOverrides p).lookup (lit "id") = none

def fieldComponent (p : Parameter) : Component := ⟨.text p.name, false⟩

def components (e : Expander) (block : Block) : List Component :=
  ⟨.line block.kind block.title, Identifier.normalize block.kind = lit "section"⟩ ::
    (e.fieldsOf block).map fieldComponent

theorem section_iff (kind : Text) : Cabinet.fileName kind Templates.pageExtension = lit "section.html" ↔
    Identifier.normalize kind = lit "section" := by
  have parts : lit "section.html" = lit "section" ++ Templates.pageExtension := by decide
  rw [Cabinet.fileName, parts, List.append_left_inj]

theorem shownFrom_fields (pool : IdPool) (ps : List Parameter) :
    Component.shownFrom pool (ps.map fieldComponent) = Component.idsFrom pool (ps.map fieldComponent) := by
  have length := Component.length_idsFrom pool (ps.map fieldComponent)
  rw [Component.shownFrom]
  generalize Component.idsFrom pool (ps.map fieldComponent) = ids at length
  induction ps generalizing ids
  case nil =>
    cases ids
    case nil => rfl
    case cons => cases length
  case cons p ps hi =>
    cases ids
    case nil => cases length
    case cons id ids => exact congrArg (id :: ·) (hi _ (Nat.succ.inj length))

theorem shownFrom_line (pool : IdPool) (kind title : Text) (ps : List Parameter) :
    Component.shownFrom pool (⟨.line kind title, Identifier.normalize kind = lit "section"⟩ :: ps.map fieldComponent) =
      ((pool.issueFor kind title).1 ::
          if Cabinet.fileName kind Templates.pageExtension = lit "section.html" then
            [(pool.issueFor kind title).1 ++ headingEnd]
          else []) ++
        Component.idsFrom (pool.issueFor kind title).2 (ps.map fieldComponent) := by
  rw [Component.shownFrom_cons, ← shownFrom_fields]
  simp only [section_iff, decide_eq_true_eq]
  rfl

theorem poolAfter_line (pool : IdPool) (kind title : Text) (headed : Bool) (cs : List Component) :
    Component.poolAfter pool (⟨.line kind title, headed⟩ :: cs) = Component.poolAfter (pool.issueFor kind title).2 cs :=
  rfl

section Expand

variable (bundled : e.templates = Cabinet.templates tree Cabinet.bundled) (unbound : e.data = none)
variable (undescribed : e.dictionary = {})

include bundled unbound undescribed

theorem run_inputField (hp : ∀ c ∈ signs, p.Lacks c) (unnamed : (e.inputDirective p).locator = none)
    (fresh : (e.fieldOverrides p).lookup (lit "id") = none)
    (h : (e.inputField pageTitle p).run.run l = (.ok s, l')) :
    Layout s ∧ (Html.ids s).Sublist [(l.ids.issue p.name).1] ∧ l'.ids = (l.ids.issue p.name).2 := by
  have kind := kind_inputDirective undescribed p
  have directive := signs_inputDirective undescribed hp
  have values := signs_inputValues (p := p) undescribed
    fun c hc => Substitution.lacks_insertAll (directive c hc).overrides (hp c hc).overrides
  have own := lookup_inputValues fresh e p
  rw [fieldOverrides] at own
  obtain ⟨block, t, u, read, page, filled, rfl⟩ := exists_of_run_inputField h
  generalize e.inputDirective p = d at kind directive values own unnamed read
  rw [Block.ofDirective_eq_ok_of_locator_eq_none unnamed] at read
  cases read
  have applied := eq_apply_of_page page
  rw [Block.withData] at applied
  generalize e.inputValues p (d.overrides.insertAll p.overrides.entries) = σ at applied values own
  have start : lit "text-input" <+: Cabinet.fileName d.kind Templates.pageExtension := by
    rw [kind]
    decide
  rw [apply_spaced bundled (by decide) start values] at applied
  subst applied
  have token := token_issue l.countInput p.name
  have block : ∀ c ∈ signs, (Block.withData d none).Lacks c := fun c hc =>
    (directive c hc).withData fun _ hm => absurd hm (Option.not_mem_none _)
  obtain ⟨laid, few⟩ := (sheet_of_bundled bundled d.kind).cuts (.leaf _) List.mem_cons_self
  have suits : Suits (e.lineValue σ (Block.withData d none) pageTitle (l.countInput.issue p.name).1)
      (e.templateText d.kind) := suits_lineValue bundled unbound block rfl token values _ fun _ hm => hm
  obtain ⟨result, same⟩ :=
    yields_lineValue bundled unbound block token values laid.head.clean (fun _ hm => hm) _ _ _ filled
  subst result
  have ids := ids_map_fillAll laid few suits (List.forall_mem_nil _) (lineValue_id own e _ _ _)
  have other : Cabinet.fileName d.kind Templates.pageExtension ≠ lit "section.html" := by
    rw [kind]
    decide
  rw [if_neg other] at ids
  change (Html.ids (fillAll _ (e.templateText d.kind)) ++ []).Sublist _ at ids
  rw [List.append_nil] at ids
  obtain ⟨layout, kept⟩ := (laid.head.fillAll suits).1.stripUnfilled fun id hi =>
    List.mem_singleton.mp (ids.subset hi) ▸ (unmarked_of_token token).free
  exact ⟨layout, kept ▸ ids, same⟩

theorem run_inputFields {ps : List Parameter} {fields : List Text} (hp : ∀ p ∈ ps, ∀ c ∈ signs, p.Lacks c)
    (keeps : ∀ p ∈ ps, e.KeepsId p) (h : (ps.mapM (e.inputField pageTitle)).run.run l = (.ok fields, l')) :
    Layout (fields.flatMap (· ++ lineBreak)) ∧
      (Html.ids (fields.flatMap (· ++ lineBreak))).Sublist (Component.idsFrom l.ids (ps.map fieldComponent)) ∧
      l'.ids = Component.poolAfter l.ids (ps.map fieldComponent) := by
  induction ps generalizing l fields
  case nil =>
    cases h
    exact ⟨.of_free List.not_mem_nil .nil, .slnil, rfl⟩
  case cons p ps hi =>
    obtain ⟨s, rest, between, rfl, first, later⟩ := exists_of_run_mapM_cons h
    have ⟨here, others⟩ := List.forall_mem_cons.mp hp
    have ⟨keep, keeps⟩ := List.forall_mem_cons.mp keeps
    have ⟨layout, few, after⟩ := run_inputField bundled unbound undescribed here keep.data keep.id first
    have ⟨layout', few', after'⟩ := hi others keeps later
    rw [after] at few' after'
    have line := layout.append Layout.lineBreak
    refine ⟨line.append layout', ?_, after'⟩
    rw [List.flatMap_cons, ids_append line.markup, ids_append layout.markup, Silent.lineBreak.ids, List.append_nil]
    exact few.append few'

theorem run_slotText {template inner : Text} (hb : ∀ p ∈ block.parameters, ∀ c ∈ signs, p.Lacks c ∧ c ∉ p.raw)
    (keeps : ∀ p ∈ (if e.policy.isForm template then block.parameters else []), e.KeepsId p)
    (h : (e.slotText pageTitle template block).run.run l = (.ok inner, l')) :
    let fields := (if e.policy.isForm template then block.parameters else []).map fieldComponent
    Layout inner ∧ (Html.ids inner).Sublist (Component.idsFrom l.ids fields) ∧
      l'.ids = Component.poolAfter l.ids fields := by
  rw [slotText] at h
  split at h
  case isTrue form =>
    rw [if_pos form] at keeps ⊢
    obtain ⟨fields, _, run, h⟩ := exists_of_run_bind h
    cases h
    exact run_inputFields bundled unbound undescribed (fun p hp c hc => (hb p hp c hc).1) keeps run
  case isFalse form =>
    rw [if_neg form]
    cases h
    have lines : Silent (freeLines block.parameters) := by
      rw [freeLines, List.flatMap_def]
      refine .flatten fun t ht => ?_
      obtain ⟨p, hp, he⟩ := List.mem_map.mp ht
      exact he ▸ (unmarked_of_signs fun c hc => (hb p hp c hc).2).silent.append Silent.lineBreak
    exact ⟨.of_free lines.free lines.markup, lines.ids ▸ .slnil, rfl⟩

omit unbound undescribed in
theorem exists_cut (hσ : ∀ c ∈ signs, σ.Lacks c) (closed : σ.Lacks '}') (name : Text) : ∃ cut : Snippet,
    Snippet.ofTemplate (σ.apply (e.templateText name)) = cut.map (fillAll σ.lookup) ∧ cut.Laid ∧
      cut.ids.Sublist (idsOf (Cabinet.fileName name Templates.pageExtension)) ∧
      insides cut.head ⊆ insides (e.templateText name) ∧
      insides (cut.tail.getD []) ⊆ insides (e.templateText name) := by
  have clean := (layout_of_bundled bundled name).clean
  have once : σ.apply (e.templateText name) = fillAll σ.lookup (e.templateText name) :=
    Substitution.apply_eq_fillAll clean fun entry he => ⟨(closed entry he).1, (hσ '$' (by decide) entry he).2⟩
  obtain ⟨cut, known, parts⟩ := Snippet.exists_ofTemplate_fillAll clean (plain_lookup (hσ '$' (by decide)))
  obtain ⟨laid, few⟩ := (sheet_of_bundled bundled name).cuts cut known
  exact ⟨cut, once ▸ parts, laid, few, Snippet.insides_subset clean known⟩

theorem run_expand {d : Directive} (hd : ∀ c ∈ signs, d.Lacks c) (raw : ∀ p ∈ d.parameters, ∀ c ∈ signs, c ∉ p.raw)
    (closed : d.overrides.Lacks '}') (own : d.overrides.lookup (lit "id") = none)
    (keeps : ∀ p ∈ e.fieldsOf (.withData d none), e.KeepsId p)
    (h : (e.expand pageTitle (.withData d none)).run.run l = (.ok f, l')) :
    f.Laid ∧ f.ids.Subperm (Component.shownFrom l.ids (e.components (.withData d none))) ∧
      l'.ids = Component.poolAfter l.ids (e.components (.withData d none)) := by
  have block : ∀ c ∈ signs, (Block.withData d none).Lacks c := fun c hc =>
    (hd c hc).withData fun _ hm => absurd hm (Option.not_mem_none _)
  have values : ∀ c ∈ signs, d.overrides.Lacks c := fun c hc => (hd c hc).overrides
  have parameters : ∀ p ∈ d.parameters, ∀ c ∈ signs, p.Lacks c ∧ c ∉ p.raw :=
    fun p hp c hc => ⟨(hd c hc).parameters p hp, raw p hp c hc⟩
  have token : ∀ c ∈ (l.ids.issueFor d.kind d.title).1, Identifier.isTokenChar c = true := token_issue l _
  have free := Component.free_shown token (Cabinet.fileName d.kind Templates.pageExtension = lit "section.html")
  obtain ⟨t, head, between, page, before, rest⟩ := exists_of_run_expand h
  obtain rfl : t = e.templateOf (.withData d none) := eq_apply_of_page page
  obtain ⟨cut, parts, laid, few, headFewer, tailFewer⟩ := exists_cut (e := e) bundled values closed d.kind
  rw [components, fieldsOf]
  rw [fieldsOf] at keeps
  change Snippet.ofTemplate (e.templateOf (.withData d none)) = _ at parts
  rw [parts] at keeps before rest ⊢
  generalize e.templateOf (.withData d none) = t at keeps rest ⊢
  obtain ⟨front, same⟩ := yields_lineValue bundled unbound block token values laid.head.clean headFewer _ _ _ before
  have first := suits_lineValue bundled unbound block rfl token values pageTitle headFewer
  have second := suits_lineValue bundled unbound block rfl token values pageTitle tailFewer
  have ids := ids_map_fillAll laid few first second (lineValue_id own e _ _ _)
  change between.ids = (l.ids.issueFor (Block.withData d none).kind (Block.withData d none).title).2 at same
  -- filling issues no id: the fields go on where the line has left the pool
  rw [shownFrom_line, poolAfter_line, ← same]
  obtain ⟨a, _ | b⟩ := cut
  case none =>
    obtain ⟨_, rfl, rfl⟩ | ⟨_, _, _, _, slot, _⟩ := rest
    case inr => cases slot
    have unslotted : ((Snippet.map (fillAll d.overrides.lookup) ⟨a, none⟩).hasSlot && e.policy.isForm t) = false := rfl
    rw [unslotted, if_neg Bool.false_ne_true]
    change (Html.ids (fillAll _ a) ++ []).Sublist _ at ids
    rw [List.append_nil] at ids
    obtain ⟨whole, finished⟩ := laid_finish_leaf laid.head first free ids
    rw [← front] at whole finished
    refine ⟨whole, ?_, rfl⟩
    change List.Subperm _ (_ ++ [])
    rw [List.append_nil]
    exact finished.subperm
  case some =>
    obtain ⟨none, _⟩ | ⟨_, tail, between', inner, ⟨⟩, behind, within, rfl⟩ := rest
    case inl => cases none
    have slotted : ((Snippet.map (fillAll d.overrides.lookup) ⟨a, some b⟩).hasSlot && e.policy.isForm t) =
      e.policy.isForm t := rfl
    rw [slotted] at keeps ⊢
    obtain ⟨back, same'⟩ := yields_lineValue bundled unbound block token values laid.tail.clean tailFewer _ _ _ behind
    obtain ⟨layout, few', after'⟩ := run_slotText bundled unbound undescribed parameters keeps within
    rw [same'] at few' after'
    obtain ⟨whole, finished⟩ := laid_finish_slot laid.head first free laid.tail second layout ids
      (fun id hi => (unmarked_of_token (IdPool.token_of_mem_serveAll hi)).free) few'
    rw [← front, ← back] at whole finished
    exact ⟨whole, finished, after'⟩

end Expand
end Expander
end WikiPages
