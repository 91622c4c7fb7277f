import WikiPages.Proofs.Html.Sheets
import WikiPages.Proofs.Menu.Filling

namespace WikiPages.Menu

open Text Hole Html

variable {tree : FileTree} {e : Expander} {p q : Page} {pages : List Page} {menu s t : Text}

theorem unmarked_entryValues (h : Unmarked p.title) : ∀ entry ∈ (entryValues p).entries, Unmarked entry.2 := by
  have file : Unmarked p.file :=
    (unmarked_of_token (Identifier.normalize_token p.title)).append ⟨by decide, by decide⟩
  intro entry he
  rcases Substitution.mem_entries_insertAll he with he | he
  · simp only [List.mem_cons, List.not_mem_nil, or_false] at he
    rcases he with rfl | rfl
    · exact file
    · exact h
  · cases he

theorem eq_of_mem_arguments (h : Layout s) {item : Text} (hi : item ∈ arguments menuKind s) : item = lit "menu-item" := by
  have ⟨inside, hm, ha⟩ := (mem_arguments h.clean).mp hi
  have ⟨parts, _⟩ := argument?_eq_some_iff.mp ha
  rcases h.menus inside hm with bare | here
  case inl => exact absurd ⟨item, by rw [parts, menuPrefix, List.append_assoc]; rfl⟩ bare
  case inr => exact (List.cons.inj (List.append_cancel_left (parts.symm.trans here))).2

section

variable (bundled : e.templates = Cabinet.templates tree Cabinet.bundled)
variable (titles : ∀ p ∈ pages, Unmarked p.title)

include bundled

theorem silent_entry (hp : Unmarked p.title) (h : e.templates.page (lit "menu-item") (entryValues p) = .ok t) :
    Silent t := by
  have ⟨text, known, applied⟩ := exists_of_map h
  rw [← Expander.templateText_eq known] at applied
  have layout := Expander.layout_of_bundled bundled (lit "menu-item")
  have ⟨holes, ids⟩ := (Expander.sheet_of_bundled bundled (lit "menu-item")).known
    (lit "menu-item", [lit "url", lit "title"]) (by decide) ⟨_, rfl⟩
  have values := unmarked_entryValues hp
  have keys : ∀ entry ∈ (entryValues p).entries, '}' ∉ entry.1 := by
    have : ∀ key ∈ [lit "title", lit "url"], '}' ∉ key := by decide
    exact fun entry he => this entry.1 (List.mem_map_of_mem he)
  rw [← applied, Substitution.apply_eq_fillAll layout.clean fun entry he => ⟨keys entry he, (values entry he).free⟩]
  refine Expander.silent_fillAll layout ids (fun inside _ v hv => .inl (values _ (mem_of_lookup hv))) fun inside hi => ?_
  have known := holes hi
  simp only [List.mem_cons, List.not_mem_nil, or_false] at known
  rcases known with rfl | rfl <;> exact Option.some_ne_none _

include titles

theorem silent_build (h : build e.templates pages (lit "menu-item") = .ok menu) : Silent menu := by
  have ⟨entries, each, h⟩ := exists_of_bind h
  cases h
  have entry := forall_mem_of_forall₂ (forall₂_of_mapM each) fun p hp t ht =>
    silent_entry bundled (titles p hp) (eq_ok_of_mapError ht)
  exact .join .lineBreak entry

theorem ids_fillItem (hs : Layout s) (free : ∀ id ∈ ids s, '$' ∉ id)
    (h : fillItem e.templates pages s (lit "menu-item") = .ok t) : Layout t ∧ (ids t).Sublist (ids s) := by
  have ⟨menu, built, h⟩ := exists_of_bind h
  have filled : Hole.fillAll (only menuItem menu) s = t :=
    (replaceAll_eq_fillAll hs.clean (by decide)).symm.trans (Except.ok.inj h)
  have suits : Suits (only menuItem menu) s := by
    intro inside _ v hv
    have ⟨here, same⟩ := eq_of_mem_only hv
    exact .inr ⟨here ▸ by decide, same ▸ silent_build bundled titles built⟩
  have ⟨layout, found, _⟩ := hs.fillAll suits
  have same : (ids s).map (Hole.fillAll (only menuItem menu)) = ids s :=
    (List.map_congr_left fun id hi => (Unfilled.of_free (free id hi)).fillAll_eq).trans (List.map_id' _)
  rw [← filled, found, same]
  exact ⟨layout, List.filter_sublist⟩

theorem ids_fill (hs : Layout p.content) (free : ∀ id ∈ ids p.content, '$' ∉ id)
    (h : fill e.templates pages p = .ok q) : Layout q.content ∧ (ids q.content).Sublist (ids p.content) := by
  have ⟨content, run, h⟩ := exists_of_bind h
  cases h
  have items : ∀ item ∈ arguments menuKind p.content, item = lit "menu-item" := fun _ => eq_of_mem_arguments hs
  generalize arguments menuKind p.content = all at items run
  change Layout content ∧ (ids content).Sublist _
  generalize p.content = s at hs free run
  induction all generalizing s
  case nil =>
    cases run
    exact ⟨hs, .refl _⟩
  case cons item all hi =>
    rw [List.foldlM_cons] at run
    have ⟨between, first, run⟩ := exists_of_bind run
    have ⟨here, items⟩ := List.forall_mem_cons.mp items
    have ⟨layout, fewer⟩ := ids_fillItem bundled titles hs free (here ▸ first)
    have ⟨last, fewer'⟩ := hi items _ layout (fun id hm => free id (fewer.subset hm)) run
    exact ⟨last, fewer'.trans fewer⟩

end
end WikiPages.Menu
