import WikiPages.Proofs.Files.Writing
import WikiPages.Site.Saving

namespace WikiPages

open Text

namespace Page

theorem isFileName (p : Page) : Path.IsFileName p.file := by
  have hn : ∀ c ∈ Identifier.normalize p.title, c ≠ '/' ∧ c ≠ '.' := by
    intro c hc
    have := Identifier.normalize_token _ c hc
    constructor <;> (rintro rfl; exact absurd this (by decide))
  have hl : p.file.length ≠ 1 ∧ p.file.length ≠ 2 := by
    have : p.file.length = (Identifier.normalize p.title).length + 5 := List.length_append
    omega
  constructor
  case noSlash =>
    intro h
    cases List.mem_append.1 h
    case inl h => exact (hn _ h).1 rfl
    case inr h => exact absurd h (by decide)
  case notEmpty => exact List.append_ne_nil_of_left_ne_nil (Identifier.normalize_ne_nil _) _
  case notHere =>
    intro h
    exact hl.1 (congrArg List.length h)
  case notAbove =>
    intro h
    exact hl.2 (congrArg List.length h)

end Page

namespace Site

open FileTree

variable {directory name text : Text} {tree after : FileTree} {pages : List Page} {p q : Page}

theorem exists_of_writePages_cons (h : writePages directory tree (p :: pages) = (after, none)) :
    ∃ between, tree.write (Path.join directory p.file) p.content = .ok between ∧
      writePages directory between pages = (after, none) := by
  rw [writePages] at h
  cases hp : tree.write (Path.join directory p.file) p.content
  case error => simp [hp] at h
  case ok between =>
    simp only [hp] at h
    exact ⟨between, rfl, h⟩

theorem holds_writePages (h : Holds tree directory name text)
    (hw : writePages directory tree pages = (after, none)) (hn : ∀ p ∈ pages, p.file ≠ name) :
    Holds after directory name text := by
  induction pages generalizing tree
  case nil =>
    cases hw
    exact h
  case cons p pages hi =>
    have ⟨_, hp, hw⟩ := exists_of_writePages_cons hw
    have := h.write p.isFileName hp (hn p List.mem_cons_self)
    exact hi this hw fun q hq => hn q (List.mem_cons_of_mem _ hq)

theorem holds_latest (hw : writePages directory tree pages = (after, none))
    (hl : pages.reverse.find? (·.file = name) = some q) :
    Holds after directory name q.content := by
  induction pages generalizing tree
  case nil => cases hl
  case cons p pages hi =>
    have ⟨_, hp, hw⟩ := exists_of_writePages_cons hw
    rw [List.reverse_cons, List.find?_append] at hl
    cases hf : pages.reverse.find? (·.file = name)
    case some =>
      rw [hf] at hl
      exact hi hw (hf.trans hl)
    case none =>
      rw [hf, Option.none_or, List.find?_singleton] at hl
      split at hl
      case isFalse => cases hl
      case isTrue hpn =>
        have := holds_write p.isFileName hp
        rw [of_decide_eq_true hpn, Option.some.inj hl] at this
        apply holds_writePages this hw
        simpa using hf

theorem exists_of_savePages (h : savePages directory tree pages = (after, none)) :
    ∃ made, Keeps tree made ∧ writePages directory made pages = (after, none) := by
  rw [savePages] at h
  cases hm : tree.makeDirectories directory
  case error => simp [hm] at h
  case ok made =>
    simp only [hm] at h
    exact ⟨made, .makeDirectories hm, h⟩

namespace Output

variable {o : Output}

def latest (o : Output) (name : Text) : Option Page :=
  (o.pages ++ o.reports).reverse.find? (·.file = name)

theorem mem_of_latest (hl : o.latest name = some q) :
    q ∈ o.pages ++ o.reports ∧ q.file = name := by
  rw [latest] at hl
  exact ⟨List.mem_reverse.1 (List.mem_of_find?_eq_some hl), by simpa using List.find?_some hl⟩

theorem exists_latest (hp : p ∈ o.pages ++ o.reports) : ∃ q, o.latest p.file = some q := by
  rw [← Option.isSome_iff_exists, latest, List.find?_isSome]
  exact ⟨p, List.mem_reverse.2 hp, by simp⟩

theorem holds_save (h : o.save directory tree = (after, none)) (hl : o.latest name = some q) :
    Holds after directory name q.content := by
  rw [save] at h
  cases hp : savePages directory tree o.pages
  case mk saved fault =>
    cases fault
    case some => simp [hp] at h
    case none =>
      simp only [hp] at h
      have ⟨made, _, hm⟩ := exists_of_savePages hp
      have ⟨made', hk, hm'⟩ := exists_of_savePages h
      rw [latest, List.reverse_append, List.find?_append] at hl
      cases hr : o.reports.reverse.find? (·.file = name)
      case some =>
        rw [hr] at hl
        exact holds_latest hm' (hr.trans hl)
      case none =>
        rw [hr, Option.none_or] at hl
        apply holds_writePages ((holds_latest hm hl).keeps hk) hm'
        simpa using hr

theorem readAll_latest (h : o.save directory tree = (after, none)) (hl : o.latest name = some q) :
    after.readAll (Path.join directory name) = .ok q.content := by
  have hn : Path.IsFileName name := (mem_of_latest hl).2 ▸ q.isFileName
  exact (holds_save h hl).readAll hn

-- Pages that share a file name share their content.
def Apart (o : Output) : Prop :=
  ∀ p ∈ o.pages ++ o.reports, ∀ q ∈ o.pages ++ o.reports, p.file = q.file → p.content = q.content

instance : Decidable o.Apart :=
  inferInstanceAs (Decidable (∀ p ∈ o.pages ++ o.reports, _))

-- Saving loses a page exactly if another one with its file name says something else. What is on
-- disk then is the later of them, where the report comes after all pages.
theorem readAll_save (h : o.save directory tree = (after, none)) :
    (∀ name p, o.latest name = some p →
        after.readAll (Path.join directory name) = .ok p.content) ∧
      ((∀ p ∈ o.pages ++ o.reports,
          after.readAll (Path.join directory p.file) = .ok p.content) ↔ o.Apart) := by
  refine ⟨fun _ _ hl => readAll_latest h hl, ?_, ?_⟩
  case refine_1 =>
    intro hr p hp q hq hf
    have := (hr p hp).symm.trans (hf ▸ hr q hq)
    exact Except.ok.inj this
  case refine_2 =>
    intro ha p hp
    have ⟨q, hl⟩ := exists_latest hp
    have ⟨hq, hf⟩ := mem_of_latest hl
    rw [readAll_latest h hl, ha q hq p hp hf]

def ofTitles (first second : String) : Output where
  pages   := [{ title := lit first, content := lit "1" }, { title := lit second, content := lit "2" }]
  reports := [{ title := lit second, content := lit "2" }]

theorem readAll_save_apart :
    (let o := ofTitles "Plan" "Notes"
     let saved := o.save (lit "out") {}
     saved.2 = none ∧ ∀ p ∈ o.pages ++ o.reports,
       saved.1.readAll (Path.join (lit "out") p.file) = .ok p.content) := by
  have ha : (ofTitles "Plan" "Notes").Apart := by decide
  have hs : ((ofTitles "Plan" "Notes").save (lit "out") {}).2 = none := by rfl
  exact ⟨hs, (readAll_save (Prod.ext rfl hs)).2.2 ha⟩

-- Titles that differ in case and in blanks have one file between them.
theorem not_readAll_save :
    ¬ ∀ (o : Output) (directory : Text) (tree after : FileTree),
      o.save directory tree = (after, none) → ∀ p ∈ o.pages ++ o.reports,
        after.readAll (Path.join directory p.file) = .ok p.content := by
  intro h
  have hs : ((ofTitles "A b" "a_b").save (lit "out") {}).2 = none := by rfl
  have hl : (ofTitles "A b" "a_b").latest (Page.fileOf (lit "A b")) =
      some { title := lit "a_b", content := lit "2" } := by decide
  have hf := h _ (lit "out") {} _ (Prod.ext rfl hs) _ List.mem_cons_self
  have := Except.ok.inj (hf.symm.trans (readAll_latest (Prod.ext rfl hs) hl))
  exact absurd this (by decide)

end Output
end Site
end WikiPages
