import WikiPages.Proofs.Page.Nesting
import WikiPages.Proofs.Success
import WikiPages.Site.Basic

namespace WikiPages.Site

open Text

variable {site : Site} {l title : Text} {written : List Text} {d d' start : Draft}

-- A heading, and the lines below it that are put on its page.
structure Section where
  title : Text
  lines : List Text

def below (written : List Text) : List Text :=
  (written.takeWhile fun l => (Line.heading? l).isNone).filter fun l => !allBlank l

def sections : List Text → List Section
  | []           => []
  | l :: written =>
    match Line.heading? l with
    | some title => ⟨title, below written⟩ :: sections written
    | none       => sections written

def draft (site : Site) (s : Section) : Except Fault Draft := do
  s.lines.foldlM site.addLine (← site.startDraft s.title)

theorem sections_heading (h : Line.heading? l = some title) :
    sections (l :: written) = ⟨title, below written⟩ :: sections written := by
  rw [sections, h]

theorem sections_line (h : Line.heading? l = none) : sections (l :: written) = sections written := by
  rw [sections, h]

theorem below_heading (h : Line.heading? l = some title) : below (l :: written) = [] := by
  simp [below, h]

theorem below_line (h : Line.heading? l = none) :
    below (l :: written) = if allBlank l then below written else l :: below written := by
  cases hb : allBlank l <;> simp [below, h, hb]

theorem line_heading (h : Line.heading? l = some title) (drafts : List Draft) :
    site.line drafts l = (site.startDraft title).map (· :: drafts) := by
  simp only [line, h]

theorem line_line (h : Line.heading? l = none) (d : Draft) (drafts : List Draft) :
    site.line (d :: drafts) l =
      if allBlank l then .ok (d :: drafts) else (site.addLine d l).map (· :: drafts) := by
  simp only [line, h]

theorem foldlM_line (d : Draft) (drafts : List Draft) (written : List Text) :
    written.foldlM site.line (d :: drafts) = (do
      let d ← (below written).foldlM site.addLine d
      let later ← (sections written).mapM site.draft
      pure (later.reverse ++ d :: drafts)) := by
  induction written generalizing d drafts
  case nil => rfl
  case cons l written hi =>
    rw [List.foldlM_cons]
    cases hl : Line.heading? l
    case some title =>
      rw [line_heading hl, below_heading hl, sections_heading hl, List.mapM_cons, draft]
      cases site.startDraft title
      case error => rfl
      case ok start =>
        change written.foldlM site.line (start :: d :: drafts) = _
        simp only [hi, bind_pure_comp, List.foldlM_nil, bind_assoc, map_bind, Functor.map_map,
          List.reverse_cons, List.append_assoc, List.cons_append, List.nil_append, pure_bind]
        rfl
    case none =>
      rw [line_line hl, below_line hl, sections_line hl]
      split
      case isTrue => exact hi d drafts
      case isFalse =>
        rw [List.foldlM_cons]
        cases site.addLine d l
        case error => rfl
        case ok d' => exact hi d' drafts

theorem foldlM_line_nil (written : List Text) :
    written.foldlM site.line [] = (·.reverse) <$> (sections written).mapM site.draft := by
  induction written
  case nil => rfl
  case cons l written hi =>
    rw [List.foldlM_cons]
    cases hl : Line.heading? l
    case none =>
      rw [sections_line hl, ← hi]
      simp only [line, hl]
      rfl
    case some title =>
      rw [line_heading hl, sections_heading hl, List.mapM_cons, draft]
      cases site.startDraft title
      case error => rfl
      case ok start =>
        change written.foldlM site.line [start] = _
        simp only [foldlM_line, bind_pure_comp, bind_assoc, map_bind, Functor.map_map, List.reverse_cons]
        rfl

theorem rawPages_eq (written : List Text) :
    site.rawPages written = ((sections written).mapM site.draft).map (·.map Draft.finish) := by
  rw [rawPages, foldlM_line_nil]
  cases (sections written).mapM site.draft
  case error => rfl
  case ok => exact congrArg Except.ok (by simp)

-- A line puts the snippet of its block on a page. The account is kept by the expansion, and the snippet may
-- count as an input.
inductive Adds (site : Site) (d : Draft) (l : Text) : Snippet → Draft → Prop
  | block {block : Block} {f : Snippet} {ledger : Ledger}
    (read : Block.ofLine site.expander.fetch l = .ok block)
    (expanded : (site.expander.expand d.title block).run.run d.ledger = (.ok f, ledger)) :
    Adds site d l f
      (({ d with
          ledger := if site.expander.policy.isInput f.text then ledger.countInput else ledger } : Draft).step
        (.ofNat (Line.level l), f))

inductive AddsAll (site : Site) : Draft → List Text → List Snippet → Draft → Prop
  | nil {d : Draft} : AddsAll site d [] [] d
  | cons {d d' d'' : Draft} {l : Text} {ls : List Text} {f : Snippet} {fs : List Snippet}
    (first : Adds site d l f d') (rest : AddsAll site d' ls fs d'') : AddsAll site d (l :: ls) (f :: fs) d''

theorem exists_adds (h : site.addLine d l = .ok d') : ∃ f, Adds site d l f d' := by
  have ⟨block, read, h⟩ := exists_of_bind h
  rw [addBlock] at h
  split at h
  case h_1 => cases h
  case h_2 expanded =>
    cases h
    exact ⟨_, .block read expanded⟩

theorem exists_addsAll (h : written.foldlM site.addLine d = .ok d') : ∃ fs, AddsAll site d written fs d' := by
  induction written generalizing d
  case nil =>
    cases h
    exact ⟨[], .nil⟩
  case cons l written hi =>
    rw [List.foldlM_cons] at h
    have ⟨_, hl, h⟩ := exists_of_bind h
    have ⟨f, first⟩ := exists_adds hl
    have ⟨fs, rest⟩ := hi h
    exact ⟨f :: fs, .cons first rest⟩

def steps (written : List Text) (fs : List Snippet) : Draft.Steps := (written.map fun l => .ofNat (Line.level l)).zip fs

theorem AddsAll.run {fs : List Snippet} (h : AddsAll site d written fs d') (ledger : Ledger) :
    fs.length = written.length ∧
      { d' with ledger } = (steps written fs).foldl Draft.step { d with ledger } := by
  induction h
  case nil => exact ⟨rfl, rfl⟩
  case cons first _ hi =>
    cases first
    exact ⟨congrArg (· + 1) hi.1, hi.2⟩

theorem AddsAll.title_eq {fs : List Snippet} (h : AddsAll site d written fs d') : d'.title = d.title := by
  induction h
  case nil => rfl
  case cons first _ hi =>
    cases first
    exact hi

theorem exists_template (h : site.startDraft title = .ok start) :
    ∃ t, site.expander.templates.text pageTemplate Templates.pageExtension = .ok t ∧
      start = .start title (.ofTemplate ((pageValues site.language title).apply t)) := by
  have ⟨_, hp, hs⟩ := exists_of_map (eq_ok_of_mapError h)
  have ⟨t, ht, he⟩ := exists_of_map hp
  exact ⟨t, ht, he ▸ hs.symm⟩

theorem exists_run {s : Section} (h : site.draft s = .ok d) :
    ∃ t fs, site.expander.templates.text pageTemplate Templates.pageExtension = .ok t ∧
      let page := Snippet.ofTemplate ((pageValues site.language s.title).apply t)
      AddsAll site (.start s.title page) s.lines fs d ∧ fs.length = s.lines.length ∧
      d.title = s.title ∧ d.tree = (Draft.run s.title page (steps s.lines fs)).tree := by
  have ⟨start, hs, h⟩ := exists_of_bind h
  have ⟨t, ht, he⟩ := exists_template hs
  have ⟨fs, all⟩ := exists_addsAll h
  subst he
  have ⟨length, run⟩ := all.run {}
  have tree := congrArg Draft.tree run
  exact ⟨t, fs, ht, all, length, all.title_eq, tree⟩

end WikiPages.Site
