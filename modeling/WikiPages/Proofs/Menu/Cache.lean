import Mathlib.Data.List.Perm.Basic
import WikiPages.Menu
import WikiPages.Proofs.Success

namespace WikiPages.Menu

open Text

variable {templates : Templates} {pages rest : List Page} {p q : Page} {s item : Text} {i : Nat}

def items (p : Page) : List Text := Hole.arguments Hole.menuKind p.content

def Answered (templates : Templates) (p : Page) : Prop :=
  ∀ item ∈ items p, ∃ template, templates.text item Templates.pageExtension = .ok template

def menuText (templates : Templates) (pages : List Page) (item : Text) : Text :=
  let template := (templates.text item Templates.pageExtension).toOption.getD []
  join lineBreak (pages.map fun p => (entryValues p).apply template)

def putMenu (templates : Templates) (pages : List Page) (s item : Text) : Text :=
  replaceAll (Hole.ofNamed Hole.menuKind item) (menuText templates pages item) s

-- A page with the menus that it asks for, one item after the other.
def served (templates : Templates) (pages : List Page) (p : Page) : Page :=
  { p with content := (items p).foldl (putMenu templates pages) p.content }

section Building

theorem build_congr {pages' : List Page} (h : pages'.map entryValues = pages.map entryValues) (item : Text) :
    build templates pages' item = build templates pages item := by
  have values (pages : List Page) :
      pages.mapM (fun p => (templates.page item (entryValues p)).mapError Fault.ofTemplate) =
        (pages.map entryValues).mapM fun values => (templates.page item values).mapError Fault.ofTemplate := by
    rw [List.mapM_map]
    rfl
  rw [build, build, values, values, h]

theorem build_of_text {template : Text} (h : templates.text item Templates.pageExtension = .ok template) :
    build templates pages item = .ok (menuText templates pages item) := by
  have entries : pages.mapM (fun p => (templates.page item (entryValues p)).mapError Fault.ofTemplate) =
      .ok (pages.map fun p => (entryValues p).apply template) := by
    induction pages
    case nil => rfl
    case cons p pages hi =>
      rw [List.mapM_cons, hi, Templates.page, Templates.fill, h]
      rfl
  rw [build, entries, menuText, h]
  rfl

theorem exists_text_of_build {menu : Text} (hne : pages ≠ []) (h : build templates pages item = .ok menu) :
    ∃ template, templates.text item Templates.pageExtension = .ok template := by
  obtain ⟨p, pages, rfl⟩ := List.exists_cons_of_ne_nil hne
  rw [build, List.mapM_cons] at h
  have ⟨_, hm, _⟩ := exists_of_bind h
  have ⟨_, he, _⟩ := exists_of_bind hm
  have ⟨template, ht, _⟩ := exists_of_map (eq_ok_of_mapError he)
  exact ⟨template, ht⟩

theorem foldlM_fillItem_iff (hne : pages ≠ []) (asked : List Text) (s t : Text) :
    asked.foldlM (fillItem templates pages) s = .ok t ↔
      (∀ item ∈ asked, ∃ template, templates.text item Templates.pageExtension = .ok template) ∧
      t = asked.foldl (putMenu templates pages) s := by
  induction asked generalizing s
  case nil =>
    refine ⟨fun h => ⟨nofun, ?_⟩, fun h => ?_⟩
    · cases h
      rfl
    · rw [h.2]
      rfl
  case cons item asked hi =>
    rw [List.foldlM_cons, List.forall_mem_cons, List.foldl_cons, and_assoc]
    refine ⟨fun h => ?_, fun ⟨⟨template, ht⟩, h⟩ => ?_⟩
    · have ⟨s', hs, h⟩ := exists_of_bind h
      have ⟨menu, hb, hs⟩ := exists_of_bind hs
      have ⟨template, ht⟩ := exists_text_of_build hne hb
      cases hs
      cases (build_of_text ht).symm.trans hb
      exact ⟨⟨template, ht⟩, (hi _).mp h⟩
    · rw [fillItem, build_of_text ht]
      exact (hi _).mpr h

theorem fill_iff (hp : p ∈ pages) :
    fill templates pages p = .ok q ↔ Answered templates p ∧ q = served templates pages p := by
  have filled (t : Text) : (items p).foldlM (fillItem templates pages) p.content = .ok t ↔ Answered templates p ∧
      t = (items p).foldl (putMenu templates pages) p.content :=
    foldlM_fillItem_iff (List.ne_nil_of_mem hp) (items p) p.content t
  refine ⟨fun h => ?_, fun ⟨answered, hq⟩ => ?_⟩
  · have ⟨content, hc, hq⟩ := exists_of_bind h
    have ⟨answered, hc⟩ := (filled content).mp hc
    cases hq
    exact ⟨answered, by rw [served, hc]⟩
  · have hc := (filled _).mpr ⟨answered, rfl⟩
    rw [fill, hq, served, ← items, hc]
    rfl

end Building

namespace Filling

variable {f : Filling}

-- On the way the pages are called as they were at first, and the menus that are kept are those of the first pages.
structure Fresh (templates : Templates) (pages : List Page) (f : Filling) : Prop where
  entries : f.pages.map entryValues = pages.map entryValues
  menus   : ∀ item menu, f.menus.lookup item = some menu → build templates pages item = .ok menu

inductive Mirrors (templates : Templates) (pages : List Page) (f : Filling) {α : Type} :
    Except Fault (α × Filling) → Except Fault α → Prop
  | error (fault : Fault) : Mirrors templates pages f (.error fault) (.error fault)
  | ok (a : α) {f' : Filling} (fresh : Fresh templates pages f') (same : f'.pages = f.pages) :
      Mirrors templates pages f (.ok (a, f')) (.ok a)

theorem Fresh.initial (templates : Templates) (pages : List Page) : Fresh templates pages { pages } where
  entries := rfl
  menus   := nofun

theorem Fresh.keep {menu : Text} (h : Fresh templates pages f) (built : build templates pages item = .ok menu) :
    Fresh templates pages { f with menus := (item, menu) :: f.menus } where
  entries := h.entries
  menus   := by
    intro other m hl
    rw [List.lookup_cons] at hl
    cases he : other == item
    case true =>
      rw [he] at hl
      exact eq_of_beq he ▸ Option.some.inj hl ▸ built
    case false =>
      rw [he] at hl
      exact h.menus other m hl

theorem Fresh.set (h : Fresh templates pages f) (hp : f.pages[i]? = some p) (hq : entryValues q = entryValues p) :
    Fresh templates pages { f with pages := f.pages.set i q } where
  entries := by
    have ⟨hi, hp⟩ := List.getElem?_eq_some_iff.mp hp
    rw [List.map_set, hq, ← hp, ← List.getElem_map entryValues (h := by simpa using hi), List.set_getElem_self]
    exact h.entries
  menus   := h.menus

theorem Mirrors.bind {α β : Type} {x : Except Fault (α × Filling)} {y : Except Fault α}
    {next : α × Filling → Except Fault (β × Filling)} {next' : α → Except Fault β} (h : Mirrors templates pages f x y)
    (step : ∀ a f', Fresh templates pages f' → Mirrors templates pages f' (next (a, f')) (next' a)) :
    Mirrors templates pages f (x >>= next) (y >>= next') := by
  cases h
  case error fault => exact .error fault
  case ok a f' fresh same =>
    change Mirrors templates pages f (next (a, f')) (next' a)
    cases hx : next (a, f') <;> cases hy : next' a <;> have hs := step a f' fresh <;> rw [hx, hy] at hs <;> cases hs
    case error.error.error => exact .error _
    case ok.ok.ok fresh' same' => exact .ok _ fresh' (same'.trans same)

theorem menu_mirrors (h : Fresh templates pages f) (item : Text) :
    Mirrors templates pages f (f.menu templates item) (build templates pages item) := by
  rw [menu]
  split
  case h_1 menu hl =>
    rw [h.menus item menu hl]
    exact .ok menu h rfl
  case h_2 =>
    rw [build_congr h.entries]
    cases hb : build templates pages item
    case error fault => exact .error fault
    case ok menu => exact .ok menu (h.keep hb) rfl

theorem fillItem_mirrors (h : Fresh templates pages f) (s item : Text) :
    Mirrors templates pages f (fillItem templates (s, f) item) (Menu.fillItem templates pages s item) :=
  (menu_mirrors h item).bind fun _ _ fresh => .ok _ fresh rfl

theorem foldlM_mirrors (h : Fresh templates pages f) (items : List Text) (s : Text) :
    Mirrors templates pages f (items.foldlM (fillItem templates) (s, f))
      (items.foldlM (Menu.fillItem templates pages) s) := by
  induction items generalizing f s
  case nil => exact .ok s h rfl
  case cons item items hi =>
    rw [List.foldlM_cons, List.foldlM_cons]
    exact (fillItem_mirrors h s item).bind fun s _ fresh => hi fresh s

theorem fillPage_mirrors (h : Fresh templates pages f) (hp : f.pages[i]? = some p) :
    (∃ fault, f.fillPage templates i = .error fault ∧ fill templates pages p = .error fault) ∨
    ∃ f' q, f.fillPage templates i = .ok f' ∧ fill templates pages p = .ok q ∧
      Fresh templates pages f' ∧ f'.pages = f.pages.set i q := by
  have mirrors := foldlM_mirrors h (Hole.arguments Hole.menuKind p.content) p.content
  rw [fillPage, hp, fill]
  dsimp only
  generalize (Hole.arguments Hole.menuKind p.content).foldlM (fillItem templates) _ = x at mirrors ⊢
  generalize (Hole.arguments Hole.menuKind p.content).foldlM (Menu.fillItem templates pages) _ = y at mirrors ⊢
  cases mirrors
  case error fault => exact .inl ⟨fault, rfl, rfl⟩
  case ok content f' fresh same =>
    have here : f'.pages[i]? = some p := same ▸ hp
    refine .inr ⟨_, { p with content }, rfl, rfl, fresh.set here rfl, ?_⟩
    rw [← same]

theorem run_range' (done : List Page) (h : Fresh templates pages f) (hp : f.pages = done ++ rest) :
    (run templates f (List.range' done.length rest.length)).1.pages = done ++ (fillEach templates pages rest).1 ∧
    (run templates f (List.range' done.length rest.length)).2 = (fillEach templates pages rest).2 := by
  induction rest generalizing f done
  case nil => exact ⟨hp, rfl⟩
  case cons p rest hi =>
    have here : f.pages[done.length]? = some p := by simp [hp]
    rw [List.length_cons, List.range'_succ, run, fillEach]
    rcases fillPage_mirrors h here with ⟨fault, hf, hfill⟩ | ⟨f', q, hf, hfill, fresh, hs⟩
    · rw [hf, hfill]
      exact ⟨hp, rfl⟩
    · have next : f'.pages = (done ++ [q]) ++ rest := by
        rw [hs, hp, List.set_append_right _ _ (Nat.le_refl _), Nat.sub_self, List.set_cons_zero, List.append_assoc]
        rfl
      have later := hi _ fresh next
      rw [List.length_append, List.length_singleton, List.append_assoc] at later
      rw [hf, hfill]
      exact later

structure Underway (templates : Templates) (pages : List Page) (order : List Nat) (f : Filling) : Prop
    extends Fresh templates pages f where
  each : ∀ i, f.pages[i]? = (pages[i]?).map fun p => if i ∈ order then p else served templates pages p

variable {order : List Nat}

theorem Underway.initial (h : ∀ i < pages.length, i ∈ order) : Underway templates pages order { pages } where
  toFresh := .initial templates pages
  each    := by
    intro i
    cases hp : pages[i]?
    case none => rfl
    case some p =>
      have ⟨hi, _⟩ := List.getElem?_eq_some_iff.mp hp
      simp [h i hi]

theorem Underway.final (h : Underway templates pages [] f) : f.pages = pages.map (served templates pages) := by
  refine List.ext_getElem? fun i => ?_
  rw [h.each i, List.getElem?_map]
  simp

theorem Underway.step (h : Underway templates pages (i :: order) f) (hp : pages[i]? = some p) (once : i ∉ order) :
    (∃ fault, f.fillPage templates i = .error fault ∧ ¬ Answered templates p) ∨
    ∃ f', f.fillPage templates i = .ok f' ∧ Answered templates p ∧ Underway templates pages order f' := by
  have here : f.pages[i]? = some p := by
    rw [h.each, hp]
    simp
  have among : p ∈ pages := List.mem_of_getElem? hp
  rcases fillPage_mirrors h.toFresh here with ⟨fault, hf, hfill⟩ | ⟨f', q, hf, hfill, fresh, hs⟩
  · refine .inl ⟨fault, hf, fun answered => ?_⟩
    have filled := (fill_iff among).mpr ⟨answered, rfl⟩
    rw [hfill] at filled
    cases filled
  · have ⟨answered, hq⟩ := (fill_iff among).mp hfill
    refine .inr ⟨f', hf, answered, fresh, fun j => ?_⟩
    rw [hs, List.getElem?_set]
    by_cases hj : i = j
    case pos =>
      subst hj
      have ⟨hi, _⟩ := List.getElem?_eq_some_iff.mp here
      simp [hp, hi, hq, once]
    case neg =>
      rw [if_neg hj, h.each]
      simp [Ne.symm hj]

theorem Underway.run (h : Underway templates pages order f) (within : ∀ i ∈ order, i < pages.length)
    (once : order.Nodup) :
    ((run templates f order).2 = none ↔ ∀ i ∈ order, ∀ p, pages[i]? = some p → Answered templates p) ∧
    ((run templates f order).2 = none → (run templates f order).1.pages = pages.map (served templates pages)) := by
  induction order generalizing f
  case nil => exact ⟨⟨fun _ => nofun, fun _ => rfl⟩, fun _ => h.final⟩
  case cons i order hi =>
    have ⟨here, later⟩ := List.forall_mem_cons.mp within
    have ⟨absent, once⟩ := List.nodup_cons.mp once
    have hp := List.getElem?_eq_getElem here
    rw [Filling.run, List.forall_mem_cons, hp]
    simp only [Option.some.injEq, forall_eq']
    rcases h.step hp absent with ⟨fault, hf, unanswered⟩ | ⟨f', hf, answered, h⟩
    · rw [hf]
      refine ⟨⟨nofun, fun h => absurd h.1 unanswered⟩, nofun⟩
    · rw [hf]
      have ⟨stops, comes⟩ := hi h later once
      exact ⟨stops.trans ⟨fun h => ⟨answered, h⟩, And.right⟩, comes⟩

end Filling

theorem fillInTurn_eq (templates : Templates) (pages : List Page) :
    fillInTurn templates pages = fillEach templates pages pages := by
  have ⟨same, fault⟩ := Filling.run_range' [] (.initial templates pages) (List.nil_append pages).symm
  rw [fillInTurn, List.range_eq_range']
  exact Prod.ext same fault

theorem fillAll_eq (templates : Templates) (pages : List Page) :
    fillAll templates pages =
      match fillEach templates pages pages with
      | (pages, none) => .ok pages
      | (_, some fault) => .error fault := by
  rw [← fillInTurn_eq]
  rfl

section Serving

variable {order : List Nat}

theorem run_served (templates : Templates) (each : order.Perm (List.range pages.length)) :
    ((Filling.run templates { pages } order).2 = none ↔ ∀ p ∈ pages, Answered templates p) ∧
    ((Filling.run templates { pages } order).2 = none →
      (Filling.run templates { pages } order).1.pages = pages.map (served templates pages)) := by
  have among (i : Nat) : i ∈ order ↔ i < pages.length := by rw [each.mem_iff, List.mem_range]
  have initial : Filling.Underway templates pages order { pages } := .initial fun i hi => (among i).mpr hi
  have ⟨stops, comes⟩ := initial.run (fun i hi => (among i).mp hi) (each.nodup_iff.mpr List.nodup_range)
  refine ⟨stops.trans ⟨fun h p hp => ?_, fun h i _ p hp => h p (List.mem_of_getElem? hp)⟩, comes⟩
  have ⟨i, hp⟩ := List.mem_iff_getElem?.mp hp
  have ⟨hi, _⟩ := List.getElem?_eq_some_iff.mp hp
  exact h i ((among i).mpr hi) p hp

theorem fillAll_eq_ok_iff (templates : Templates) (pages filled : List Page) :
    fillAll templates pages = .ok filled ↔
      (∀ p ∈ pages, Answered templates p) ∧ filled = pages.map (served templates pages) := by
  have ⟨stops, comes⟩ := run_served templates (List.Perm.refl (List.range pages.length))
  rw [← stops, fillAll, fillInTurn]
  generalize Filling.run templates { pages } (List.range pages.length) = out at comes ⊢
  match out with
  | (f, none) => simp [← comes rfl, eq_comm]
  | (f, some fault) => simp

-- Whatever the order in which the pages are filled, it succeeds if all templates are there that they ask for, and
-- each page comes to the same: menus as they are built for the pages as they were at first, put into its own content.
-- Nothing else of it is changed, and nothing at all if it asks for no menu.
theorem fillAll_served (templates : Templates) (pages : List Page) (each : order.Perm (List.range pages.length)) :
    ((Filling.run templates { pages } order).2 = none ↔ ∀ p ∈ pages, Answered templates p) ∧
    ((Filling.run templates { pages } order).2 = none →
      (Filling.run templates { pages } order).1.pages = pages.map (served templates pages)) ∧
    (∀ filled, fillAll templates pages = .ok filled ↔
      (∀ p ∈ pages, Answered templates p) ∧ filled = pages.map (served templates pages)) ∧
    ((∃ fault, fillAll templates pages = .error fault) ↔
      ∃ p ∈ pages, ∃ item ∈ items p, ∀ template, templates.text item Templates.pageExtension ≠ .ok template) ∧
    (∀ p ∈ pages, Answered templates p → ∀ item ∈ items p,
      build templates pages item = .ok (menuText templates pages item)) ∧
    ∀ p, (served templates pages p).title = p.title ∧ (served templates pages p).file = p.file ∧
      (served templates pages p).inputs = p.inputs ∧ (served templates pages p).outputs = p.outputs ∧
      (items p = [] → served templates pages p = p) := by
  have ⟨stops, comes⟩ := run_served templates each
  refine ⟨stops, comes, fillAll_eq_ok_iff templates pages, ?_, fun p _ answered item asked => ?_,
    fun p => ⟨rfl, rfl, rfl, rfl, fun none => ?_⟩⟩
  · have fails : (∃ fault, fillAll templates pages = .error fault) ↔ ¬ ∀ p ∈ pages, Answered templates p := by
      have succeeds := fillAll_eq_ok_iff templates pages
      cases hf : fillAll templates pages
      case error fault =>
        rw [hf] at succeeds
        refine ⟨fun _ answered => ?_, fun _ => ⟨fault, rfl⟩⟩
        cases (succeeds _).mpr ⟨answered, rfl⟩
      case ok filled => exact ⟨nofun, fun h => absurd ((succeeds filled).mp hf).1 h⟩
    rw [fails]
    simp [Answered]
  · obtain ⟨template, ht⟩ := answered item asked
    exact build_of_text ht
  · rw [served, none]
    rfl

def bracketed : Templates where
  text _ _ := .ok (lit "<$\x7btitle\x7d>")
  has _ _  := true

def asking : List Page :=
  [{ title := lit "A", content := lit "$\x7bautomenu:i\x7d, $\x7bautomenu:i\x7d" },
    { title := lit "B", content := lit "no $\x7bautomenu:i\x7d" }]

theorem run_from_last :
    [1, 0].Perm (List.range 2) ∧ (Filling.run bracketed { pages := asking } [1, 0]).2 = none ∧
    (Filling.run bracketed { pages := asking } [1, 0]).1.pages.map Page.content =
      [lit "<A>\n<B>, <A>\n<B>", lit "no <A>\n<B>"] := by
  have each : [1, 0].Perm (List.range asking.length) := by decide
  have ⟨stops, comes, _⟩ := fillAll_served bracketed asking each
  have answered : ∀ p ∈ asking, Answered bracketed p := fun _ _ _ _ => ⟨_, rfl⟩
  refine ⟨each, stops.mpr answered, ?_⟩
  rw [comes (stops.mpr answered)]
  decide

end Serving

end WikiPages.Menu
