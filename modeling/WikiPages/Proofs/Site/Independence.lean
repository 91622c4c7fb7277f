import WikiPages.Proofs.Menu.Filling
import WikiPages.Proofs.Site.Slot

namespace WikiPages.Site

open Text

variable {site : Site} {front back : List Text}

def startsPage (written : List Text) : Bool := written.head?.any fun l => (Line.heading? l).isSome

theorem below_of_startsPage (h : startsPage back = true) : below back = [] := by
  cases back
  case nil       => rfl
  case cons l _ =>
    have ⟨_, hl⟩ := Option.isSome_iff_exists.mp h
    exact below_heading hl

theorem below_append (h : startsPage back = true) : below (front ++ back) = below front := by
  induction front
  case nil => exact below_of_startsPage h
  case cons l _ hi =>
    cases hl : Line.heading? l
    case none => simp only [List.cons_append, below_line hl, hi]
    case some => simp only [List.cons_append, below_heading hl]

theorem sections_append (h : startsPage back = true) :
    sections (front ++ back) = sections front ++ sections back := by
  induction front
  case nil => rfl
  case cons l _ hi =>
    cases hl : Line.heading? l
    case none => simp only [List.cons_append, sections_line hl, hi]
    case some => simp only [List.cons_append, sections_heading hl, below_append h, hi]

-- What comes of two parts: the pages of both, or else the first fault.
def followedBy (early late : Except Fault (List Page)) : Except Fault (List Page) :=
  match early, late with
  | .error fault, _          => .error fault
  | .ok _, .error fault      => .error fault
  | .ok pages, .ok following => .ok (pages ++ following)

theorem map_followedBy (f : Page → Page) (early late : Except Fault (List Page)) :
    (followedBy early late).map (·.map f) = followedBy (early.map (·.map f)) (late.map (·.map f)) := by
  cases early
  case error => rfl
  case ok pages =>
    cases late
    case error => rfl
    case ok    => simp [followedBy, Except.map]

theorem rawPages_append (h : startsPage back = true) :
    site.rawPages (front ++ back) = followedBy (site.rawPages front) (site.rawPages back) := by
  simp only [rawPages_eq, sections_append h, List.mapM_append]
  cases (sections front).mapM site.draft
  case error => rfl
  case ok =>
    cases (sections back).mapM site.draft
    case error => rfl
    case ok    => simp [followedBy, Except.map, bind, Except.bind, pure, Except.pure]

def on (site : Site) (specification : Text) : Site := { site with specification }

-- Some lines make no page that asks for a menu.
def Unasked (site : Site) (written : List Text) : Prop :=
  ∀ pages, site.rawPages written = .ok pages → ∀ p ∈ pages, ¬ Menu.start <:+: p.content

theorem pages_of_unasked {s : Text} (h : site.Unasked (lines s)) :
    (site.on s).pages =
      (site.rawPages (lines s)).map (·.map fun p => { p with content := Cleanup.clean p.content }) := by
  change (site.rawPages (lines s) >>= fun raw => Menu.fillAll site.expander.templates raw >>= _) = _
  cases hr : site.rawPages (lines s)
  case error => rfl
  case ok raw =>
    change (Menu.fillAll site.expander.templates raw >>= _) = _
    simp only [Menu.fillAll_of_absent (h raw hr)]
    rfl

theorem Unasked.append (h : startsPage back = true) (hf : site.Unasked front) (hb : site.Unasked back) :
    site.Unasked (front ++ back) := by
  intro pages hp
  rw [rawPages_append h] at hp
  cases ef : site.rawPages front
  case error =>
    rw [ef] at hp
    cases hp
  case ok early =>
    cases eb : site.rawPages back
    case error =>
      rw [ef, eb] at hp
      cases hp
    case ok late =>
      rw [ef, eb] at hp
      cases hp
      exact List.forall_mem_append.mpr ⟨hf early ef, hb late eb⟩

-- No page depends on what is written in front of its heading, and none on what is written behind its lines. If no
-- page asks for a menu, of which the other pages are a part, that is so to the end.
theorem pages_independent (starts : startsPage back = true) :
    site.rawPages (front ++ back) = followedBy (site.rawPages front) (site.rawPages back) ∧
    (site.Unasked front → site.Unasked back →
      ∀ s first second, lines first = front → lines second = back → lines s = front ++ back →
        (site.on s).pages = followedBy (site.on first).pages (site.on second).pages) := by
  refine ⟨rawPages_append starts, fun hf hb s first second ef eb es => ?_⟩
  subst ef eb
  have all : site.Unasked (lines s) := es ▸ hf.append starts hb
  simp only [pages_of_unasked hf, pages_of_unasked hb, pages_of_unasked all, es, rawPages_append starts,
    map_followedBy]

def home : List Text := [lit "Nowhere", lit "== Home", lit "* Hello"]

def away : List Text := [lit "== Away", lit "Hello"]

-- The second page begins afresh, though a line is still open on the first.
theorem pages_independent_home_away :
    startsPage away = true ∧ headed.Unasked home ∧ headed.Unasked away ∧
    headed.rawPages (home ++ away) = .ok
      [{ title := lit "Home", content := lit "<h1>Home</h1>\nHello\n<p>en</p>" },
        { title := lit "Away", content := lit "<h1>Away</h1>\nHello\n<p>en</p>" }] ∧
    (headed.on (lit "Nowhere\n== Home\n* Hello\n== Away\nHello")).pages =
      followedBy (headed.on (lit "Nowhere\n== Home\n* Hello")).pages (headed.on (lit "== Away\nHello")).pages := by
  have starts : startsPage away = true := by rfl
  have first : headed.rawPages home =
      .ok [{ title := lit "Home", content := lit "<h1>Home</h1>\nHello\n<p>en</p>" }] := by rfl
  have second : headed.rawPages away =
      .ok [{ title := lit "Away", content := lit "<h1>Away</h1>\nHello\n<p>en</p>" }] := by rfl
  have unasked {written : List Text} {p : Page} (hr : headed.rawPages written = .ok [p])
      (hp : ¬ Menu.start <:+: p.content) : headed.Unasked written := by
    intro pages h
    cases hr.symm.trans h
    exact List.forall_mem_singleton.mpr hp
  have unaskedHome := unasked first (by decide)
  have unaskedAway := unasked second (by decide)
  have ⟨apart, toTheEnd⟩ := @pages_independent headed home away starts
  refine ⟨starts, unaskedHome, unaskedAway, ?_, toTheEnd unaskedHome unaskedAway _ _ _ (by rfl) (by rfl) (by rfl)⟩
  rw [apart, first, second]
  rfl

end WikiPages.Site
