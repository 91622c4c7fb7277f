import WikiPages.Proofs.Identifier.Letters
import WikiPages.Proofs.Menu.Cache
import WikiPages.Proofs.Template.Bundled
import WikiPages.Proofs.Template.Inert

namespace WikiPages.Menu

open Text Pattern

variable {a b t s item : Text} {tree : FileTree} {templates : Templates} {p : Page} {pages : List Page}

-- A text that no menu hole can reach: no hole begins or ends in it, and it has more letters than any name of
-- a bundled template, so that no hole holds it.
structure Lasts (t : Text) : Prop where
  opening : '$' ∉ t
  closing : '}' ∉ t
  long    : 38 < (Identifier.letters t).length

theorem length_letters_hole (h : (Identifier.normalize item).length ≤ 30) :
    (Identifier.letters (Hole.ofNamed Hole.menuKind item)).length ≤ 38 := by
  have := Identifier.length_letters_le item
  have hw : Hole.ofNamed Hole.menuKind item = lit "$\x7bautomenu:" ++ (item ++ ['}']) := by
    simp [Hole.ofNamed, Hole.of, Hole.opening, Hole.closing, Hole.menuKind, lit]
  have hl : (Identifier.letters (lit "$\x7bautomenu:")).length = 8 := by decide
  have hc : (Identifier.letters ['}']).length = 0 := by decide
  rw [Identifier.letters] at this hl hc ⊢
  rw [hw, List.filter_append, List.filter_append, List.length_append, List.length_append]
  omega

theorem hole_within (h : (Identifier.normalize item).length ≤ 30) (l : Lasts t) :
    (exactly (Hole.ofNamed Hole.menuKind item)).Within a (t ++ b) := by
  intro s hs _ x width hw
  obtain ⟨hp, rfl⟩ := exactly_eq_some_iff.mp hw
  refine Nat.le_of_not_lt fun hl => ?_
  -- the part of the hole behind `s`, which is either the start of `t` or all of it and more
  have ⟨part, he⟩ : s <+: Hole.ofNamed Hole.menuKind item :=
    List.prefix_of_prefix_length_le (List.prefix_append _ _) hp (Nat.le_of_lt hl)
  rw [← he, List.prefix_append_right_inj] at hp
  cases List.prefix_or_prefix_of_prefix hp (List.prefix_append t b)
  case inl ht =>
    have hc : '}' ∈ part := by
      have hsuf : part <:+ (Hole.opening ++ (Hole.menuKind ++ ':' :: item)) ++ ['}'] :=
        ⟨s, he⟩
      cases List.suffix_concat_iff.mp hsuf
      case inl hn =>
        subst hn
        rw [← he] at hl
        simp at hl
      case inr hn =>
        have ⟨u, hu, _⟩ := hn
        simp [hu]
    exact l.closing (ht.subset hc)
  case inr ht =>
    have hi : t <:+: Hole.ofNamed Hole.menuKind item :=
      ht.isInfix.trans ⟨s, [], by rw [he, List.append_nil]⟩
    have := (hi.sublist.filter Char.isLower).length_le
    have := length_letters_hole h
    have := l.long
    rw [Identifier.letters] at *
    omega

theorem fill_keeps {all : List Page} {q : Page} (h : fill templates all p = .ok q) :
    q = { p with content := q.content } := by
  have ⟨content, _, hq⟩ := exists_of_bind h
  cases hq
  rfl

theorem forall₂_fillEach {all filled : List Page} (h : fillEach templates all pages = (filled, none)) :
    List.Forall₂ (fun p q => fill templates all p = .ok q) pages filled := by
  induction pages generalizing filled
  case nil =>
    cases h
    exact .nil
  case cons p pages hi =>
    rw [fillEach] at h
    cases hp : fill templates all p
    case error =>
      rw [hp] at h
      cases h
    case ok q =>
      rw [hp] at h
      obtain ⟨hf, he⟩ := Prod.mk.inj h
      exact hf ▸ .cons hp (hi (Prod.ext rfl he))

theorem forall₂_fill {filled : List Page} (h : fillAll templates pages = .ok filled) :
    List.Forall₂ (fun p q => fill templates pages p = .ok q) pages filled := by
  rw [fillAll_eq] at h
  split at h
  case h_1 he =>
    cases h
    exact forall₂_fillEach he
  case h_2 => cases h

theorem forall₂_fillAll {filled : List Page} (h : fillAll templates pages = .ok filled) :
    List.Forall₂ (fun p q => q = { p with content := q.content }) pages filled :=
  (forall₂_fill h).imp fun _ _ => fill_keeps

def start : Text := lit "$\x7bautomenu:"

theorem fill_of_absent {all : List Page} (h : ¬ start <:+: p.content) : fill templates all p = .ok p := by
  have none : Hole.arguments Hole.menuKind p.content = [] := Hole.arguments_of_absent h
  simp only [fill, none]
  rfl

theorem fillEach_of_absent {all : List Page} (h : ∀ p ∈ pages, ¬ start <:+: p.content) :
    fillEach templates all pages = (pages, none) := by
  induction pages
  case nil => rfl
  case cons p pages hi =>
    have ⟨here, rest⟩ := List.forall_mem_cons.mp h
    simp only [fillEach, fill_of_absent here, hi rest]

theorem fillAll_of_absent (h : ∀ p ∈ pages, ¬ start <:+: p.content) : fillAll templates pages = .ok pages := by
  simp only [fillAll_eq, fillEach_of_absent h]

theorem page_of_build {menu : Text} (h : build templates (p :: pages) item = .ok menu) :
    ∃ entry, templates.page item (entryValues p) = .ok entry := by
  have ⟨template, ht⟩ := exists_text_of_build (List.cons_ne_nil p pages) h
  exact ⟨(entryValues p).apply template, by rw [Templates.page, Templates.fill, ht]; rfl⟩

-- A text that stays where it is, with what was in front of it changed, and what was behind it as well if
-- there were holes in it.
def Stays (t b s : Text) : Prop := ∃ front back, s = front ++ (t ++ back) ∧ ('$' ∉ b → back = b)

section

variable (bundled : templates = Cabinet.templates tree Cabinet.bundled) (l : Lasts t)

include bundled l

theorem stays_fillItem (h : fillItem templates (p :: pages) (a ++ (t ++ b)) item = .ok s) :
    Stays t b s := by
  rw [fillItem] at h
  obtain ⟨menu, hb, hs⟩ := exists_of_bind h
  have hs : replaceAll (Hole.ofNamed Hole.menuKind item) menu (a ++ (t ++ b)) = s := Except.ok.inj hs
  obtain ⟨entry, he⟩ := page_of_build hb
  have hn : (Identifier.normalize item).length ≤ 30 := by
    rw [bundled] at he
    exact Cabinet.length_le_of_page he
  obtain ⟨front, hf⟩ := exists_replace_append (f := fun _ => menu) (@hole_within a b t item hn l)
  have ht : replaceAll (Hole.ofNamed Hole.menuKind item) menu (t ++ b) =
      t ++ replaceAll (Hole.ofNamed Hole.menuKind item) menu b := Hole.fill_of_free l.opening
  have hk (h : '$' ∉ b) : replaceAll (Hole.ofNamed Hole.menuKind item) menu b = b :=
    Hole.fill_eq_self h
  refine ⟨front, _, ?_, hk⟩
  rw [← hs, ← ht]
  exact hf

theorem stays_foldlM {items : List Text}
    (h : items.foldlM (fillItem templates (p :: pages)) (a ++ (t ++ b)) = .ok s) : Stays t b s := by
  induction items generalizing a b
  case nil =>
    cases h
    exact ⟨a, b, rfl, fun _ => rfl⟩
  case cons item items hi =>
    rw [List.foldlM_cons] at h
    have ⟨s', hf, h⟩ := exists_of_bind h
    have ⟨front, back, he, hb⟩ := stays_fillItem bundled l hf
    have ⟨front', back', he', hb'⟩ := hi (he ▸ h)
    refine ⟨front', back', he', fun h => ?_⟩
    rw [hb' (hb h ▸ h), hb h]

theorem exists_fillAll {filled : List Page} (hp : p.content = a ++ (t ++ b))
    (h : fillAll templates [p] = .ok filled) :
    ∃ front back, filled = [{ p with content := front ++ (t ++ back) }] ∧ ('$' ∉ b → back = b) := by
  cases hf : (Hole.arguments Hole.menuKind p.content).foldlM (fillItem templates [p]) p.content
  case error =>
    rw [fillAll_eq, fillEach, fill, hf] at h
    cases h
  case ok s =>
    rw [fillAll_eq, fillEach, fill, hf] at h
    cases h
    rw [hp] at hf
    obtain ⟨front, back, he, hb⟩ := stays_foldlM bundled l hf
    exact ⟨front, back, by rw [he], hb⟩

end

end WikiPages.Menu
