import WikiPages.Expansion
import WikiPages.Proofs.Html.Filling

namespace WikiPages.Hole

open Text

variable {a b s : Text} {f : Text → Option Text}

theorem not_mem_of_insides (h : Clean s) (hi : insides s = []) : '$' ∉ s := by
  induction h
  case nil => exact List.not_mem_nil
  case char plain _ ih =>
    rw [insides_cons plain] at hi
    exact List.not_mem_cons_of_ne_of_not_mem (Ne.symm plain) (ih hi)
  case hole plain _ _ =>
    rw [insides_of plain.closing] at hi
    cases hi

theorem Clean.front (h : Clean (a ++ b)) (hb : '}' ∉ b) : Clean a := by
  generalize ht : a ++ b = t at h
  induction h generalizing a
  case nil => exact (List.append_eq_nil_iff.mp ht).1 ▸ .nil
  case char plain _ hi =>
    cases a
    case nil => exact .nil
    case cons d a =>
      have ⟨first, others⟩ := List.cons.inj ht
      exact .char (first ▸ plain) (hi others)
  case hole inside s plain _ hi =>
    rcases List.append_eq_append_iff.mp ht with ⟨part, hole, behind⟩ | ⟨part, hole, behind⟩
    case inr => exact hole ▸ .hole plain (hi behind.symm)
    case inl =>
      have last : part <:+ (opening ++ inside) ++ ['}'] := ⟨a, hole.symm⟩
      rcases List.suffix_concat_iff.mp last with rfl | ⟨part, rfl, _⟩
      case inl =>
        rw [List.append_nil] at hole
        exact hole ▸ .single plain
      case inr => exact absurd (by simp [behind]) hb

theorem insides_fillAll_eq_filter (h : Clean s) (hv : ∀ inside ∈ insides s, ∀ v ∈ f inside, '$' ∉ v) :
    Clean (fillAll f s) ∧ insides (fillAll f s) = (insides s).filter (f · = none) := by
  have clean : ∀ inside ∈ insides s, ∀ v ∈ f inside, Clean v := fun inside hi v hm => .of_free (hv inside hi v hm)
  refine ⟨h.fillAll clean, ?_⟩
  rw [insides_fillAll h clean]
  generalize insides s = all at hv
  induction all
  case nil => rfl
  case cons inside all hi =>
    have ⟨first, rest⟩ := List.forall_mem_cons.mp hv
    rw [List.flatMap_cons, hi rest]
    cases hf : f inside
    case none => simp [hf]
    case some v => simp [hf, insides_of_free (first v hf)]

end WikiPages.Hole

namespace WikiPages.Html

open Text Hole

variable {m n : Mode} {a b s t : Text} {f : Text → Option Text}

theorem enclosed_append (ha : Clean a) (hi : ∀ inside ∈ insides a, Inline inside) (hr : Reads m a n) (b : Text) :
    enclosed m (a ++ b) = enclosed m a ++ enclosed n b := by
  induction ha generalizing m
  case nil =>
    cases hr
    rfl
  case char plain _ ih =>
    have ⟨_, rest⟩ := reads_cons.mp hr
    rw [insides_cons plain] at hi
    rw [List.cons_append, enclosed_cons plain, enclosed_cons plain, ih hi rest]
  case hole plain _ ih =>
    rw [insides_of plain.closing, List.forall_mem_cons] at hi
    have room : m.Open := Mode.open_of_takes (reads_cons.mp hr).1
    have ⟨hole, _⟩ := hi.1.of.reads room
    rw [List.append_assoc, enclosed_of plain hi.1 room, enclosed_of plain hi.1 room, ih hi.2 (hr.behind hole),
      List.append_assoc]

def TakesMarkup (inside : Text) : Prop :=
  inside = lit "content" ∨ argument? Expander.headerKind inside ≠ none ∨ ¬ IsBare inside

instance : DecidablePred TakesMarkup := fun _ => inferInstanceAs (Decidable (_ ∨ _ ∨ _))

def menuItem : Text := menuKind ++ ':' :: lit "menu-item"

structure Layout (s : Text) : Prop where
  clean  : Clean s
  markup : Markup s
  inline : ∀ inside ∈ insides s, Inline inside
  menus  : ∀ inside ∈ insides s, IsBare inside ∨ inside = menuItem
  room   : ∀ inside ∈ enclosed .text s, ¬ TakesMarkup inside

instance : DecidablePred Layout := fun s =>
  decidable_of_iff (Clean s ∧ Markup s ∧ (∀ inside ∈ insides s, Inline inside) ∧
      (∀ inside ∈ insides s, IsBare inside ∨ inside = menuItem) ∧ ∀ inside ∈ enclosed .text s, ¬ TakesMarkup inside)
    ⟨fun ⟨clean, markup, inline, menus, room⟩ => ⟨clean, markup, inline, menus, room⟩,
      fun h => ⟨h.clean, h.markup, h.inline, h.menus, h.room⟩⟩

structure Unmarked (s : Text) : Prop where
  free   : '$' ∉ s
  inline : Inline s

structure Silent (s : Text) : Prop where
  free   : '$' ∉ s
  markup : Markup s
  ids    : ids s = []

def Suits (f : Text → Option Text) (s : Text) : Prop :=
  ∀ inside ∈ insides s, ∀ v ∈ f inside, Unmarked v ∨ TakesMarkup inside ∧ Silent v

theorem unmarked_of_token (h : ∀ c ∈ s, Identifier.isTokenChar c = true) : Unmarked s where
  free   := fun hm => Bool.false_ne_true (h '$' hm)
  inline := by
    intro c hm
    refine ⟨?_, ?_, ?_, ?_⟩
    all_goals
      rintro rfl
      exact absurd (h _ hm) (by decide)

theorem Unmarked.append (ha : Unmarked a) (hb : Unmarked b) : Unmarked (a ++ b) where
  free   := List.not_mem_append ha.free hb.free
  inline := ha.inline.append hb.inline

theorem Unmarked.silent (h : Unmarked s) : Silent s :=
  have ⟨markup, ids⟩ := h.inline.markup
  ⟨h.free, markup, ids⟩

namespace Silent

theorem append (ha : Silent a) (hb : Silent b) : Silent (a ++ b) where
  free   := List.not_mem_append ha.free hb.free
  markup := ha.markup.append hb.markup
  ids    := by rw [ids_append ha.markup, ha.ids, hb.ids]; rfl

theorem flatten {texts : List Text} (h : ∀ t ∈ texts, Silent t) : Silent texts.flatten := by
  induction texts
  case nil => exact ⟨List.not_mem_nil, .nil, rfl⟩
  case cons t texts hi =>
    have ⟨first, rest⟩ := List.forall_mem_cons.mp h
    exact first.append (hi rest)

theorem join {sep : Text} {texts : List Text} (hs : Silent sep) (h : ∀ t ∈ texts, Silent t) :
    Silent (join sep texts) := by
  induction texts using join.induct
  case case1 => exact ⟨List.not_mem_nil, .nil, rfl⟩
  case case2 t => exact h t List.mem_cons_self
  case case3 first second texts hi =>
    obtain ⟨hf, h⟩ := List.forall_mem_cons.mp h
    rw [join_cons_cons]
    exact (hf.append hs).append (hi h)

theorem lineBreak : Silent lineBreak :=
  ⟨by decide, by decide, by decide⟩

end Silent

namespace Layout

theorem of_free (hs : '$' ∉ s) (h : Markup s) : Layout s where
  clean  := .of_free hs
  markup := h
  inline := by simp [insides_of_free hs]
  menus  := by simp [insides_of_free hs]
  room   := by
    have enclosed := enclosed_of_free hs h []
    rw [List.append_nil] at enclosed
    rw [enclosed]
    exact nofun

theorem lineBreak : Layout lineBreak :=
  .of_free Silent.lineBreak.free Silent.lineBreak.markup

theorem of_subset (h : Layout s) (clean : Clean t) (markup : Markup t) (hi : insides t ⊆ insides s)
    (he : enclosed .text t ⊆ enclosed .text s) : Layout t where
  clean  := clean
  markup := markup
  inline := fun inside hm => h.inline inside (hi hm)
  menus  := fun inside hm => h.menus inside (hi hm)
  room   := fun inside hm => h.room inside (he hm)

theorem append (ha : Layout a) (hb : Layout b) : Layout (a ++ b) where
  clean  := ha.clean.append hb.clean
  markup := ha.markup.append hb.markup
  inline := by
    rw [insides_append ha.clean]
    exact List.forall_mem_append.mpr ⟨ha.inline, hb.inline⟩
  menus  := by
    rw [insides_append ha.clean]
    exact List.forall_mem_append.mpr ⟨ha.menus, hb.menus⟩
  room   := by
    rw [enclosed_append ha.clean ha.inline ha.markup]
    exact List.forall_mem_append.mpr ⟨ha.room, hb.room⟩

theorem fillAll (h : Layout s) (hf : Suits f s) :
    Layout (fillAll f s) ∧ ids (Hole.fillAll f s) = ((ids s).map (Hole.fillAll f)).filter (· ≠ []) ∧
      insides (Hole.fillAll f s) = (insides s).filter (f · = none) := by
  have free : ∀ inside ∈ insides s, ∀ v ∈ f inside, '$' ∉ v := fun inside hi v hv =>
    (hf inside hi v hv).elim Unmarked.free fun takes => takes.2.free
  have fits : Fits f .text s := by
    refine fun inside hi => ⟨h.inline inside hi, fun v hv => ⟨free inside hi v hv, ?_⟩⟩
    rcases hf inside hi v hv with unmarked | ⟨takes, silent⟩
    · exact .inl unmarked.inline
    · exact .inr ⟨fun hm => h.room inside hm takes, silent.markup, silent.ids⟩
  have ⟨reads, found, fewer⟩ := reads_fillAll h.clean h.markup trivial fits
  have ⟨clean, left⟩ := insides_fillAll_eq_filter h.clean free
  exact ⟨h.of_subset clean reads (left ▸ List.filter_subset_self _) fewer, found, left⟩

theorem stripUnfilled (h : Layout s) (hd : ∀ id ∈ ids s, '$' ∉ id) :
    Layout (stripUnfilled s) ∧ ids (Hole.stripUnfilled s) = ids s := by
  have strips := strips_stripUnfilled h.clean
  have ⟨reads, same, fewer⟩ := Strips.reads strips h.inline h.markup hd
  have ⟨clean, left⟩ := strips.insides_eq
  exact ⟨h.of_subset clean reads (left ▸ List.filter_subset_self _) fewer, same⟩

theorem trimEnd (h : Layout s) : Layout (trimEnd s) ∧ ids (Text.trimEnd s) = ids s := by
  have ⟨markup, same⟩ := h.markup.trimEnd
  have ⟨blanks, parts, blank⟩ := exists_blanks s
  have free : '}' ∉ blanks ∧ '$' ∉ blanks := by
    constructor
    all_goals
      intro hm
      exact absurd (blank _ hm) (by decide)
  have clean : Clean (Text.trimEnd s) := Clean.front (parts.symm ▸ h.clean) free.1
  have all : insides s = insides (Text.trimEnd s) := by
    rw [← parts, insides_append clean, insides_of_free free.2, List.append_nil, parts]
  refine ⟨h.of_subset clean markup (all ▸ fun _ => id) fun inside hi => ?_, same⟩
  rw [← parts, enclosed_append clean (all ▸ h.inline) markup]
  exact List.mem_append_left _ hi

end Layout
end WikiPages.Html
