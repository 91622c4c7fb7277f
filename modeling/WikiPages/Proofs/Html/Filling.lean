import WikiPages.Proofs.Html.Ids
import WikiPages.Proofs.Template.Stripping

namespace WikiPages.Html

open Text Hole

variable {m n m' : Mode} {a b inside s v : Text} {c : Char} {f : Text → Option Text}

def enclosed : Mode → Text → List Text
  | _, []     => []
  | m, c :: s =>
    (if m = .text then [] else ((read? (c :: s)).map (·.1)).toList) ++ enclosed (m.next c) s

theorem enclosed_cons (h : c ≠ '$') (s : Text) : enclosed m (c :: s) = enclosed (m.next c) s := by
  rw [enclosed, read?_of_ne h]
  simp

theorem enclosed_of_free (h : '$' ∉ a) (ha : Reads m a n) (s : Text) : enclosed m (a ++ s) = enclosed n s := by
  induction ha
  case nil => rfl
  case cons hi =>
    have ⟨first, rest⟩ := not_or.mp fun hm => h (List.mem_cons.mpr hm)
    rw [List.cons_append, enclosed_cons (Ne.symm first), hi rest]

theorem Inline.of (h : Inline inside) : Inline (of inside) := by
  have opening : Inline opening := by decide
  have closing : Inline closing := by decide
  exact (opening.append h).append closing

theorem Mode.open_of_takes (h : m.Takes '$') : m.Open := by
  cases m
  case text | id | value => trivial
  case tag => exact h.2.1 rfl
  case behind => exact absurd h (by decide)

theorem enclosed_of (hi : IsInside inside) (h : Inline inside) (hm : m.Open) (s : Text) :
    enclosed m (of inside ++ s) = (if m = .text then [] else [inside]) ++ enclosed (m.push (of inside)) s := by
  have rest : Inline ('{' :: inside ++ ['}']) := fun c hc => h.of c (List.mem_cons_of_mem _ hc)
  have ⟨reads, _⟩ := Inline.reads rest (hm.push ['$'])
  have first : m.next '$' = m.push ['$'] := by
    cases m
    case text | id | value => rfl
    case tag | behind => cases hm
  rw [Mode.push_append] at reads
  have behind : enclosed (m.push ['$']) ('{' :: inside ++ ['}'] ++ s) = enclosed (m.push (of inside)) s :=
    enclosed_of_free (not_mem_rest hi.sign) reads s
  have here : read? ('$' :: ('{' :: inside ++ ['}'] ++ s)) = some (inside, s) := read?_of hi.closing s
  rw [of_eq_cons, List.cons_append, enclosed, first, here, behind]
  rfl

namespace Mode

def fill (f : Text → Option Text) : Mode → Mode
  | id read => id (fillAll f read)
  | m       => m

def Whole : Mode → Prop
  | id read => Clean read
  | _       => True

theorem takes_fill : (m.fill f).Takes c ↔ m.Takes c := by
  cases m <;> exact Iff.rfl

theorem Open.fill (h : m.Open) : (m.fill f).Open := by
  cases m <;> exact h

theorem fill_eq_text_iff : m.fill f = text ↔ m = text := by
  cases m <;> simp [fill]

theorem step_fill (hc : c ≠ '$') (hm : m.Whole) :
    (m.next c).Whole ∧ (m.fill f).next c = (m.next c).fill f ∧
      (m.fill f).given c = ((m.given c).map (fillAll f)).filter (· ≠ []) := by
  cases m
  case id read =>
    have single : fillAll f (read ++ [c]) = fillAll f read ++ [c] := by
      rw [fillAll_append hm, fillAll_cons hc]
      rfl
    by_cases hq : c = '\x22'
    · subst hq
      refine ⟨trivial, rfl, ?_⟩
      by_cases hr : read = []
      · subst hr
        rfl
      · have given : (id read).given '\x22' = [read] := if_pos ⟨rfl, hr⟩
        rw [given, Mode.fill, Mode.given]
        by_cases hf : fillAll f read = [] <;> simp [hf]
    · have next (read : Text) : (id read).next c = id (read ++ [c]) := if_neg hq
      have given (read : Text) : (id read).given c = [] := if_neg fun h => hq h.1
      rw [next, given, Mode.fill, next, given, Mode.fill, single]
      exact ⟨hm.append (.char hc .nil), rfl, rfl⟩
  case tag word =>
    refine ⟨?_, ?_, rfl⟩
    all_goals
      simp only [next, Mode.fill]
      split_ifs <;> first | trivial | exact Clean.nil
  all_goals
    refine ⟨?_, ?_, rfl⟩
    all_goals
      simp only [next, Mode.fill]
      split_ifs <;> trivial

theorem push_fill (hi : IsInside inside) (hm : m.Whole) :
    (m.push (of inside)).Whole ∧ (m.push (of inside)).fill f = (m.fill f).push ((f inside).getD (of inside)) := by
  cases m
  case id read =>
    refine ⟨Clean.append hm (.single hi), ?_⟩
    have filled : fillAll f (of inside) = (f inside).getD (of inside) := by
      have behind : fillAll f (of inside ++ []) = _ ++ [] := fillAll_of hi.closing []
      rwa [List.append_nil, List.append_nil] at behind
    simp only [push, Mode.fill, fillAll_append hm, filled]
  all_goals exact ⟨trivial, rfl⟩

end Mode

-- What is filled in has no holes and can be read where it is put: if it is markup, in the text.
def Fits (f : Text → Option Text) (m : Mode) (s : Text) : Prop :=
  ∀ inside ∈ insides s, Inline inside ∧
    ∀ v ∈ f inside, '$' ∉ v ∧ (Inline v ∨ inside ∉ enclosed m s ∧ Markup v ∧ ids v = [])

theorem Fits.char (h : Fits f m (c :: s)) (hc : c ≠ '$') : Fits f (m.next c) s := by
  intro inside hi
  rw [← enclosed_cons hc]
  exact h inside (insides_cons hc s ▸ hi)

theorem Fits.hole (h : Fits f m (of inside ++ s)) (hi : IsInside inside) (hm : m.Open) :
    Inline inside ∧ (∀ v ∈ f inside, '$' ∉ v ∧ (Inline v ∨ m = .text ∧ Markup v ∧ ids v = [])) ∧
      Fits f (m.push (of inside)) s := by
  rw [Fits, insides_of hi.closing, List.forall_mem_cons] at h
  have ⟨⟨inline, values⟩, rest⟩ := h
  rw [enclosed_of hi inline hm] at values rest
  have text (h : inside ∉ (if m = .text then [] else [inside]) ++ enclosed (m.push (of inside)) s) : m = .text := by
    by_contra hn
    exact h (by simp [hn])
  refine ⟨inline, fun v hv => (values v hv).imp_right (Or.imp_right (And.imp_left text)), fun other ho => ?_⟩
  have ⟨inline, values⟩ := rest other ho
  refine ⟨inline, fun v hv => (values v hv).imp_right (Or.imp_right (And.imp_left fun h hm => h ?_))⟩
  exact List.mem_append_right _ hm

theorem reads_getD (hi : IsInside inside) (inline : Inline inside) (hm : m.Open)
    (hf : ∀ v ∈ f inside, '$' ∉ v ∧ (Inline v ∨ m = .text ∧ Markup v ∧ ids v = [])) :
    let v := (f inside).getD (of inside)
    Reads (m.fill f) v ((m.fill f).push v) ∧ idsFrom (m.fill f) v = [] ∧ ∀ t,
      enclosed (m.fill f) (v ++ t) ⊆ (if m = .text then [] else [inside]) ++ enclosed ((m.fill f).push v) t := by
  cases hv : f inside
  case none =>
    obtain ⟨reads, silent⟩ := inline.of.reads (hm.fill (f := f))
    refine ⟨reads, silent, fun t => ?_⟩
    rw [Option.getD_none, enclosed_of hi inline hm.fill]
    simp only [Mode.fill_eq_text_iff]
    exact fun _ => id
  case some v =>
    obtain ⟨free, values⟩ := hf v hv
    obtain ⟨reads, silent⟩ : Reads (m.fill f) v ((m.fill f).push v) ∧ idsFrom (m.fill f) v = [] := by
      rcases values with inline | ⟨rfl, markup, silent⟩
      · exact inline.reads hm.fill
      · exact ⟨markup, silent⟩
    refine ⟨reads, silent, fun t => ?_⟩
    rw [Option.getD_some, enclosed_of_free free reads]
    exact List.subset_append_right _ _

theorem reads_fillAll (hs : Clean s) (h : Reads m s m') (hm : m.Whole) (hf : Fits f m s) :
    Reads (m.fill f) (fillAll f s) (m'.fill f) ∧
      idsFrom (m.fill f) (fillAll f s) = ((idsFrom m s).map (fillAll f)).filter (· ≠ []) ∧
      enclosed (m.fill f) (fillAll f s) ⊆ enclosed m s := by
  induction hs generalizing m
  case nil =>
    cases h
    exact ⟨.nil, rfl, fun _ => id⟩
  case char c s plain _ hi =>
    obtain ⟨takes, rest⟩ := reads_cons.mp h
    obtain ⟨whole, next, given⟩ := Mode.step_fill (f := f) plain hm
    obtain ⟨reads, found, fewer⟩ := hi rest whole (hf.char plain)
    rw [fillAll_cons plain, idsFrom, idsFrom, List.map_append, List.filter_append, ← given, ← found,
      enclosed_cons plain, enclosed_cons plain, next]
    exact ⟨.cons (Mode.takes_fill.mpr takes) (next ▸ reads), rfl, fewer⟩
  case hole inside s plain _ hi =>
    have room : m.Open := Mode.open_of_takes (reads_cons.mp h).1
    obtain ⟨inline, values, fits⟩ := hf.hole plain room
    obtain ⟨first, silent⟩ := inline.of.reads room
    obtain ⟨whole, push⟩ := Mode.push_fill (f := f) plain hm
    obtain ⟨reads, found, fewer⟩ := hi (h.behind first) whole fits
    rw [first.idsFrom_append, silent, List.nil_append, enclosed_of plain inline room, fillAll_of plain.closing,
      ← found, push]
    rw [push] at reads fewer
    obtain ⟨here, quiet, enclosed⟩ := reads_getD plain inline room values
    refine ⟨here.append reads, by rw [here.idsFrom_append, quiet, List.nil_append], ?_⟩
    refine List.Subset.trans (enclosed _) (List.append_subset.mpr ⟨List.subset_append_left _ _, ?_⟩)
    exact List.subset_append_of_subset_right _ fewer

theorem exists_id {read : Text} (h : Reads (.id read) s .text) (hr : read ≠ []) :
    ∃ id ∈ idsFrom (.id read) s, read <+: id := by
  induction s generalizing read
  case nil => cases h
  case cons c s hi =>
    obtain ⟨_, rest⟩ := reads_cons.mp h
    rw [idsFrom]
    by_cases hc : c = '\x22'
    case pos =>
      have given : (Mode.id read).given c = [read] := if_pos ⟨hc, hr⟩
      exact ⟨read, by simp [given], List.prefix_refl read⟩
    case neg =>
      have next : (Mode.id read).next c = .id (read ++ [c]) := if_neg hc
      rw [next] at rest ⊢
      obtain ⟨id, hm, hp⟩ := hi rest (by simp)
      exact ⟨id, List.mem_append_right _ hm, (List.prefix_append _ _).trans hp⟩

theorem still_of_hole (h : Reads m (of inside ++ s) .text) (hd : ∀ id ∈ idsFrom m (of inside ++ s), '$' ∉ id) :
    m = .text ∨ m = .value := by
  have room : m.Open := Mode.open_of_takes (reads_cons.mp h).1
  cases m
  case text => exact .inl rfl
  case value => exact .inr rfl
  case tag | behind => cases room
  case id read =>
    have next : (Mode.id read).next '$' = .id (read ++ ['$']) := rfl
    have rest := (reads_cons.mp h).2
    rw [next] at rest
    have ⟨id, hm, hp⟩ := exists_id rest (by simp)
    refine absurd (hp.subset (by simp)) (hd id ?_)
    rw [of_eq_cons, List.cons_append, idsFrom, next]
    exact List.mem_append_right _ hm

theorem reads_dropped {before after : Text} (hi : IsInside inside) (inline : Inline inside)
    (blanks : ∀ c ∈ before ++ after, isBlank c = true) (h : Reads m (before ++ (of inside ++ (after ++ s))) .text)
    (hd : ∀ id ∈ idsFrom m (before ++ (of inside ++ (after ++ s))), '$' ∉ id) :
    Reads m s .text ∧ idsFrom m (before ++ (of inside ++ (after ++ s))) = idsFrom m s ∧
      enclosed m s ⊆ enclosed m (before ++ (of inside ++ (after ++ s))) := by
  obtain ⟨front, back⟩ := List.forall_mem_append.mp blanks
  obtain ⟨n, first, second⟩ := h.exists_of_append
  rw [first.idsFrom_append] at hd ⊢
  have still := still_of_hole second fun id hm => hd id (List.mem_append_right _ hm)
  obtain ⟨here, silent⟩ := first.still front (.inr still)
  subst here
  have room : m.Open := Mode.open_of_takes (reads_cons.mp second).1
  obtain ⟨hole, quiet⟩ := inline.of.reads room
  have same : m.push (of inside) = m := by
    rcases still with rfl | rfl <;> rfl
  rw [same] at hole
  obtain ⟨n', third, fourth⟩ := (second.behind hole).exists_of_append
  obtain ⟨there, mute⟩ := third.still back (.inl still)
  subst there
  refine ⟨fourth, ?_, ?_⟩
  · rw [silent, hole.idsFrom_append, quiet, third.idsFrom_append, mute]
    rfl
  · rw [enclosed_of_free (free_of_blanks front) first, enclosed_of hi inline room, same,
      enclosed_of_free (free_of_blanks back) third]
    exact List.subset_append_right _ _

theorem Strips.reads {t : Text} (hs : Strips s t) (hi : ∀ inside ∈ insides s, Inline inside) (h : Reads m s .text)
    (hd : ∀ id ∈ idsFrom m s, '$' ∉ id) :
    Reads m t .text ∧ idsFrom m t = idsFrom m s ∧ enclosed m t ⊆ enclosed m s := by
  induction hs generalizing m
  case nil => exact ⟨h, rfl, fun _ => id⟩
  case char plain _ ih =>
    obtain ⟨takes, rest⟩ := reads_cons.mp h
    rw [insides_cons plain] at hi
    obtain ⟨reads, same, fewer⟩ := ih hi rest fun id hm => hd id (List.mem_append_right _ hm)
    rw [enclosed_cons plain, enclosed_cons plain]
    exact ⟨.cons takes reads, by rw [idsFrom, idsFrom, same], fewer⟩
  case kept plain _ _ ih =>
    rw [insides_of plain.closing, List.forall_mem_cons] at hi
    have room : m.Open := Mode.open_of_takes (reads_cons.mp h).1
    obtain ⟨hole, silent⟩ := hi.1.of.reads room
    rw [hole.idsFrom_append] at hd ⊢
    obtain ⟨reads, same, fewer⟩ := ih hi.2 (h.behind hole) fun id hm => hd id (List.mem_append_right _ hm)
    rw [enclosed_of plain hi.1 room, enclosed_of plain hi.1 room]
    refine ⟨hole.append reads, by rw [hole.idsFrom_append, same], List.append_subset.mpr ⟨?_, ?_⟩⟩
    · exact List.subset_append_left _ _
    · exact List.subset_append_of_subset_right _ fewer
  case dropped before inside after s t plain _ blanks _ ih =>
    rw [insides_around plain blanks, List.forall_mem_cons] at hi
    obtain ⟨rest, same, more⟩ := reads_dropped plain hi.1 blanks h hd
    rw [same] at hd ⊢
    obtain ⟨reads, same', fewer⟩ := ih hi.2 rest hd
    exact ⟨reads, same', List.Subset.trans fewer more⟩

end WikiPages.Html
