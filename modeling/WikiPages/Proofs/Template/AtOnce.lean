import WikiPages.Proofs.Template.Clean

namespace WikiPages.Hole

open Text

variable {a b inside key kind s v : Text} {c : Char} {f g : Text → Option Text}

-- All holes filled at once, in one pass from left to right. Those for which there is no value stay.
def fillAll (value : Text → Option Text) (s : Text) : Text :=
  any.replace (fun inside => (value inside).getD (of inside)) s

theorem fillAll_cons (h : c ≠ '$') (s : Text) : fillAll f (c :: s) = c :: fillAll f s :=
  Pattern.replace_of_miss (any_cons h s)

theorem fillAll_of (h : '}' ∉ inside) (s : Text) :
    fillAll f (of inside ++ s) = (f inside).getD (of inside) ++ fillAll f s :=
  Pattern.replace_of_hit (of_ne_nil inside) (any_of h s)

theorem fillAll_append (h : Clean a) (b : Text) : fillAll f (a ++ b) = fillAll f a ++ fillAll f b := by
  induction h
  case nil => rfl
  case char plain _ hi => rw [List.cons_append, fillAll_cons plain, fillAll_cons plain, hi, List.cons_append]
  case hole plain _ hi =>
    rw [List.append_assoc, fillAll_of plain.closing, fillAll_of plain.closing, hi, List.append_assoc]

theorem fillAll_congr (h : Clean s) (hv : ∀ inside ∈ insides s, f inside = g inside) :
    fillAll f s = fillAll g s := by
  induction h
  case nil => rfl
  case char plain _ hi =>
    rw [insides_cons plain] at hv
    rw [fillAll_cons plain, fillAll_cons plain, hi hv]
  case hole plain _ hi =>
    rw [insides_of plain.closing] at hv
    have ⟨first, rest⟩ := List.forall_mem_cons.mp hv
    rw [fillAll_of plain.closing, fillAll_of plain.closing, first, hi rest]

theorem fillAll_none (h : Clean s) : fillAll (fun _ => none) s = s := by
  induction h
  case nil => rfl
  case char plain _ hi => rw [fillAll_cons plain, hi]
  case hole plain _ hi =>
    rw [fillAll_of plain.closing, hi]
    rfl

structure Unfilled (f : Text → Option Text) (s : Text) : Prop where
  clean : Clean s
  none  : ∀ inside ∈ insides s, f inside = none

theorem Unfilled.of_free (h : '$' ∉ s) : Unfilled f s where
  clean := .of_free h
  none  := by simp [insides_of_free h]

theorem Unfilled.fillAll_eq (h : Unfilled f s) : fillAll f s = s :=
  (fillAll_congr h.clean h.none).trans (fillAll_none h.clean)

theorem Clean.fillAll (h : Clean s) (hv : ∀ inside ∈ insides s, ∀ v ∈ f inside, Clean v) :
    Clean (fillAll f s) := by
  induction h
  case nil => exact .nil
  case char plain _ hi =>
    rw [insides_cons plain] at hv
    rw [fillAll_cons plain]
    exact .char plain (hi hv)
  case hole inside _ plain _ hi =>
    rw [insides_of plain.closing] at hv
    have ⟨first, rest⟩ := List.forall_mem_cons.mp hv
    rw [fillAll_of plain.closing]
    refine .append ?_ (hi rest)
    cases hf : f inside
    case none => exact .single plain
    case some v => exact first v hf

theorem insides_fillAll (h : Clean s) (hv : ∀ inside ∈ insides s, ∀ v ∈ f inside, Clean v) :
    insides (fillAll f s) = (insides s).flatMap fun inside => ((f inside).map insides).getD [inside] := by
  induction h
  case nil => rfl
  case char plain _ hi =>
    rw [insides_cons plain] at hv
    rw [fillAll_cons plain, insides_cons plain, insides_cons plain, hi hv]
  case hole inside _ plain _ hi =>
    rw [insides_of plain.closing] at hv
    have ⟨first, rest⟩ := List.forall_mem_cons.mp hv
    rw [fillAll_of plain.closing, insides_of plain.closing, List.flatMap_cons, ← hi rest]
    cases hf : f inside
    case none => exact insides_of plain.closing _
    case some v => exact insides_append (first v hf) _

theorem fillAll_fillAll (h : Clean s) (hv : ∀ inside ∈ insides s, ∀ v ∈ f inside, Unfilled g v) :
    fillAll g (fillAll f s) = fillAll (fun inside => (f inside).or (g inside)) s := by
  induction h
  case nil => rfl
  case char plain _ hi =>
    rw [insides_cons plain] at hv
    rw [fillAll_cons plain, fillAll_cons plain, fillAll_cons plain, hi hv]
  case hole inside _ plain _ hi =>
    rw [insides_of plain.closing] at hv
    have ⟨first, rest⟩ := List.forall_mem_cons.mp hv
    rw [fillAll_of plain.closing, fillAll_of plain.closing]
    cases hf : f inside
    case none => exact (fillAll_of plain.closing _).trans (congrArg _ (hi rest))
    case some v =>
      have unfilled := first v hf
      exact (fillAll_append unfilled.clean _).trans (congrArg₂ _ unfilled.fillAll_eq (hi rest))

structure Without (sort : Text → Prop) (s : Text) : Prop where
  clean  : Clean s
  absent : ∀ inside ∈ insides s, ¬ sort inside

instance {sort : Text → Prop} [DecidablePred sort] : Decidable (Without sort s) :=
  decidable_of_iff (Clean s ∧ ∀ inside ∈ insides s, ¬ sort inside)
    ⟨fun ⟨clean, absent⟩ => ⟨clean, absent⟩, fun h => ⟨h.clean, h.absent⟩⟩

namespace Without

variable {sort : Text → Prop} {t : Text}

theorem of_free (h : '$' ∉ s) : Without sort s where
  clean  := .of_free h
  absent := by simp [insides_of_free h]

theorem append (hs : Without sort s) (ht : Without sort t) : Without sort (s ++ t) where
  clean  := hs.clean.append ht.clean
  absent := by
    rw [insides_append hs.clean]
    exact List.forall_mem_append.mpr ⟨hs.absent, ht.absent⟩

theorem flatten {texts : List Text} (h : ∀ t ∈ texts, Without sort t) : Without sort texts.flatten := by
  induction texts
  case nil => exact of_free List.not_mem_nil
  case cons t texts hi =>
    have ⟨first, rest⟩ := List.forall_mem_cons.mp h
    exact first.append (hi rest)

theorem join {sep : Text} {texts : List Text} (hs : '$' ∉ sep) (h : ∀ t ∈ texts, Without sort t) :
    Without sort (join sep texts) := by
  induction texts using join.induct
  case case1 => exact of_free List.not_mem_nil
  case case2 t => exact h t List.mem_cons_self
  case case3 t u texts hi =>
    obtain ⟨first, rest⟩ := List.forall_mem_cons.mp h
    exact (first.append (of_free hs)).append (hi rest)

theorem fillAll (h : Without sort s) (hv : ∀ inside, ∀ v ∈ f inside, Without sort v) :
    Without sort (fillAll f s) where
  clean  := h.clean.fillAll fun inside _ v hm => (hv inside v hm).clean
  absent := by
    intro inside hi
    rw [insides_fillAll h.clean fun inside _ v hm => (hv inside v hm).clean] at hi
    have ⟨outer, ho, hi⟩ := List.mem_flatMap.mp hi
    cases hf : f outer
    case none =>
      rw [hf] at hi
      exact List.mem_singleton.mp hi ▸ h.absent outer ho
    case some v =>
      rw [hf] at hi
      exact (hv outer v hf).absent inside hi

theorem unfilled (h : Without sort s) (hf : ∀ inside, ¬ sort inside → f inside = none) : Unfilled f s where
  clean := h.clean
  none  := fun inside hi => hf inside (h.absent inside hi)

theorem replaceAll (h : Without sort s) (hk : '$' ∉ key) (hv : '$' ∉ v) :
    Without sort (replaceAll (of key) v s) :=
  have ⟨clean, fewer⟩ := h.clean.replaceAll hk hv
  ⟨clean, fun inside hi => h.absent inside (fewer hi)⟩

theorem apply {σ : Substitution} (h : Without sort s) (hσ : ∀ entry ∈ σ.entries, '$' ∉ entry.1 ∧ '$' ∉ entry.2) :
    Without sort (σ.apply s) :=
  have ⟨clean, fewer⟩ := h.clean.apply hσ
  ⟨clean, fun inside hi => h.absent inside (fewer hi)⟩

end Without

theorem filter_insides_fillAll {sort : Text → Prop} [DecidablePred sort] (h : Clean s)
    (hv : ∀ inside ∈ insides s, ∀ v ∈ f inside, ¬ sort inside ∧ Without sort v) :
    (insides (fillAll f s)).filter sort = (insides s).filter sort := by
  rw [insides_fillAll h fun inside hi v hf => (hv inside hi v hf).2.clean]
  generalize insides s = all at hv
  induction all
  case nil => rfl
  case cons inside all hi =>
    have ⟨first, rest⟩ := List.forall_mem_cons.mp hv
    rw [List.flatMap_cons, List.filter_append, hi rest]
    cases hf : f inside
    case none => exact (List.filter_append [inside] all).symm
    case some v =>
      have ⟨other, without⟩ := first v hf
      have none : (insides v).filter sort = [] := List.filter_eq_nil_iff.mpr (by simpa using without.absent)
      rw [Option.map_some, Option.getD_some, none, List.filter_cons_of_neg (by simpa using other), List.nil_append]

namespace Reads

variable {α : Type} {m : Pattern α} {found : Text → Option α}

theorem replace_eq_fillAll (h : Reads m found) (hs : Clean s) (value : α → Text) :
    m.replace value s = fillAll (fun inside => (found inside).map value) s := by
  induction hs
  case nil => rfl
  case char plain _ hi => rw [Pattern.replace_of_miss (h.elsewhere plain), fillAll_cons plain, hi]
  case hole inside s plain _ hi =>
    rw [fillAll_of plain.closing, ← hi]
    cases hf : found inside
    case none => exact Pattern.replace_of_quiet (h.quiet_of plain hf)
    case some x =>
      have := h.hole s plain.closing
      rw [hf] at this
      exact Pattern.replace_of_hit (of_ne_nil inside) this

end Reads

theorem only_self {α : Type} (key : Text) (x : α) : only key x key = some x :=
  if_pos rfl

theorem only_of_ne {α : Type} (h : inside ≠ key) (x : α) : only key x inside = none :=
  if_neg h

theorem eq_of_mem_only {α : Type} {x y : α} (h : y ∈ only key x inside) : inside = key ∧ y = x := by
  by_cases hi : inside = key
  · subst hi
    exact ⟨rfl, (Option.some.inj ((only_self inside x).symm.trans h)).symm⟩
  · cases (only_of_ne hi x).symm.trans h

def Plain (f : Text → Option Text) : Prop := ∀ inside, ∀ v ∈ f inside, '$' ∉ v

namespace Plain

theorem only (h : '$' ∉ v) : Plain (only key v) := by
  intro inside w hw
  rw [(eq_of_mem_only hw).2]
  exact h

theorem or (hf : Plain f) (hg : Plain g) : Plain fun inside => (f inside).or (g inside) := by
  intro inside v hv
  rcases Option.or_eq_some_iff.mp hv with hv | ⟨_, hv⟩
  · exact hf inside v hv
  · exact hg inside v hv

theorem clean (hf : Plain f) (h : Clean s) : Clean (fillAll f s) :=
  h.fillAll fun inside _ v hv => .of_free (hf inside v hv)

theorem insides_subset (hf : Plain f) (h : Clean s) : insides (fillAll f s) ⊆ insides s := by
  rw [insides_fillAll h fun inside _ v hv => .of_free (hf inside v hv)]
  intro inside hi
  have ⟨inside', hm, hi⟩ := List.mem_flatMap.mp hi
  cases hv : f inside'
  case none =>
    rw [hv] at hi
    exact List.mem_singleton.mp hi ▸ hm
  case some v =>
    rw [hv, Option.map_some, insides_of_free (hf inside' v hv)] at hi
    cases hi

theorem fillAll_fillAll (hf : Plain f) (h : Clean s) :
    fillAll g (fillAll f s) = fillAll (fun inside => (f inside).or (g inside)) s :=
  Hole.fillAll_fillAll h fun inside _ v hv => .of_free (hf inside v hv)

end Plain

theorem replaceAll_eq_fillAll (h : Clean s) (hk : '}' ∉ key) :
    replaceAll (of key) v s = fillAll (only key v) s := by
  have : (fun inside => (only key () inside).map fun _ => v) = only key v := by
    funext inside
    simp only [only]
    split <;> rfl
  rw [replaceAll, (reads_exactly hk).replace_eq_fillAll h, this]

theorem replace_named_eq_fillAll (h : Clean s) (value : Text → Text) :
    (named kind).replace value s = fillAll (fun inside => (argument? kind inside).map value) s :=
  (reads_named kind).replace_eq_fillAll h value

theorem argument?_of (kind : Text) {argument : Text} (h : argument ≠ []) :
    argument? kind (kind ++ ':' :: argument) = some argument :=
  argument?_eq_some_iff.mpr ⟨rfl, h⟩

theorem foldl_replaceAll_eq_fillAll {value : Text → Text} {arguments : List Text} (h : Clean s)
    (ha : ∀ argument ∈ arguments, argument ≠ [] ∧ '}' ∉ kind ++ ':' :: argument)
    (hv : ∀ argument ∈ arguments, Unfilled (fun inside => (argument? kind inside).map value) (value argument)) :
    arguments.foldl (fun s argument => replaceAll (ofNamed kind argument) (value argument) s) s =
      fillAll (fun inside => ((argument? kind inside).filter (· ∈ arguments)).map value) s := by
  induction arguments generalizing s
  case nil => simpa using (fillAll_none h).symm
  case cons argument arguments hi =>
    have ⟨⟨hne, closing⟩, ha⟩ := List.forall_mem_cons.mp ha
    have ⟨first, hv⟩ := List.forall_mem_cons.mp hv
    have clean : Clean (fillAll (only (kind ++ ':' :: argument) (value argument)) s) :=
      h.fillAll fun _ _ v hm => (eq_of_mem_only hm).2 ▸ first.clean
    have unfilled : Unfilled (fun inside => ((argument? kind inside).filter (· ∈ arguments)).map value)
        (value argument) := by
      refine ⟨first.clean, fun inside hi => ?_⟩
      rw [Option.map_eq_none_iff.mp (first.none inside hi)]
      rfl
    rw [List.foldl_cons, ofNamed, replaceAll_eq_fillAll h closing, hi clean ha hv,
      fillAll_fillAll h fun _ _ v hm => (eq_of_mem_only hm).2 ▸ unfilled]
    refine fillAll_congr h fun inside _ => ?_
    by_cases he : inside = kind ++ ':' :: argument
    · subst he
      simp [only_self, argument?_of kind hne, Option.filter]
    · rw [only_of_ne he, Option.none_or]
      cases hk : argument? kind inside
      case none => rfl
      case some other =>
        have : other ≠ argument := by
          rintro rfl
          exact he (argument?_eq_some_iff.mp hk).1
        simp [Option.filter, this]

theorem foldl_arguments_eq_fillAll {value : Text → Text} (h : Clean s)
    (hv : ∀ argument ∈ arguments kind s,
      Unfilled (fun inside => (argument? kind inside).map value) (value argument)) :
    (arguments kind s).foldl (fun s argument => replaceAll (ofNamed kind argument) (value argument) s) s =
      fillAll (fun inside => (argument? kind inside).map value) s := by
  have found : ∀ argument ∈ arguments kind s, argument ≠ [] ∧ '}' ∉ kind ++ ':' :: argument := by
    intro argument ha
    have ⟨inside, hi, he⟩ := (mem_arguments h).mp ha
    have ⟨shape, hne⟩ := argument?_eq_some_iff.mp he
    exact ⟨hne, shape ▸ (isInside_of_mem h hi).closing⟩
  rw [foldl_replaceAll_eq_fillAll h found hv]
  refine fillAll_congr h fun inside hi => ?_
  cases ha : argument? kind inside
  case none => rfl
  case some argument =>
    have : argument ∈ arguments kind s := (mem_arguments h).mpr ⟨inside, hi, ha⟩
    simp [Option.filter, this]

end WikiPages.Hole

namespace WikiPages.Substitution

open Text Hole

variable {s : Text} {σ : Substitution}

-- Overrides, applied one after the other, might as well be applied at once. `P` is what is known of the template: it
-- has to outlive each pass, and with it each pass has to fill holes and nothing else.
theorem apply_eq_fillAll_of {P : Text → Prop} (clean : ∀ s, P s → Clean s)
    (kept : ∀ f s, Plain f → P s → P (fillAll f s))
    (once : ∀ entry ∈ σ.entries, ∀ s, P s → replaceAll (of entry.1) entry.2 s = fillAll (only entry.1 entry.2) s)
    (free : ∀ entry ∈ σ.entries, '$' ∉ entry.2) (h : P s) : σ.apply s = fillAll σ.lookup s := by
  obtain ⟨entries⟩ := σ
  simp only [apply] at once free ⊢
  induction entries generalizing s
  case nil => exact (fillAll_none (clean s h)).symm
  case cons entry entries hi =>
    obtain ⟨key, value⟩ := entry
    obtain ⟨first, once⟩ := List.forall_mem_cons.mp once
    obtain ⟨plain, free⟩ := List.forall_mem_cons.mp free
    have plain : Plain (only key value) := .only plain
    rw [List.foldl_cons, first s h, hi (kept _ s plain h) once free, plain.fillAll_fillAll (clean s h)]
    refine fillAll_congr (clean s h) fun inside _ => ?_
    by_cases he : inside = key
    · subst he
      simp [only_self, lookup]
    · simp [only_of_ne he, lookup, List.lookup_cons, beq_false_of_ne he]

theorem apply_eq_fillAll (h : Clean s) (hσ : ∀ entry ∈ σ.entries, '}' ∉ entry.1 ∧ '$' ∉ entry.2) :
    σ.apply s = fillAll σ.lookup s :=
  apply_eq_fillAll_of (fun _ hs => hs) (fun _ _ plain hs => plain.clean hs)
    (fun entry he _ hs => replaceAll_eq_fillAll hs (hσ entry he).1) (fun entry he => (hσ entry he).2) h

end WikiPages.Substitution
