import Mathlib
import WikiPages.Proofs.Template.Filling
import WikiPages.Proofs.Template.Showing

namespace WikiPages.Hole

open Text

variable {a b inside kind name rest s v : Text}

-- Between any two texts the value makes no opening.
def Inert (v : Text) : Prop := ¬ opening <:+: '$' :: v ++ ['{']

instance : DecidablePred Inert := fun v =>
  inferInstanceAs (Decidable (¬ opening <:+: '$' :: v ++ ['{']))

def Nests (name s : Text) : Prop := Shows (opening ++ name <:+ ·) s

instance : Decidable (Nests name s) :=
  inferInstanceAs (Decidable (Shows (opening ++ name <:+ ·) s))

theorem not_head_of_inert (h : Inert v) : (v ++ b).head? ≠ some '{' := by
  cases v
  case nil => exact absurd h (by decide)
  case cons c v =>
    intro hc
    cases Option.some.inj hc
    exact h ⟨[], v ++ ['{'], rfl⟩

theorem opening_prefix_append (hs : s ≠ []) (h : opening <+: s ++ b) :
    opening <+: s ∨ s = ['$'] ∧ b.head? = some '{' := by
  match s, hs with
  | [c], _ =>
    obtain ⟨hc, hb⟩ := List.cons_prefix_cons.mp h
    cases hc
    cases b
    case nil => exact absurd hb.length_le (by decide)
    case cons d b =>
      cases (List.cons_prefix_cons.mp hb).1
      exact .inr ⟨rfl, rfl⟩
  | c :: d :: s, _ =>
    exact .inl (List.prefix_of_prefix_length_le h (List.prefix_append _ _) (by simp [opening]))

theorem read?_eq_none_of_absent (h : ¬ opening <+: s) : read? s = none := by
  rw [read?, isPrefixOf?_eq_none_iff.mpr h]
  rfl

theorem read?_append (hs : s ≠ []) (hc : ∀ rest, s = opening ++ rest → '}' ∈ rest)
    (hb : b.head? ≠ some '{') :
    read? (s ++ b) = (read? s).map (Prod.map id (· ++ b)) := by
  by_cases hp : opening <+: s
  · obtain ⟨rest, rfl⟩ := hp
    obtain ⟨inside, behind, hr, hi⟩ := List.eq_append_cons_of_mem (hc rest rfl)
    have : opening ++ rest = of inside ++ behind := by simp [of, closing, hr]
    rw [this, List.append_assoc, read?_of hi, read?_of hi]
    rfl
  · have : ¬ opening <+: s ++ b := fun h => (opening_prefix_append hs h).elim hp fun h => hb h.2
    rw [read?_eq_none_of_absent hp, read?_eq_none_of_absent this]
    rfl

theorem named_eq_none (h : read? s = none) : named kind s = none := by
  rw [named, h]

theorem arguments_of_absent (h : ¬ opening ++ (kind ++ [':']) <:+: s) : arguments kind s = [] := by
  have quiet : Pattern.Quiet (named kind) s [] := by
    intro t _ ht
    simp only [List.append_nil, named]
    split
    case h_1 => rfl
    case h_2 inside rest hr =>
      have begins : ¬ kind ++ [':'] <+: inside := by
        intro hk
        obtain ⟨he, _⟩ := read?_eq_some_iff.mp hr
        have front : opening ++ (kind ++ [':']) <+: t := by
          simp only [he, of, List.append_assoc, List.prefix_append_right_inj]
          exact hk.trans (List.prefix_append ..)
        exact h (front.isInfix.trans ht.isInfix)
      simp [isPrefixOf?_eq_none_iff.mpr begins]
  have none : (named kind).finds (s ++ []) = [] := Pattern.finds_of_quiet quiet
  rw [List.append_nil] at none
  simp [arguments, none]

theorem named_bounded : (named kind).Bounded := by
  intro s x width h
  rw [named] at h
  split at h
  case h_1 => cases h
  case h_2 inside rest hr =>
    split at h
    case h_1 => cases h
    case h_2 => cases h
    case h_3 =>
      cases h
      rw [(read?_eq_some_iff.mp hr).1, List.length_append]
      exact Nat.le_add_right _ _

theorem named_append (hs : s ≠ []) (hc : ∀ rest, s = opening ++ rest → '}' ∈ rest)
    (hb : b.head? ≠ some '{') :
    named kind (s ++ b) = named kind s := by
  rw [named, named, read?_append hs hc hb]
  cases read? s <;> rfl

def Closed (a : Text) : Prop := ∀ rest, opening ++ rest <:+ a → '}' ∈ rest

theorem finds_named_append (ha : Closed a) (hb : b.head? ≠ some '{') :
    (named kind).finds (a ++ b) = (named kind).finds a ++ (named kind).finds b := by
  have : Pattern.Apart (named kind) a b :=
    fun s hs hsa => named_append hs (fun rest hr => ha rest (hr ▸ hsa)) hb
  rw [Pattern.finds, Pattern.cut_append named_bounded this, List.filterMap_append]
  rfl

theorem finds_named_of_inert (hv : Inert v) : (named kind).finds (v ++ b) = (named kind).finds b := by
  apply Pattern.finds_of_quiet
  intro s hs hsv
  apply named_eq_none
  apply read?_eq_none_of_absent
  intro hp
  have ⟨front, hf⟩ := hsv
  refine hv ?_
  rcases opening_prefix_append hs hp with hp | ⟨rfl, _⟩
  · exact hp.isInfix.trans ⟨'$' :: front, ['{'], by simp [← hf]⟩
  · exact ⟨'$' :: front, [], by simp [← hf, opening]⟩

theorem finds_named_of_hole (hd : '$' ∉ name) (hn : '}' ∉ name) (hk : ¬ kind ++ [':'] <+: name) :
    (named kind).finds (of name ++ b) = (named kind).finds b := by
  apply Pattern.finds_of_quiet
  intro s hs hsv
  by_cases he : s = of name
  · rw [he, named, read?_of hn]
    simp only [isPrefixOf?_eq_none_iff.mpr hk]
  · have hsf : s <:+ '{' :: name ++ closing := by
      rcases List.suffix_cons_iff.mp hsv with h | h
      · exact absurd h he
      · exact h
    have hf : '$' ∉ '{' :: name ++ closing := by simp [closing, hd]
    exact named_of_free hf s hs hsf

theorem closed_of_not_nests (hn : '}' ∉ name) (h : ¬ Nests name (a ++ of name ++ b)) : Closed a := by
  intro rest ⟨front, hf⟩
  by_contra hr
  refine h ⟨rest ++ opening ++ name, ⟨rest, by simp⟩, ?_, front, b, ?_⟩
  · simp [opening, hr, hn]
  · simp [of, ← hf]

theorem Nests.mono (h : Nests name b) : Nests name (a ++ b) := by
  have ⟨inside, hp, hi, hs⟩ := h
  exact ⟨inside, hp, hi, hs.trans (List.suffix_append a b).isInfix⟩

-- The induction is on the length of the text behind the first hole of the name.
theorem finds_fill (hd : '$' ∉ name) (hn : '}' ∉ name) (hk : ¬ kind ++ [':'] <+: name) (hv : Inert v)
    {s : Text} (h : ¬ Nests name s) : (named kind).finds (replaceAll (of name) v s) = (named kind).finds s := by
  cases hs : splitOnce? (of name) s
  case none => rw [replaceAll_of_absent (splitOnce?_eq_none_iff.mp hs)]
  case some parts =>
    obtain ⟨a, b⟩ := parts
    have ⟨he, hf⟩ := (splitOnce?_eq_some_iff (of_ne_nil name)).mp hs
    subst he
    have ha : Closed a := closed_of_not_nests hn h
    have hb := finds_fill hd hn hk hv (s := b) fun hb => h hb.mono
    rw [replaceAll_of_first (of_ne_nil name) hf, List.append_assoc, List.append_assoc,
      finds_named_append ha (not_head_of_inert hv), finds_named_of_inert hv, hb,
      finds_named_append ha (by simp [of, opening]), finds_named_of_hole hd hn hk]
termination_by s.length
decreasing_by
  subst he
  simp [of, opening]
  omega

theorem arguments_fill (hd : '$' ∉ name) (hn : '}' ∉ name) (hk : ¬ kind ++ [':'] <+: name) (hv : Inert v)
    (h : ¬ Nests name s) : arguments kind (replaceAll (of name) v s) = arguments kind s := by
  rw [arguments, arguments, finds_fill hd hn hk hv h]

end WikiPages.Hole
