import WikiPages.Proofs.Success
import WikiPages.Proofs.Template.AtOnce

namespace WikiPages.Text

variable {a b part s old new : Text} {c : Char} {m n : Nat}

def occurrences (part : Text) : Text → Nat
  | []     => 0
  | c :: s => (if part <+: c :: s then 1 else 0) + occurrences part s

section Occurrences

theorem occurrences_append_le (part a b : Text) :
    occurrences part a + occurrences part b ≤ occurrences part (a ++ b) := by
  induction a
  case nil => simp [occurrences]
  case cons c a hi =>
    have here : (if part <+: c :: a then 1 else 0) ≤ if part <+: c :: (a ++ b) then 1 else 0 := by
      split
      case isTrue h =>
        have : part <+: c :: (a ++ b) := h.trans (List.prefix_append (c :: a) b)
        rw [if_pos this]
      case isFalse => exact Nat.zero_le _
    rw [List.cons_append, occurrences, occurrences]
    omega

theorem apart_of_occurrences (h : occurrences part (a ++ b) = occurrences part a + occurrences part b) :
    (Pattern.exactly part).Apart a b := by
  induction a
  case nil => exact fun s hne hs => absurd (List.suffix_nil.mp hs) hne
  case cons c a hi =>
    have less := occurrences_append_le part a b
    rw [List.cons_append, occurrences, occurrences] at h
    by_cases hp : part <+: c :: a
    case pos =>
      have hp' : part <+: c :: (a ++ b) := hp.trans (List.prefix_append (c :: a) b)
      rw [if_pos hp, if_pos hp'] at h
      intro s hne hs
      rcases List.suffix_cons_iff.mp hs with rfl | hs
      · exact (Pattern.exactly_of_hit hp').trans (Pattern.exactly_of_hit hp).symm
      · exact hi (by omega) s hne hs
    case neg =>
      have hp' : ¬ part <+: c :: (a ++ b) := by
        intro hp'
        rw [if_neg hp, if_pos hp'] at h
        omega
      rw [if_neg hp, if_neg hp'] at h
      intro s hne hs
      rcases List.suffix_cons_iff.mp hs with rfl | hs
      · exact (Pattern.exactly_of_miss hp').trans (Pattern.exactly_of_miss hp).symm
      · exact hi (by omega) s hne hs

theorem not_infix_of_occurrences (hne : part ≠ []) (h : occurrences part s = 0) : ¬ part <:+: s := by
  induction s
  case nil => exact fun hi => hne (List.infix_nil.mp hi)
  case cons c s hi =>
    rw [occurrences, Nat.add_eq_zero_iff] at h
    rw [List.infix_cons_iff]
    exact fun hp => hp.elim (fun hp => absurd h.1 (by simp [hp])) (hi h.2)

end Occurrences

section Swapping

-- A text in which some occurrences of one text have given way to another, and how many they are.
inductive Swaps (old new : Text) : Nat → Text → Text → Prop
  | nil : Swaps old new 0 [] []
  | keep {n : Nat} {s t : Text} (c : Char) (rest : Swaps old new n s t) : Swaps old new n (c :: s) (c :: t)
  | swap {n : Nat} {s t : Text} (rest : Swaps old new n s t) : Swaps old new (n + 1) (old ++ s) (new ++ t)

def distance : Text → Text → Nat
  | c :: s, d :: t => (if c = d then 0 else 1) + distance s t
  | _, _           => 0

theorem distance_append {a' b' : Text} (h : a.length = a'.length) :
    distance (a ++ b) (a' ++ b') = distance a a' + distance b b' := by
  induction a generalizing a'
  case nil =>
    cases List.length_eq_zero_iff.mp h.symm
    exact (Nat.zero_add _).symm
  case cons c a hi =>
    cases a'
    case nil => cases h
    case cons d a' =>
      rw [List.cons_append, List.cons_append, distance, distance, hi (Nat.succ.inj h), Nat.add_assoc]

theorem eq_of_distance (h : a.length = b.length) (hd : distance a b = 0) : a = b := by
  induction a generalizing b
  case nil => exact (List.length_eq_zero_iff.mp h.symm).symm
  case cons c a hi =>
    cases b
    case nil => cases h
    case cons d b =>
      rw [distance, Nat.add_eq_zero_iff] at hd
      have same : c = d := by simpa using hd.1
      rw [same, hi (Nat.succ.inj h) hd.2]

namespace Swaps

variable {t : Text}

theorem append (h : Swaps old new n s t) (front : Text) : Swaps old new n (front ++ s) (front ++ t) := by
  induction front
  case nil => exact h
  case cons c front hi => exact .keep c hi

theorem length (h : Swaps old new n s t) : t.length + n * old.length = s.length + n * new.length := by
  induction h
  case nil => simp
  case keep hi =>
    simp only [List.length_cons]
    omega
  case swap hi =>
    simp only [List.length_append, Nat.add_mul]
    omega

theorem distance (h : Swaps old new n s t) (hl : old.length = new.length) :
    Text.distance s t = n * Text.distance old new := by
  induction h
  case nil => simp [Text.distance]
  case keep hi => simpa [Text.distance] using hi
  case swap hi =>
    rw [distance_append hl, hi, Nat.add_mul]
    omega

theorem eq_self (h : Swaps old old n s t) : s = t := by
  induction h
  case nil => rfl
  case keep hi => rw [hi]
  case swap hi => rw [hi]

theorem unique (h : Swaps old new m s t) (h' : Swaps old new n s t) (hne : new ≠ old) : m = n := by
  by_cases hl : old.length = new.length
  case pos =>
    have apart : Text.distance old new ≠ 0 := fun hd => hne (eq_of_distance hl hd).symm
    exact Nat.eq_of_mul_eq_mul_right (Nat.pos_of_ne_zero apart) ((h.distance hl).symm.trans (h'.distance hl))
  case neg =>
    have total := h.length
    have total' := h'.length
    zify at total total'
    have product : ((m : ℤ) - n) * (old.length - new.length) = 0 := by linear_combination total - total'
    rcases mul_eq_zero.mp product with hz | hz
    · omega
    · exact absurd (by omega) hl

end Swaps

end Swapping
end WikiPages.Text

namespace WikiPages.Hole

open Text

variable {a b s key other value : Text} {c : Char} {entries : List (Text × Text)}

instance : Decidable (IsInside key) :=
  decidable_of_iff ('$' ∉ key ∧ '{' ∉ key ∧ '}' ∉ key)
    ⟨fun ⟨sign, opening, closing⟩ => ⟨sign, opening, closing⟩, fun h => ⟨h.sign, h.opening, h.closing⟩⟩

section Holes

theorem occurrences_of_free (h : '$' ∉ a) (b : Text) : occurrences (of key) (a ++ b) = occurrences (of key) b := by
  induction a
  case nil => rfl
  case cons c a hi =>
    have ⟨hc, ha⟩ := not_or.mp fun hm => h (List.mem_cons.mpr hm)
    have miss : ¬ of key <+: c :: (a ++ b) := fun hp => hc (List.cons_prefix_cons.mp hp).1
    rw [List.cons_append, occurrences, if_neg miss, hi ha, Nat.zero_add]

theorem occurrences_of_self (h : IsInside key) (s : Text) :
    occurrences (of key) (of key ++ s) = occurrences (of key) s + 1 := by
  have hit : of key <+: '$' :: ('{' :: key ++ ['}'] ++ s) := List.prefix_append (of key) s
  change occurrences (of key) ('$' :: ('{' :: key ++ ['}'] ++ s)) = _
  rw [occurrences, if_pos hit, occurrences_of_free (not_mem_rest h.sign), Nat.add_comm]

theorem occurrences_of_other (h : IsInside key) (ho : IsInside other) (hne : other ≠ key) (s : Text) :
    occurrences (of key) (of other ++ s) = occurrences (of key) s := by
  have miss : ¬ of key <+: '$' :: ('{' :: other ++ ['}'] ++ s) :=
    fun hp => hne ((of_prefix_iff (s := s) h.closing ho.closing).mp hp).symm
  change occurrences (of key) ('$' :: ('{' :: other ++ ['}'] ++ s)) = _
  rw [occurrences, if_neg miss, occurrences_of_free (not_mem_rest ho.sign), Nat.zero_add]

end Holes

def keyed : List (Text × Text) → Pattern Text
  | [], _                   => none
  | (key, value) :: rest, s => if of key <+: s then some (value, (of key).length) else keyed rest s

-- All keys filled in one pass from left to right. What is put in is not looked at again.
def fillOnce (entries : List (Text × Text)) (s : Text) : Text := (keyed entries).replace id s

-- How one pass goes through a text: holes of some keys, and characters at which none of them begins.
inductive Passed (keys : List Text) : Text → Prop
  | nil : Passed keys []
  | hole {key s : Text} (known : key ∈ keys) (rest : Passed keys s) : Passed keys (of key ++ s)
  | char {c : Char} {s : Text} (none : ∀ key ∈ keys, ¬ of key <+: c :: s) (rest : Passed keys s) :
    Passed keys (c :: s)

theorem passed (keys : List Text) (s : Text) : Passed keys s := by
  induction hn : s.length using Nat.strong_induction_on generalizing s
  case h n hi =>
    by_cases h : ∃ key ∈ keys, of key <+: s
    case pos =>
      obtain ⟨key, known, rest, rfl⟩ := h
      refine .hole known (hi rest.length ?_ rest rfl)
      rw [← hn, List.length_append]
      exact Nat.lt_add_of_pos_left (List.length_pos_iff.mpr (of_ne_nil key))
    case neg =>
      cases s
      case nil => exact .nil
      case cons c s => exact .char (fun key hk hp => h ⟨key, hk, hp⟩) (hi s.length (by simp [← hn]) s rfl)

section Once

theorem keyed_of_miss (h : ∀ entry ∈ entries, ¬ of entry.1 <+: s) : keyed entries s = none := by
  induction entries
  case nil => rfl
  case cons entry entries hi =>
    have ⟨first, rest⟩ := List.forall_mem_cons.mp h
    rw [keyed, if_neg first]
    exact hi rest

theorem fillOnce_cons (h : ∀ entry ∈ entries, ¬ of entry.1 <+: c :: s) :
    fillOnce entries (c :: s) = c :: fillOnce entries s :=
  Pattern.replace_of_miss (keyed_of_miss h)

theorem fillOnce_nil (s : Text) : fillOnce [] s = s := by
  induction s
  case nil => rfl
  case cons c s hi => rw [fillOnce_cons (List.forall_mem_nil _), hi]

theorem fillOnce_of_free (h : '$' ∉ a) (b : Text) : fillOnce entries (a ++ b) = a ++ fillOnce entries b := by
  induction a
  case nil => rfl
  case cons c a hi =>
    have ⟨hc, ha⟩ := not_or.mp fun hm => h (List.mem_cons.mpr hm)
    rw [List.cons_append, fillOnce_cons fun _ _ hp => hc (List.cons_prefix_cons.mp hp).1, hi ha, List.cons_append]

variable (plain : ∀ entry ∈ entries, IsInside entry.1)

include plain

theorem keyed_of (h : IsInside key) (s : Text) :
    keyed entries (of key ++ s) = (entries.lookup key).map (·, (of key).length) := by
  induction entries
  case nil => rfl
  case cons entry entries hi =>
    obtain ⟨other, value⟩ := entry
    have ⟨first, rest⟩ := List.forall_mem_cons.mp plain
    have begins : of other <+: of key ++ s ↔ other = key := of_prefix_iff first.closing h.closing
    rw [keyed, List.lookup_cons]
    by_cases he : other = key
    case pos =>
      rw [if_pos (begins.mpr he), he, beq_self_eq_true]
      rfl
    case neg =>
      rw [if_neg (mt begins.mp he), beq_false_of_ne (Ne.symm he)]
      exact hi rest

theorem fillOnce_of (h : IsInside key) (s : Text) :
    fillOnce entries (of key ++ s) = (entries.lookup key).getD (of key) ++ fillOnce entries s := by
  have found := keyed_of plain h s
  cases hl : entries.lookup key
  case some value =>
    rw [hl] at found
    exact Pattern.replace_of_hit (of_ne_nil key) found
  case none =>
    have miss : keyed entries ('$' :: ('{' :: key ++ ['}'] ++ s)) = none := by
      rw [hl] at found
      exact found
    have free : fillOnce entries ('{' :: key ++ ['}'] ++ s) = '{' :: key ++ ['}'] ++ fillOnce entries s :=
      fillOnce_of_free (not_mem_rest h.sign) s
    change fillOnce entries ('$' :: ('{' :: key ++ ['}'] ++ s)) = _
    rw [fillOnce, Pattern.replace_of_miss miss]
    exact congrArg _ free

end Once

section Step

theorem not_prefix_of_passed (none : ∀ other ∈ (entries ++ [(key, value)]).map Prod.fst, ¬ of other <+: s) :
    ¬ of key <+: s ∧ (∀ entry ∈ entries, ¬ of entry.1 <+: s) ∧
      ∀ entry ∈ entries ++ [(key, value)], ¬ of entry.1 <+: s := by
  have all : ∀ entry ∈ entries ++ [(key, value)], ¬ of entry.1 <+: s :=
    fun entry he => none entry.1 (List.mem_map_of_mem he)
  exact ⟨all (key, value) (by simp), fun entry he => all entry (List.mem_append_left _ he), all⟩

variable (own : IsInside key)

include own

theorem swaps_replaceAll (value s : Text) :
    Swaps (of key) value (occurrences (of key) s) s (replaceAll (of key) value s) := by
  induction passed [key] s
  case nil => exact .nil
  case hole known _ hi =>
    cases List.mem_singleton.mp known
    rw [occurrences_of_self own, replaceAll_append (of_ne_nil key)]
    exact .swap hi
  case char none _ hi =>
    have miss := none key List.mem_cons_self
    rw [occurrences, if_neg miss, Nat.zero_add, replaceAll_cons value (isPrefixOf?_eq_none_iff.mpr miss)]
    exact .keep _ hi

variable (plain : ∀ entry ∈ entries, IsInside entry.1) (new : entries.lookup key = none)

include plain new

theorem fillOnce_concat_of (known : other ∈ (entries ++ [(key, value)]).map Prod.fst) (s : Text) :
    (other ≠ key ∧ IsInside other ∧ ∃ w, fillOnce entries (of other ++ s) = w ++ fillOnce entries s ∧
        fillOnce (entries ++ [(key, value)]) (of other ++ s) = w ++ fillOnce (entries ++ [(key, value)]) s) ∨
      (other = key ∧ fillOnce entries (of other ++ s) = of key ++ fillOnce entries s ∧
        fillOnce (entries ++ [(key, value)]) (of other ++ s) = value ++ fillOnce (entries ++ [(key, value)]) s) := by
  have all : ∀ entry ∈ entries ++ [(key, value)], IsInside entry.1 :=
    List.forall_mem_append.mpr ⟨plain, List.forall_mem_singleton.mpr own⟩
  obtain ⟨entry, hm, rfl⟩ := List.mem_map.mp known
  have inside := all entry hm
  rw [fillOnce_of plain inside, fillOnce_of all inside, List.lookup_append]
  cases hl : entries.lookup entry.1
  case some w =>
    refine .inl ⟨fun he => ?_, inside, w, rfl, rfl⟩
    rw [he, new] at hl
    cases hl
  case none =>
    have here : entry.1 = key := by
      rcases List.mem_append.mp hm with hm | hm
      · exact absurd rfl (bne_iff_ne.mp (List.lookup_eq_none_iff.mp hl entry hm))
      · rw [List.mem_singleton.mp hm]
    exact .inr ⟨here, by rw [here]; rfl, by rw [here, List.lookup_cons_self]; rfl⟩

theorem swaps_fillOnce (value s : Text) :
    Swaps (of key) value (occurrences (of key) s) (fillOnce entries s) (fillOnce (entries ++ [(key, value)]) s) := by
  induction passed ((entries ++ [(key, value)]).map Prod.fst) s
  case nil => exact .nil
  case hole s known _ hi =>
    rcases fillOnce_concat_of own plain new known s with ⟨hne, inside, w, before, after⟩ | ⟨he, before, after⟩
    · rw [before, after, occurrences_of_other own inside hne]
      exact hi.append w
    · rw [before, after, he, occurrences_of_self own]
      exact .swap hi
  case char none _ hi =>
    obtain ⟨miss, before, after⟩ := not_prefix_of_passed none
    rw [occurrences, if_neg miss, Nat.zero_add, fillOnce_cons before, fillOnce_cons after]
    exact .keep _ hi

theorem occurrences_fillOnce (value s : Text) :
    occurrences (of key) s ≤ occurrences (of key) (fillOnce entries s) ∧
      (occurrences (of key) (fillOnce entries s) = occurrences (of key) s →
        replaceAll (of key) value (fillOnce entries s) = fillOnce (entries ++ [(key, value)]) s) := by
  induction passed ((entries ++ [(key, value)]).map Prod.fst) s
  case nil => exact ⟨Nat.le_refl 0, fun _ => rfl⟩
  case hole s known _ hi =>
    obtain ⟨most, same⟩ := hi
    rcases fillOnce_concat_of own plain new known s with ⟨hne, inside, w, before, after⟩ | ⟨he, before, after⟩
    · have parts := occurrences_append_le (of key) w (fillOnce entries s)
      rw [before, after, occurrences_of_other own inside hne]
      refine ⟨by omega, fun h => ?_⟩
      -- nothing is left for the value, nor for its border
      have absent := not_infix_of_occurrences (s := w) (of_ne_nil key) (by omega)
      have apart : (Pattern.exactly (of key)).Apart w (fillOnce entries s) := apart_of_occurrences (by omega)
      have rest := same (by omega)
      rw [replaceAll, Pattern.replace_append Pattern.exactly_bounded apart]
      exact congrArg₂ (· ++ ·) (replaceAll_of_absent absent) rest
    · rw [before, after, he, occurrences_of_self own, occurrences_of_self own, replaceAll_append (of_ne_nil key)]
      exact ⟨Nat.succ_le_succ most, fun h => congrArg (value ++ ·) (same (Nat.succ.inj h))⟩
  case char c s none _ hi =>
    obtain ⟨most, same⟩ := hi
    obtain ⟨miss, before, after⟩ := not_prefix_of_passed none
    rw [fillOnce_cons before, fillOnce_cons after, occurrences, occurrences, if_neg miss]
    refine ⟨by omega, fun h => ?_⟩
    have none : ¬ of key <+: c :: fillOnce entries s := by
      intro hp
      rw [if_pos hp] at h
      omega
    rw [if_neg none] at h
    rw [replaceAll_cons value (isPrefixOf?_eq_none_iff.mpr none), same (by omega)]

theorem replaceAll_fillOnce_iff (value s : Text) :
    replaceAll (of key) value (fillOnce entries s) = fillOnce (entries ++ [(key, value)]) s ↔
      value = of key ∨ occurrences (of key) (fillOnce entries s) = occurrences (of key) s := by
  have all := swaps_replaceAll own value (fillOnce entries s)
  have some := swaps_fillOnce own plain new value s
  constructor
  case mp =>
    intro he
    rw [he] at all
    by_cases hv : value = of key
    · exact .inl hv
    · exact .inr (all.unique some hv)
  case mpr =>
    rintro (rfl | h)
    · exact all.eq_self.symm.trans some.eq_self
    · exact (occurrences_fillOnce own plain new value s).2 h

end Step
end WikiPages.Hole

namespace WikiPages.Substitution

open Text Hole

variable {s key : Text} {σ : Substitution} {n : ℕ}

def take (n : ℕ) (σ : Substitution) : Substitution := ⟨σ.entries.take n⟩

def once (σ : Substitution) (s : Text) : Text := fillOnce σ.entries s

-- When the turn of a key comes, its holes are those of the original text, or its value changes nothing.
def Undisturbed (σ : Substitution) (s : Text) : Prop :=
  ∀ n, ∀ h : n < σ.entries.length,
    σ.entries[n].2 = of σ.entries[n].1 ∨
      occurrences (of σ.entries[n].1) ((σ.take n).apply s) = occurrences (of σ.entries[n].1) s

instance : Decidable (σ.Undisturbed s) :=
  inferInstanceAs (Decidable (∀ n, ∀ h : n < σ.entries.length,
    σ.entries[n].2 = of σ.entries[n].1 ∨
      occurrences (of σ.entries[n].1) ((σ.take n).apply s) = occurrences (of σ.entries[n].1) s))

theorem take_length (σ : Substitution) : σ.take σ.entries.length = σ := by
  rw [take, List.take_length]

theorem apply_take_succ (h : n < σ.entries.length) (s : Text) :
    (σ.take (n + 1)).apply s = replaceAll (of σ.entries[n].1) σ.entries[n].2 ((σ.take n).apply s) := by
  rw [apply, take, List.take_succ_eq_append_getElem h, List.foldl_append]
  rfl

section Ordinary

theorem occurrences_of_clean (h : Clean s) (hk : IsInside key) :
    occurrences (of key) s = ((insides s).filter (· = key)).length := by
  induction h
  case nil => rfl
  case char plain _ hi =>
    have miss (rest : Text) : ¬ of key <+: _ :: rest := fun hp => plain (List.cons_prefix_cons.mp hp).1.symm
    rw [occurrences, if_neg (miss _), hi, insides_cons plain, Nat.zero_add]
  case hole inside _ plain _ hi =>
    rw [insides_of plain.closing]
    by_cases he : inside = key
    · rw [he, occurrences_of_self hk, hi, List.filter_cons_of_pos (by simp), List.length_cons]
    · rw [occurrences_of_other hk plain he, hi, List.filter_cons_of_neg (by simpa using he)]

theorem occurrences_apply (h : Clean s) (hk : IsInside key)
    (hσ : ∀ entry ∈ σ.entries, IsInside entry.1 ∧ '$' ∉ entry.2) (new : σ.lookup key = none) :
    occurrences (of key) (σ.apply s) = occurrences (of key) s := by
  have filled := apply_eq_fillAll h fun entry he => ⟨(hσ entry he).1.closing, (hσ entry he).2⟩
  have clean := (h.apply fun entry he => ⟨(hσ entry he).1.sign, (hσ entry he).2⟩).1
  rw [occurrences_of_clean clean hk, occurrences_of_clean h hk, filled, filter_insides_fillAll h]
  intro inside _ value hv
  refine ⟨?_, .of_free (hσ _ (mem_of_lookup hv)).2⟩
  rintro rfl
  rw [new] at hv
  cases hv

end Ordinary

section Distinct

variable (distinct : (σ.entries.map Prod.fst).Nodup)

include distinct

theorem lookup_take (h : n < σ.entries.length) : (σ.take n).lookup σ.entries[n].1 = none := by
  refine List.lookup_eq_none_iff.mpr fun entry he => bne_iff_ne.mpr fun same => ?_
  obtain ⟨i, hi, rfl⟩ := List.mem_take_iff_getElem.mp he
  have ⟨less, within⟩ := Nat.lt_min.mp hi
  have hn : n < (σ.entries.map Prod.fst).length := by simpa using h
  have hi : i < (σ.entries.map Prod.fst).length := by simpa using within
  have keys : (σ.entries.map Prod.fst)[n] = (σ.entries.map Prod.fst)[i] := by simpa using same
  exact Nat.ne_of_gt less (distinct.getElem_inj_iff.mp keys)

variable (plain : ∀ entry ∈ σ.entries, IsInside entry.1)

include plain

theorem apply_take_succ_iff (h : n < σ.entries.length) (hn : (σ.take n).apply s = (σ.take n).once s) :
    (σ.take (n + 1)).apply s = (σ.take (n + 1)).once s ↔ σ.entries[n].2 = of σ.entries[n].1 ∨
      occurrences (of σ.entries[n].1) ((σ.take n).apply s) = occurrences (of σ.entries[n].1) s := by
  have own := plain _ (List.getElem_mem h)
  have before : ∀ entry ∈ (σ.take n).entries, IsInside entry.1 :=
    fun entry he => plain entry (List.mem_of_mem_take he)
  have := replaceAll_fillOnce_iff own before (lookup_take distinct h) σ.entries[n].2 s
  rw [apply_take_succ h, hn]
  rw [once, once, take, take, List.take_succ_eq_append_getElem h]
  exact this

-- Keys are filled one after the other, in a text that has values in it by then. However far one goes through the
-- keys, this comes to one pass over the original text, exactly if no value that is put in makes, with what stands
-- around it, a hole of a key whose turn is still to come, other than one that is filled with itself. Values without
-- a `$` make none in a text in which every `$` begins a hole.
theorem apply_once_iff (s : Text) :
    ((∀ n ≤ σ.entries.length, (σ.take n).apply s = (σ.take n).once s) ↔ σ.Undisturbed s) ∧
      (σ.Undisturbed s → σ.apply s = σ.once s) ∧
      (Clean s → (∀ entry ∈ σ.entries, '$' ∉ entry.2) → σ.Undisturbed s) := by
  have run (h : σ.Undisturbed s) (n : ℕ) : n ≤ σ.entries.length → (σ.take n).apply s = (σ.take n).once s := by
    induction n
    case zero => exact fun _ => (fillOnce_nil s).symm
    case succ n hi =>
      intro hn
      exact (apply_take_succ_iff distinct plain hn (hi (Nat.le_of_lt hn))).mpr (h n hn)
  refine ⟨⟨fun h n hn => ?_, run⟩, fun h => ?_, fun clean values n hn => .inr ?_⟩
  · exact (apply_take_succ_iff distinct plain hn (h n (Nat.le_of_lt hn))).mp (h (n + 1) hn)
  · exact take_length σ ▸ run h _ (Nat.le_refl _)
  · refine occurrences_apply clean (plain _ (List.getElem_mem hn)) (fun entry he => ?_) (lookup_take distinct hn)
    have := List.mem_of_mem_take he
    exact ⟨plain entry this, values entry this⟩

end Distinct

def backward : Substitution := ofList [(lit "a", lit "x"), (lit "b", of (lit "a") ++ lit "$1")]

theorem apply_once_backward :
    (backward.entries.map Prod.fst).Nodup ∧ (∀ entry ∈ backward.entries, IsInside entry.1) ∧
      backward.apply (of (lit "b") ++ of (lit "a")) = backward.once (of (lit "b") ++ of (lit "a")) ∧
      backward.once (of (lit "b") ++ of (lit "a")) = of (lit "a") ++ lit "$1x" := by
  have distinct : (backward.entries.map Prod.fst).Nodup := by decide
  have plain : ∀ entry ∈ backward.entries, IsInside entry.1 := by decide
  have ⟨_, same, _⟩ := apply_once_iff distinct plain (of (lit "b") ++ of (lit "a"))
  exact ⟨distinct, plain, same (by decide), by decide⟩

-- The hole of a key whose turn is still to come is filled again.
def forward : Substitution := ofList [(lit "a", of (lit "b")), (lit "b", lit "x")]

theorem not_apply_once_forward :
    (forward.entries.map Prod.fst).Nodup ∧ (∀ entry ∈ forward.entries, IsInside entry.1) ∧
      forward.once (of (lit "a")) = of (lit "b") ∧ forward.apply (of (lit "a")) = lit "x" ∧
      forward.apply (of (lit "a")) ≠ forward.once (of (lit "a")) :=
  ⟨by decide, by decide, by decide, by decide, by decide⟩

end WikiPages.Substitution
