import Mathlib
import WikiPages.Page.Snippet
import WikiPages.Proofs.Template.Filling
import WikiPages.Proofs.Template.Showing
import WikiPages.Proofs.Template.Slot

namespace WikiPages.Hole

open Text

variable {a b inside key kind s t v : Text} {c : Char}

def any : Pattern Text := fun s => (read? s).map fun (inside, _) => (inside, (of inside).length)

def insides (s : Text) : List Text := any.finds s

structure IsInside (inside : Text) : Prop where
  sign    : '$' ∉ inside
  opening : '{' ∉ inside
  closing : '}' ∉ inside

-- Every `$` begins a hole, and inside holes there is neither a `$` nor an opening brace.
inductive Clean : Text → Prop
  | nil : Clean []
  | char {c : Char} {s : Text} (plain : c ≠ '$') (rest : Clean s) : Clean (c :: s)
  | hole {inside s : Text} (plain : IsInside inside) (rest : Clean s) : Clean (of inside ++ s)

theorem any_of (h : '}' ∉ inside) (s : Text) : any (of inside ++ s) = some (inside, (of inside).length) := by
  rw [any, read?_of h]
  rfl

theorem any_cons (h : c ≠ '$') (s : Text) : any (c :: s) = none := by
  rw [any, read?_of_ne h]
  rfl

theorem insides_nil : insides [] = [] := rfl

theorem insides_cons (h : c ≠ '$') (s : Text) : insides (c :: s) = insides s := by
  rw [insides, Pattern.finds, Pattern.cut_of_miss (any_cons h s)]
  rfl

theorem insides_of (h : '}' ∉ inside) (s : Text) : insides (of inside ++ s) = inside :: insides s := by
  rw [insides, Pattern.finds, Pattern.cut_of_hit (of_ne_nil inside) (any_of h s)]
  rfl

theorem of_prefix_iff (hk : '}' ∉ key) (hi : '}' ∉ inside) : of key <+: of inside ++ s ↔ key = inside := by
  constructor
  case mpr =>
    rintro rfl
    exact List.prefix_append _ _
  case mp =>
    rintro ⟨rest, hr⟩
    have := read?_of hk rest
    rw [hr, read?_of hi] at this
    exact (Prod.mk.inj (Option.some.inj this)).1.symm

theorem of_eq_cons (inside : Text) : of inside = '$' :: ('{' :: inside ++ ['}']) := rfl

theorem not_mem_rest (h : '$' ∉ inside) : '$' ∉ '{' :: inside ++ ['}'] := by
  simp [h]

namespace Clean

theorem of_free (h : '$' ∉ s) : Clean s := by
  induction s
  case nil => exact .nil
  case cons c s hi =>
    have ⟨hc, hs⟩ := not_or.mp fun hm => h (List.mem_cons.mpr hm)
    exact .char (Ne.symm hc) (hi hs)

theorem append (ha : Clean a) (hb : Clean b) : Clean (a ++ b) := by
  induction ha
  case nil => exact hb
  case char plain _ hi => exact .char plain hi
  case hole plain _ hi =>
    rw [List.append_assoc]
    exact .hole plain hi

theorem single (h : IsInside inside) : Clean (of inside) :=
  List.append_nil (of inside) ▸ .hole h .nil

theorem tail (h : Clean (c :: s)) (hc : c ≠ '$') : Clean s := by
  generalize ht : c :: s = t at h
  cases h
  case nil => cases ht
  case char rest =>
    cases ht
    exact rest
  case hole =>
    exact absurd (List.cons.inj ht).1 hc

theorem behind (h : Clean (a ++ b)) (ha : '$' ∉ a) : Clean b := by
  induction a
  case nil => exact h
  case cons c a hi =>
    have ⟨hc, ha⟩ := not_or.mp fun hm => ha (List.mem_cons.mpr hm)
    exact hi (h.tail (Ne.symm hc)) ha

end Clean

theorem insides_append (h : Clean a) (b : Text) : insides (a ++ b) = insides a ++ insides b := by
  induction h
  case nil => rfl
  case char plain _ hi => rw [List.cons_append, insides_cons plain, insides_cons plain, hi]
  case hole plain _ hi =>
    rw [List.append_assoc, insides_of plain.closing, insides_of plain.closing, hi, List.cons_append]

theorem insides_of_free (h : '$' ∉ s) : insides s = [] := by
  induction s
  case nil => rfl
  case cons c s hi =>
    have ⟨hc, hs⟩ := not_or.mp fun hm => h (List.mem_cons.mpr hm)
    rw [insides_cons (Ne.symm hc), hi hs]

theorem insides_append_of_free (h : '$' ∉ a) (b : Text) : insides (a ++ b) = insides b := by
  rw [insides_append (.of_free h), insides_of_free h, List.nil_append]

theorem isInside_of_mem (h : Clean s) (hi : inside ∈ insides s) : IsInside inside := by
  induction h
  case nil => cases hi
  case char plain _ ih => exact ih (insides_cons plain _ ▸ hi)
  case hole plain _ ih =>
    rw [insides_of plain.closing] at hi
    rcases List.mem_cons.mp hi with rfl | hi
    · exact plain
    · exact ih hi

theorem suffix_append_of_free (ha : '$' ∉ a) : '$' :: t <:+ a ++ s ↔ '$' :: t <:+ s := by
  induction a
  case nil => exact Iff.rfl
  case cons c a hi =>
    have ⟨hc, ha⟩ := not_or.mp fun hm => ha (List.mem_cons.mpr hm)
    have : '$' :: t ≠ c :: (a ++ s) := fun he => hc (List.cons.inj he).1
    rw [List.cons_append, List.suffix_cons_iff, or_iff_right this, hi ha]

theorem clean_iff :
    Clean s ↔ ∀ t ∈ s.tails, t.head? = some '$' → Opens (fun inside => '$' ∉ inside ∧ '{' ∉ inside) t := by
  constructor
  case mp =>
    rintro h t ht hs
    obtain ⟨t, rfl⟩ := List.head?_eq_some_iff.mp hs
    rw [List.mem_tails] at ht
    clear hs
    induction h
    case nil => exact absurd (List.suffix_nil.mp ht) (List.cons_ne_nil _ _)
    case char c s plain _ hi =>
      have single : '$' ∉ [c] := by simpa using Ne.symm plain
      exact hi ((suffix_append_of_free single).mp ht)
    case hole inside s plain _ hi =>
      rw [of_eq_cons, List.cons_append, List.suffix_cons_iff] at ht
      rcases ht with he | ht
      · exact ⟨inside, ⟨plain.sign, plain.opening⟩, plain.closing, s, he.symm⟩
      · exact hi ((suffix_append_of_free (not_mem_rest plain.sign)).mp ht)
  case mpr =>
    intro h
    induction hn : s.length using Nat.strong_induction_on generalizing s
    case h n hi =>
      cases s
      case nil => exact .nil
      case cons c s =>
        by_cases hc : c = '$'
        case neg =>
          refine .char hc (hi s.length (by simp [← hn]) (fun t ht => h t ?_) rfl)
          exact (List.mem_tails _ _).mpr (((List.mem_tails _ _).mp ht).trans (List.suffix_cons c s))
        case pos =>
          subst hc
          have ⟨inside, ⟨sign, opening⟩, closing, rest, he⟩ := h _ ((List.mem_tails _ _).mpr (List.suffix_refl _)) rfl
          rw [← he] at h hn ⊢
          refine .hole ⟨sign, opening, closing⟩ (hi rest.length ?_ (fun t ht => h t ?_) rfl)
          · rw [← hn, List.length_append]
            exact Nat.lt_add_of_pos_left (List.length_pos_iff.mpr (of_ne_nil inside))
          · exact (List.mem_tails _ _).mpr (((List.mem_tails _ _).mp ht).trans (List.suffix_append _ _))

instance : Decidable (Clean s) :=
  decidable_of_iff _ clean_iff.symm

theorem infix_iff (h : Clean s) (hk : '}' ∉ key) : of key <:+: s ↔ key ∈ insides s := by
  induction h
  case nil => simp [insides_nil, of_ne_nil]
  case char c s plain _ hi =>
    have : ¬ of key <+: c :: s := fun hp => plain (List.cons_prefix_cons.mp hp).1.symm
    rw [List.infix_cons_iff, or_iff_right this, hi, insides_cons plain]
  case hole inside s plain _ hi =>
    have behind : of key <:+: '{' :: inside ++ ['}'] ++ s ↔ of key <:+: s :=
      infix_iff_of_free (not_mem_rest plain.sign)
    have first := of_prefix_iff (s := s) hk plain.closing
    rw [of_eq_cons inside, List.cons_append] at first
    rw [insides_of plain.closing, List.mem_cons, ← hi, ← behind, ← first, ← List.infix_cons_iff]
    rfl

theorem contains_iff (h : Clean s) (hk : '}' ∉ key) : contains (of key) s = true ↔ key ∈ insides s := by
  rw [← infix_iff h hk, ← not_iff_not, Bool.not_eq_true]
  exact contains_eq_false_iff

namespace Clean

theorem split (h : Clean (a ++ '$' :: b)) : Clean a ∧ Clean ('$' :: b) := by
  generalize ht : a ++ '$' :: b = t at h
  induction h generalizing a
  case nil => exact absurd ht (by simp)
  case char c s plain _ hi =>
    cases a
    case nil => exact absurd (List.cons.inj ht).1.symm plain
    case cons d a =>
      have ⟨first, others⟩ := List.cons.inj ht
      have ⟨front, back⟩ := hi others
      exact ⟨.char (first ▸ plain) front, back⟩
  case hole inside s plain rest hi =>
    cases a
    case nil =>
      rw [List.nil_append] at ht
      exact ⟨.nil, ht ▸ .hole plain rest⟩
    case cons d a =>
      have ⟨first, others⟩ := List.cons.inj ht
      have ⟨a', hs⟩ := (suffix_append_of_free (not_mem_rest plain.sign)).mp ⟨a, others⟩
      have ⟨front, back⟩ := hi hs
      have he : a = '{' :: inside ++ ['}'] ++ a' := by
        refine List.append_cancel_right (others.trans ?_)
        rw [List.append_assoc, hs]
        rfl
      have hole : d :: a = of inside ++ a' := by
        rw [first, he]
        rfl
      exact ⟨hole ▸ .hole plain front, back⟩

theorem behind_of (h : Clean (of key ++ b)) (hk : '}' ∉ key) : IsInside key ∧ Clean b := by
  generalize ht : of key ++ b = t at h
  cases h
  case nil => exact absurd (List.append_eq_nil_iff.mp ht).1 (of_ne_nil key)
  case char plain _ => exact absurd (List.cons.inj ht).1.symm plain
  case hole inside s plain rest =>
    have same := read?_of hk b
    rw [ht, read?_of plain.closing] at same
    cases same
    exact ⟨plain, rest⟩

theorem ofTemplate (h : Clean t) :
    (Clean (Snippet.ofTemplate t).head ∧ insides (Snippet.ofTemplate t).head ⊆ insides t) ∧
      ∀ tail ∈ (Snippet.ofTemplate t).tail, Clean tail ∧ insides tail ⊆ insides t := by
  cases hs : splitOnce? content t
  case none =>
    rw [Snippet.ofTemplate_eq_leaf_iff.mpr (splitOnce?_eq_none_iff.mp hs)]
    exact ⟨⟨h, fun _ => id⟩, nofun⟩
  case some sides =>
    have ⟨cut, parts⟩ := Snippet.ofTemplate_eq_withSlot hs
    rw [List.append_assoc] at parts
    have ⟨front, slot⟩ := split (parts ▸ h)
    have ⟨_, back⟩ := behind_of slot (by decide)
    have all : insides t = insides sides.1 ++ lit "content" :: insides sides.2 := by
      rw [parts, insides_append front, content, insides_of (by decide)]
    rw [cut, all]
    refine ⟨⟨front, List.subset_append_left ..⟩, fun tail ht => ?_⟩
    cases ht
    exact ⟨back, List.Subset.trans (List.subset_cons_self ..) (List.subset_append_right ..)⟩

theorem behind_infix (h : Clean s) (hi : '$' ∉ inside) (hk : '$' ∉ key) (he : of key ++ b = of inside ++ s) :
    Clean b ∧ insides b ⊆ insides s := by
  rw [of_eq_cons, of_eq_cons] at he
  rcases List.append_eq_append_iff.mp (List.cons.inj he).2 with ⟨more, hm, hb⟩ | ⟨more, hm, hb⟩
  · have free : '$' ∉ more := fun hx => not_mem_rest hi (hm ▸ List.mem_append_right _ hx)
    subst hb
    exact ⟨.append (.of_free free) h, by rw [insides_append_of_free free]; exact fun _ => id⟩
  · have free : '$' ∉ more := fun hx => not_mem_rest hk (hm ▸ List.mem_append_right _ hx)
    subst hb
    exact ⟨h.behind free, by rw [insides_append_of_free free]; exact fun _ => id⟩

theorem replaceAll (h : Clean s) (hk : '$' ∉ key) (hv : '$' ∉ v) :
    Clean (replaceAll (of key) v s) ∧ insides (Text.replaceAll (of key) v s) ⊆ insides s := by
  induction hn : s.length using Nat.strong_induction_on generalizing s
  case h n hi =>
    cases h
    case nil => exact ⟨.nil, fun _ => id⟩
    case char c s plain rest =>
      have miss : (of key).isPrefixOf? (c :: s) = none :=
        isPrefixOf?_eq_none_iff.mpr fun hp => plain (List.cons_prefix_cons.mp hp).1.symm
      have ⟨clean, subset⟩ := hi s.length (by simp [← hn]) rest rfl
      rw [replaceAll_cons v miss, insides_cons plain, insides_cons plain]
      exact ⟨.char plain clean, subset⟩
    case hole inside s plain rest =>
      by_cases hp : of key <+: of inside ++ s
      case pos =>
        have ⟨b, hb⟩ := hp
        have ⟨behind, fewer⟩ := rest.behind_infix plain.sign hk hb
        have shorter : b.length < n := by
          rw [← hn, ← hb, List.length_append]
          exact Nat.lt_add_of_pos_left (List.length_pos_iff.mpr (of_ne_nil key))
        have ⟨clean, subset⟩ := hi b.length shorter behind rfl
        rw [insides_of plain.closing, ← hb, replaceAll_append (of_ne_nil key), insides_append_of_free hv]
        exact ⟨.append (.of_free hv) clean, List.subset_cons_of_subset inside (List.Subset.trans subset fewer)⟩
      case neg =>
        have past : Text.replaceAll (of key) v (of inside ++ s) = of inside ++ Text.replaceAll (of key) v s := by
          rw [of_eq_cons inside, List.cons_append] at hp ⊢
          rw [replaceAll_cons v (isPrefixOf?_eq_none_iff.mpr hp), fill_of_free (not_mem_rest plain.sign)]
          rfl
        have shorter : s.length < n := by
          rw [← hn, List.length_append]
          exact Nat.lt_add_of_pos_left (List.length_pos_iff.mpr (of_ne_nil inside))
        have ⟨clean, subset⟩ := hi s.length shorter rest rfl
        rw [past, insides_of plain.closing, insides_of plain.closing]
        exact ⟨.hole plain clean, List.cons_subset_cons inside subset⟩

theorem apply {σ : Substitution} (h : Clean s) (hσ : ∀ entry ∈ σ.entries, '$' ∉ entry.1 ∧ '$' ∉ entry.2) :
    Clean (σ.apply s) ∧ insides (σ.apply s) ⊆ insides s := by
  obtain ⟨entries⟩ := σ
  simp only [Substitution.apply] at hσ ⊢
  induction entries generalizing s
  case nil => exact ⟨h, fun _ => id⟩
  case cons entry entries hi =>
    obtain ⟨⟨key, value⟩, rest⟩ := List.forall_mem_cons.mp hσ
    obtain ⟨first, fewer⟩ := h.replaceAll key value
    obtain ⟨clean, subset⟩ := hi first rest
    exact ⟨clean, List.Subset.trans subset fewer⟩

end Clean

-- The pattern finds holes only, and what it finds depends on the inside.
structure Reads {α : Type} (m : Pattern α) (found : Text → Option α) : Prop where
  elsewhere : ∀ {c : Char} {s : Text}, c ≠ '$' → m (c :: s) = none
  hole      : ∀ {inside : Text} (s : Text), '}' ∉ inside →
                m (of inside ++ s) = (found inside).map (·, (of inside).length)

namespace Reads

variable {α : Type} {m : Pattern α} {found : Text → Option α}

theorem quiet (h : Reads m found) (ha : '$' ∉ a) : m.Quiet a b := by
  intro s hne hs
  cases s
  case nil => contradiction
  case cons c s =>
    refine h.elsewhere ?_
    rintro rfl
    exact ha (hs.subset List.mem_cons_self)

theorem quiet_of (h : Reads m found) (hi : IsInside inside) (hf : found inside = none) :
    m.Quiet (of inside) b := by
  intro s hne hs
  rcases List.suffix_cons_iff.mp hs with rfl | hs
  · exact (h.hole b hi.closing).trans (congrArg _ hf)
  · exact h.quiet (not_mem_rest hi.sign) s hne hs

theorem finds_eq (h : Reads m found) (hs : Clean s) : m.finds s = (insides s).filterMap found := by
  induction hs
  case nil => rfl
  case char plain _ hi =>
    rw [insides_cons plain, ← hi, Pattern.finds, Pattern.cut_of_miss (h.elsewhere plain)]
    rfl
  case hole inside s plain _ hi =>
    rw [insides_of plain.closing, List.filterMap_cons, ← hi]
    cases hf : found inside
    case none => exact Pattern.finds_of_quiet (h.quiet_of plain hf)
    case some x =>
      have := h.hole s plain.closing
      rw [hf] at this
      rw [Pattern.finds, Pattern.cut_of_hit (of_ne_nil inside) this]
      rfl

end Reads

def only {α : Type} (key : Text) (value : α) : Text → Option α :=
  fun inside => if inside = key then some value else none

theorem reads_exactly (hk : '}' ∉ key) : Reads (Pattern.exactly (of key)) (only key ()) where
  elsewhere h := Pattern.exactly_of_miss fun hp => h (List.cons_prefix_cons.mp hp).1.symm
  hole {inside} s hi := by
    rw [only]
    split
    case isTrue he =>
      subst he
      exact Pattern.exactly_of_hit (List.prefix_append _ _)
    case isFalse hne => exact Pattern.exactly_of_miss fun hp => hne ((of_prefix_iff hk hi).mp hp).symm

def argument? (kind inside : Text) : Option Text :=
  match (kind ++ [':']).isPrefixOf? inside with
  | none | some [] => none
  | some argument  => some argument

theorem argument?_eq_some_iff {argument : Text} :
    argument? kind inside = some argument ↔ inside = kind ++ ':' :: argument ∧ argument ≠ [] := by
  rw [argument?]
  constructor
  case mp =>
    intro h
    split at h
    case h_1 => cases h
    case h_2 => cases h
    case h_3 hne hp =>
      have h := Option.some.inj h
      subst h
      refine ⟨?_, hne⟩
      rw [eq_append_of_isPrefixOf? hp, List.append_assoc]
      rfl
  case mpr =>
    rintro ⟨rfl, hne⟩
    have hp : (kind ++ [':']).isPrefixOf? (kind ++ ':' :: argument) = some argument := by
      rw [← isPrefixOf?_append (kind ++ [':']) argument, List.append_assoc]
      rfl
    rw [hp]
    cases argument
    case nil => contradiction
    case cons => rfl

theorem reads_named (kind : Text) : Reads (named kind) (argument? kind) where
  elsewhere h := by rw [named, read?_of_ne h]
  hole {inside} s hi := by
    rw [named, read?_of hi]
    change (match (kind ++ [':']).isPrefixOf? inside with
      | none | some [] => none
      | some argument  => some (argument, _)) = _
    rw [argument?]
    rcases (kind ++ [':']).isPrefixOf? inside with _ | _ | _ <;> rfl

theorem mem_arguments (h : Clean s) {argument : Text} :
    argument ∈ arguments kind s ↔ ∃ inside ∈ insides s, argument? kind inside = some argument := by
  rw [arguments, List.mem_eraseDups, (reads_named kind).finds_eq h, List.mem_filterMap]

theorem arguments_subset (hs : Clean s) (ht : Clean t) (h : insides s ⊆ insides t) :
    arguments kind s ⊆ arguments kind t := by
  intro argument ha
  have ⟨inside, hi, he⟩ := (mem_arguments hs).mp ha
  exact (mem_arguments ht).mpr ⟨inside, h hi, he⟩

theorem arguments_congr (hs : Clean s) (ht : Clean t)
    (h : (insides s).filter (argument? kind · ≠ none) = (insides t).filter (argument? kind · ≠ none)) :
    arguments kind s = arguments kind t := by
  have named (all : List Text) : all.filterMap (argument? kind) =
      (all.filter (argument? kind · ≠ none)).filterMap (argument? kind) := by
    rw [List.filterMap_filter]
    refine List.filterMap_congr fun inside _ => ?_
    cases argument? kind inside <;> rfl
  rw [arguments, arguments, (reads_named kind).finds_eq hs, (reads_named kind).finds_eq ht, named, h, ← named]

end WikiPages.Hole
