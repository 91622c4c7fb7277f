import WikiPages.Proofs.Text.Cutting
import WikiPages.Text.Scan

namespace WikiPages.Text

variable {α : Type} {a b s old new part rest : Text} {c : Char}

namespace Pattern

variable {m : Pattern α} {f : α → Text}

def Bounded (m : Pattern α) : Prop := ∀ s x width, m s = some (x, width) → width ≤ s.length

-- What begins in the first part is found there without a look at the second.
def Apart (m : Pattern α) (a b : Text) : Prop := ∀ s, s ≠ [] → s <:+ a → m (s ++ b) = m s

-- Nothing begins in the first part.
def Quiet (m : Pattern α) (a b : Text) : Prop := ∀ s, s ≠ [] → s <:+ a → m (s ++ b) = none

def Within (m : Pattern α) (a b : Text) : Prop :=
  ∀ s, s ≠ [] → s <:+ a → ∀ x width, m (s ++ b) = some (x, width) → width ≤ s.length

theorem Bounded.exists_hit {s : Text} {x : α} {width : Nat} (hb : m.Bounded) (h : m s = some (x, width)) :
    ∃ taken rest, s = taken ++ rest ∧ taken.length = width ∧ m (taken ++ rest) = some (x, taken.length) := by
  have taken : (s.take width).length = width := List.length_take_of_le (hb s x width h)
  refine ⟨s.take width, s.drop width, (List.take_append_drop width s).symm, taken, ?_⟩
  rw [List.take_append_drop, taken, h]

theorem Apart.tail (h : Apart m (c :: a) b) : Apart m a b :=
  fun s hne hs => h s hne (hs.trans (List.suffix_cons c a))

theorem Quiet.tail (h : Quiet m (c :: a) b) : Quiet m a b :=
  fun s hne hs => h s hne (hs.trans (List.suffix_cons c a))

theorem Within.tail (h : Within m (c :: a) b) : Within m a b :=
  fun s hne hs => h s hne (hs.trans (List.suffix_cons c a))

theorem cut.go_append_of_apart (hb : m.Bounded) (h : m.Apart a b) {taken : Nat}
    (ht : taken ≤ a.length) : cut.go m taken (a ++ b) = cut.go m taken a ++ m.cut b := by
  induction a generalizing taken
  case nil =>
    cases Nat.le_zero.mp ht
    rfl
  case cons c a hi =>
    have hi := @hi h.tail
    cases taken
    case succ => exact hi (Nat.le_of_succ_le_succ ht)
    case zero =>
      have ha := h (c :: a) (List.cons_ne_nil c a) (List.suffix_refl _)
      rw [List.cons_append] at ha
      rw [List.cons_append, cut.go, cut.go, ha]
      cases hm : m (c :: a)
      case none => exact congrArg _ (hi (Nat.zero_le _))
      case some found =>
        have := hb _ _ _ hm
        exact congrArg _ (hi (Nat.sub_le_of_le_add this))

theorem cut_append (hb : m.Bounded) (h : m.Apart a b) : m.cut (a ++ b) = m.cut a ++ m.cut b :=
  cut.go_append_of_apart hb h (Nat.zero_le _)

theorem replace_append (hb : m.Bounded) (h : m.Apart a b) :
    m.replace f (a ++ b) = m.replace f a ++ m.replace f b := by
  rw [replace, cut_append hb h, List.flatMap_append]
  rfl

theorem cut_of_quiet (h : m.Quiet a b) : m.cut (a ++ b) = a.map .char ++ m.cut b := by
  induction a
  case nil => rfl
  case cons c a hi =>
    have : m (c :: (a ++ b)) = none := h (c :: a) (List.cons_ne_nil c a) (List.suffix_refl _)
    rw [List.cons_append, cut_of_miss this, hi h.tail]
    rfl

theorem replace_of_quiet (h : m.Quiet a b) : m.replace f (a ++ b) = a ++ m.replace f b := by
  induction a
  case nil => rfl
  case cons c a hi =>
    have : m (c :: (a ++ b)) = none := h (c :: a) (List.cons_ne_nil c a) (List.suffix_refl _)
    rw [List.cons_append, replace_of_miss this, hi h.tail]
    rfl

theorem finds_of_quiet (h : m.Quiet a b) : m.finds (a ++ b) = m.finds b := by
  have : (a.map (Piece.char (α := α))).filterMap Piece.found? = [] := by simp [Piece.found?]
  rw [finds, cut_of_quiet h, List.filterMap_append, this]
  rfl

theorem cut.go_append_of_within (h : m.Within a b) {taken : Nat} (ht : taken ≤ a.length) :
    ∃ pieces, cut.go m taken (a ++ b) = pieces ++ m.cut b := by
  induction a generalizing taken
  case nil =>
    cases Nat.le_zero.mp ht
    exact ⟨[], rfl⟩
  case cons c a hi =>
    have hi := @hi h.tail
    cases taken
    case succ => exact hi (Nat.le_of_succ_le_succ ht)
    case zero =>
      have hw := h (c :: a) (List.cons_ne_nil c a) (List.suffix_refl _)
      rw [List.cons_append] at hw
      rw [List.cons_append, cut.go]
      cases hm : m (c :: (a ++ b))
      case none =>
        obtain ⟨pieces, hp⟩ := hi (Nat.zero_le _)
        exact ⟨.char c :: pieces, congrArg _ hp⟩
      case some found =>
        obtain ⟨pieces, hp⟩ := hi (Nat.sub_le_of_le_add (hw _ _ hm))
        exact ⟨.found found.1 :: pieces, congrArg _ hp⟩

theorem exists_cut_append (h : m.Within a b) : ∃ pieces, m.cut (a ++ b) = pieces ++ m.cut b :=
  cut.go_append_of_within h (Nat.zero_le _)

theorem exists_replace_append (h : m.Within a b) :
    ∃ front, m.replace f (a ++ b) = front ++ m.replace f b := by
  have ⟨pieces, hp⟩ := exists_cut_append h
  rw [replace, hp, List.flatMap_append]
  exact ⟨_, rfl⟩

theorem cut.go_sublist (taken : Nat) (s : Text) :
    ((cut.go m taken s).flatMap fun
      | .char c  => [c]
      | .found _ => []).Sublist s := by
  induction s generalizing taken
  case nil => cases taken <;> exact .slnil
  case cons c s hi =>
    cases taken
    case succ taken => exact (hi taken).cons c
    case zero =>
      rw [cut.go]
      cases m (c :: s)
      case none => exact (hi 0).cons_cons c
      case some => exact (hi _).cons c

theorem replace_sublist (m : Pattern α) (s : Text) : (m.replace (fun _ => []) s).Sublist s :=
  cut.go_sublist 0 s

theorem mem_of_mem_replace (h : c ∈ m.replace f s) : (∃ x, c ∈ f x) ∨ c ∈ s := by
  have ⟨piece, hp, hc⟩ := List.mem_flatMap.mp h
  cases piece
  case found x => exact .inl ⟨x, hc⟩
  case char d =>
    have : c ∈ m.replace (fun _ => []) s := List.mem_flatMap.mpr ⟨.char d, hp, hc⟩
    exact .inr ((replace_sublist m s).subset this)

theorem exists_of_found {x : α} {taken : Nat} (h : .found x ∈ cut.go m taken s) :
    ∃ t width, m t = some (x, width) := by
  induction s generalizing taken
  case nil => cases taken <;> cases h
  case cons c s hi =>
    cases taken
    case succ => exact hi h
    case zero =>
      rw [cut.go] at h
      cases hm : m (c :: s)
      case none =>
        rw [hm] at h
        cases h
        case tail h => exact hi h
      case some found =>
        rw [hm] at h
        cases h
        case head => exact ⟨c :: s, found.2, hm⟩
        case tail h => exact hi h

theorem exists_of_char {front back : List (Piece α)} {taken : Nat} (h : cut.go m taken s = front ++ .char c :: back) :
    ∃ rest, m (c :: rest) = none ∧ m.cut rest = back := by
  induction s generalizing taken front
  case nil => cases taken <;> simp [cut.go] at h
  case cons d s hi =>
    cases taken
    case succ => exact hi h
    case zero =>
      rw [cut.go] at h
      cases hm : m (d :: s)
      case none =>
        rw [hm] at h
        cases front
        case nil =>
          cases h
          exact ⟨s, hm, rfl⟩
        case cons => exact hi (List.cons.inj h).2
      case some found =>
        rw [hm] at h
        cases front
        case nil => cases h
        case cons => exact hi (List.cons.inj h).2

theorem cut_eq_char_cons {back : List (Piece α)} (h : m.cut s = .char c :: back) : ∃ rest, s = c :: rest ∧ m.cut rest = back := by
  cases s
  case nil => cases h
  case cons d s =>
    rw [cut, cut.go] at h
    cases hm : m (d :: s)
    case none =>
      rw [hm] at h
      cases h
      exact ⟨s, rfl, rfl⟩
    case some =>
      rw [hm] at h
      cases h

inductive Scans (m : Pattern α) : Text → List (Piece α) → Prop
  | nil : Scans m [] []
  | char {c : Char} {s : Text} {pieces : List (Piece α)} (miss : m (c :: s) = none) (rest : Scans m s pieces) :
    Scans m (c :: s) (.char c :: pieces)
  | found {taken s : Text} {x : α} {pieces : List (Piece α)} (hit : m (taken ++ s) = some (x, taken.length))
    (rest : Scans m s pieces) : Scans m (taken ++ s) (.found x :: pieces)

theorem scans_cut (hb : m.Bounded) (hp : ∀ s x width, m s = some (x, width) → 0 < width) (s : Text) :
    Scans m s (m.cut s) := by
  induction hn : s.length using Nat.strong_induction_on generalizing s
  case h n hi =>
    cases s
    case nil => exact .nil
    case cons c s =>
      cases hm : m (c :: s)
      case none =>
        rw [cut_of_miss hm]
        exact .char hm (hi s.length (by simp [← hn]) s rfl)
      case some found =>
        obtain ⟨taken, rest, parts, width, hit⟩ := hb.exists_hit hm
        have given : taken ≠ [] := List.ne_nil_of_length_pos (width ▸ hp _ _ _ hm)
        rw [parts] at hn ⊢
        have shorter : rest.length < n := by
          rw [← hn, List.length_append]
          exact Nat.lt_add_of_pos_left (List.length_pos_of_ne_nil given)
        rw [cut_of_hit given hit]
        exact .found hit (hi _ shorter rest rfl)

-- A pattern that takes something where it finds something, and asks for nothing behind it.
structure Local (m : Pattern α) : Prop where
  bounded : m.Bounded
  takes   : ∀ s x width, m s = some (x, width) → 0 < width
  alike   : ∀ taken a b x, m (taken ++ a) = some (x, taken.length) → m (taken ++ b) = some (x, taken.length)

namespace Local

theorem scans (h : m.Local) (s : Text) : m.Scans s (m.cut s) := scans_cut h.bounded h.takes s

theorem miss (h : m.Local) (hm : m (a ++ b) = none) : m a = none := by
  cases ha : m a
  case none => rfl
  case some found =>
    obtain ⟨taken, rest, rfl, _, hit⟩ := h.bounded.exists_hit ha
    rw [List.append_assoc, h.alike _ _ (rest ++ b) _ hit] at hm
    cases hm

theorem apart (h : m.Local) (within : m.Within a b) : m.Apart a b := by
  intro s hne hs
  cases hm : m (s ++ b)
  case none => exact (h.miss hm).symm
  case some found =>
    obtain ⟨taken, rest, parts, width, hit⟩ := h.bounded.exists_hit hm
    have inside : taken.length ≤ s.length := width ▸ within s hne hs _ _ hm
    obtain ⟨more, rfl⟩ : taken <+: s :=
      List.prefix_of_prefix_length_le ⟨rest, parts.symm⟩ (List.prefix_append s b) inside
    rw [h.alike _ _ more _ hit, width]

theorem exists_kept (h : m.Local) (he : m.replace (fun _ => []) s = a ++ c :: b) :
    ∃ front rest, s = front ++ c :: rest ∧ m.replace (fun _ => []) front = a ∧
      m.replace (fun _ => []) rest = b ∧ m (c :: rest) = none := by
  have scans := h.scans s
  generalize m.cut s = pieces at scans
  induction scans generalizing a
  case nil => simp at he
  case char d s pieces missed _ hi =>
    rw [replace_of_miss missed] at he
    rcases a with _ | ⟨d, a⟩
    · obtain ⟨rfl, rfl⟩ := List.cons.inj he
      exact ⟨[], s, rfl, rfl, rfl, missed⟩
    · rw [List.cons_append] at he
      obtain ⟨rfl, same⟩ := List.cons.inj he
      obtain ⟨front, rest, rfl, rfl, rfl, miss⟩ := hi same
      have missed : m (d :: front) = none := h.miss missed
      exact ⟨d :: front, rest, rfl, replace_of_miss missed, rfl, miss⟩
  case found taken s x pieces hit _ hi =>
    have given : taken ≠ [] := List.ne_nil_of_length_pos (h.takes _ _ _ hit)
    rw [replace_of_hit given hit] at he
    obtain ⟨front, rest, rfl, rfl, rfl, miss⟩ := hi he
    have hit := h.alike taken _ front x hit
    exact ⟨taken ++ front, rest, (List.append_assoc _ _ _).symm, replace_of_hit given hit, rfl, miss⟩

theorem replace_append_of_nil (h : m.Local) (ha : m.replace (fun _ => []) a = []) (b : Text) :
    m.replace (fun _ => []) (a ++ b) = m.replace (fun _ => []) b := by
  have scans := h.scans a
  generalize m.cut a = pieces at scans
  induction scans
  case nil => rfl
  case char missed _ _ =>
    rw [replace_of_miss missed] at ha
    cases ha
  case found taken a x pieces hit _ hi =>
    have given : taken ≠ [] := List.ne_nil_of_length_pos (h.takes _ _ _ hit)
    rw [replace_of_hit given hit] at ha
    rw [List.append_assoc, replace_of_hit given (h.alike _ _ _ _ hit)]
    exact hi ha

end Local

theorem whole?_of_hit {x : α} (hne : part ≠ []) (h : m (part ++ s) = some (x, part.length)) :
    m.whole? (part ++ s) = (m.whole? s).map (x :: ·) := by
  rw [whole?, cut_of_hit hne h, List.mapM_cons]
  change (m.whole? s).bind (fun rest => some (x :: rest)) = _
  exact Option.map_eq_bind.symm

theorem whole?_of_miss (h : m (c :: s) = none) : m.whole? (c :: s) = none := by
  rw [whole?, cut_of_miss h, List.mapM_cons]
  rfl

theorem ofReader_of_read {read : Text → Option (α × Text)} {x : α}
    (h : read (part ++ rest) = some (x, rest)) :
    ofReader read (part ++ rest) = some (x, part.length) := by
  rw [ofReader, h]
  simp

theorem exactly_of_hit (h : old <+: s) : exactly old s = some ((), old.length) := by
  have ⟨rest, hr⟩ := h
  rw [← hr, exactly, isPrefixOf?_append]
  rfl

theorem exactly_of_miss (h : ¬ old <+: s) : exactly old s = none := by
  rw [exactly, isPrefixOf?_eq_none_iff.mpr h]
  rfl

theorem exactly_eq_none_iff : exactly old s = none ↔ ¬ old <+: s := by
  refine ⟨fun h hp => ?_, exactly_of_miss⟩
  rw [exactly_of_hit hp] at h
  cases h

theorem exactly_eq_some_iff {x : Unit} {width : Nat} :
    exactly old s = some (x, width) ↔ old <+: s ∧ width = old.length := by
  constructor
  · intro h
    by_cases hp : old <+: s
    · rw [exactly_of_hit hp] at h
      cases h
      exact ⟨hp, rfl⟩
    · cases (exactly_of_miss hp).symm.trans h
  · rintro ⟨hp, rfl⟩
    exact exactly_of_hit hp

theorem exactly_bounded : (exactly old).Bounded := by
  intro s x width h
  obtain ⟨hp, rfl⟩ := exactly_eq_some_iff.mp h
  exact hp.length_le

theorem exactly_of_not_mem (h : c ∉ a) : Quiet (exactly (c :: old)) a b := by
  intro s hne hs
  cases s
  case nil => contradiction
  case cons d s =>
    have hd : c ≠ d := by
      rintro rfl
      exact h (hs.subset List.mem_cons_self)
    simp [exactly, isPrefixOf?_cons_cons, hd]

end Pattern

theorem replaceAll_of_free (h : c ∉ a) :
    replaceAll (c :: old) new (a ++ b) = a ++ replaceAll (c :: old) new b :=
  Pattern.replace_of_quiet (Pattern.exactly_of_not_mem h)

theorem replaceAll_eq_self (h : c ∉ s) : replaceAll (c :: old) new s = s := by
  have : replaceAll (c :: old) new (s ++ []) = s ++ replaceAll (c :: old) new [] := replaceAll_of_free h
  simpa using this

theorem not_mem_replaceAll (hs : c ∉ s) (hn : c ∉ new) : c ∉ replaceAll old new s :=
  fun h => (Pattern.mem_of_mem_replace h).elim (fun ⟨_, hc⟩ => hn hc) hs

theorem replaceAll_of_absent (h : ¬ old <:+: s) : replaceAll old new s = s := by
  have hq : Pattern.Quiet (Pattern.exactly old) s [] := by
    intro s' _ hs
    have : ¬ old <+: s' ++ [] := by
      rw [List.append_nil]
      exact fun hp => h (hp.isInfix.trans hs.isInfix)
    exact Pattern.exactly_of_miss this
  have := Pattern.replace_of_quiet (f := fun _ => new) hq
  simpa [replaceAll] using this

theorem replaceAll_of_first (hne : old ≠ []) (h : ¬ old <:+: a ++ old.dropLast) :
    replaceAll old new (a ++ old ++ b) = a ++ new ++ replaceAll old new b := by
  have hq : Pattern.Quiet (Pattern.exactly old) a (old ++ b) := by
    intro s hs ha
    have : ¬ old <+: s ++ (old ++ b) := by
      intro hp
      have hp : old <+: s ++ old.dropLast := by
        apply List.prefix_of_prefix_length_le hp
        · apply List.prefix_append_right_inj s |>.mpr
          exact (List.dropLast_prefix old).trans (List.prefix_append _ _)
        · have := List.length_pos_iff.mpr hs
          simp
          omega
      have ⟨front, hf⟩ := ha
      refine h (hp.isInfix.trans ?_)
      rw [← hf, List.append_assoc]
      exact List.suffix_append _ _ |>.isInfix
    exact Pattern.exactly_of_miss this
  rw [List.append_assoc, replaceAll, Pattern.replace_of_quiet hq, List.append_assoc]
  exact congrArg _ (replaceAll_append hne new b)

def Clash (s s' : Text) : Prop := ¬ s <+: s' ∧ ¬ s' <+: s

instance : Decidable (Clash a b) :=
  inferInstanceAs (Decidable (_ ∧ _))

theorem Clash.misses (h : Clash a b) : ¬ a <+: b ++ s :=
  fun hp => (List.prefix_or_prefix_of_prefix hp (List.prefix_append b s)).elim h.1 h.2

-- No text that begins with `part` can end an occurrence of `old` that begins in front of it.
def Cuts (part old : Text) : Prop := ∀ k < old.length, 0 < k → Clash (old.drop k) part

instance : Decidable (Cuts part old) :=
  inferInstanceAs (Decidable (∀ k < old.length, _))

theorem Cuts.prefix_iff (h : Cuts part old) (hs : s ≠ []) :
    old <+: s ++ (part ++ rest) ↔ old <+: s := by
  constructor
  case mpr => exact fun hp => hp.trans (List.prefix_append _ _)
  case mp =>
    intro hp
    by_cases hl : old.length ≤ s.length
    · exact List.prefix_of_prefix_length_le hp (List.prefix_append _ _) hl
    · have hl := Nat.lt_of_not_le hl
      have hs' : s <+: old :=
        List.prefix_of_prefix_length_le (List.prefix_append _ _) hp (Nat.le_of_lt hl)
      have hd : old = s ++ old.drop s.length := (List.prefix_iff_eq_append.mp hs').symm
      rw [hd, List.prefix_append_right_inj] at hp
      exact absurd hp (h _ hl (List.length_pos_iff.mpr hs)).misses

theorem Cuts.infix_iff (h : Cuts part old) (hne : old ≠ []) :
    old <:+: s ++ (part ++ rest) ↔ old <:+: s ∨ old <:+: part ++ rest := by
  induction s
  case nil => simp [hne]
  case cons c s hi =>
    have hp : old <+: c :: s ++ (part ++ rest) ↔ old <+: c :: s := h.prefix_iff (List.cons_ne_nil c s)
    rw [List.cons_append] at hp ⊢
    rw [List.infix_cons_iff, List.infix_cons_iff, hi, hp, or_assoc]

-- An occurrence of `old` neither begins in `part` nor lies around its end.
def Avoids (part old : Text) : Prop := ∀ k < part.length, Clash old (part.drop k)

instance : Decidable (Avoids part old) :=
  inferInstanceAs (Decidable (∀ k < part.length, _))

theorem Avoids.infix_iff (h : Avoids part old) : old <:+: part ++ rest ↔ old <:+: rest := by
  induction part
  case nil => exact Iff.rfl
  case cons c part hi =>
    have hp : ¬ old <+: c :: part ++ rest := (h 0 (Nat.zero_lt_succ _)).misses
    have hi := hi fun k hk => h (k + 1) (Nat.succ_lt_succ hk)
    rw [List.cons_append] at hp ⊢
    rw [List.infix_cons_iff, hi, or_iff_right hp]

theorem infix_iff_of_free (h : c ∉ a) : c :: old <:+: a ++ b ↔ c :: old <:+: b := by
  induction a
  case nil => exact Iff.rfl
  case cons d a hi =>
    have hd : ¬ c :: old <+: d :: (a ++ b) := by
      intro hp
      exact h ((List.cons_prefix_cons.mp hp).1 ▸ List.mem_cons_self)
    have hi := hi fun hm => h (List.mem_cons_of_mem d hm)
    rw [List.cons_append, List.infix_cons_iff, hi, or_iff_right hd]

namespace Pattern

variable {m : Pattern α}

theorem exactly_append (h : Cuts part old) (hs : s ≠ []) :
    exactly old (s ++ (part ++ rest)) = exactly old s := by
  by_cases hp : old <+: s
  · rw [exactly_of_hit hp, exactly_of_hit (h.prefix_iff hs |>.mpr hp)]
  · rw [exactly_of_miss hp, exactly_of_miss (mt (h.prefix_iff hs).mp hp)]

end Pattern
end WikiPages.Text
