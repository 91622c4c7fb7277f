namespace WikiPages

abbrev Text := List Char

namespace Text

def lit (s : String) : Text := s.toList

def ofNat (n : Nat) : Text := Nat.toDigits 10 n

def ofInt : Int → Text
  | .ofNat n   => ofNat n
  | .negSucc n => '-' :: ofNat (n + 1)

def splitOnce? (sep : Text) (s : Text) : Option (Text × Text) :=
  match sep.isPrefixOf? s with
  | some rest => some ([], rest)
  | none =>
    match s with
    | [] => none
    | c :: s => (splitOnce? sep s).map fun (before, after) => (c :: before, after)

theorem splitOnce?_nil (sep : Text) (h : sep ≠ []) : splitOnce? sep [] = none := by
  cases sep
  case nil => exact absurd rfl h
  case cons => rfl

theorem isPrefixOf?_nil (s : Text) : List.isPrefixOf? [] s = some s := by cases s <;> rfl

theorem isPrefixOf?_cons_nil (c : Char) (p : Text) : (c :: p).isPrefixOf? [] = none := rfl

theorem isPrefixOf?_cons_cons (c d : Char) (p s : Text) :
    (c :: p).isPrefixOf? (d :: s) = if c == d then p.isPrefixOf? s else none := rfl

theorem eq_append_of_isPrefixOf? {p s rest : Text} (h : p.isPrefixOf? s = some rest) :
    s = p ++ rest := by
  induction p generalizing s
  case nil => simpa [isPrefixOf?_nil] using h
  case cons c p hi =>
    cases s
    case nil => simp [isPrefixOf?_cons_nil] at h
    case cons d s =>
      by_cases hcd : c = d
      · subst hcd
        simp only [isPrefixOf?_cons_cons, beq_self_eq_true, ↓reduceIte] at h
        simp [hi h]
      · simp [isPrefixOf?_cons_cons, hcd] at h

@[simp]
theorem isPrefixOf?_append (p rest : Text) : p.isPrefixOf? (p ++ rest) = some rest := by
  induction p
  case nil => simp [isPrefixOf?_nil]
  case cons c p hi => simp [isPrefixOf?_cons_cons, hi]

theorem splitOnce?_eq_some {sep s before after : Text}
    (h : splitOnce? sep s = some (before, after)) : s = before ++ sep ++ after := by
  induction s generalizing before
  case nil =>
    unfold splitOnce? at h
    split at h
    case h_1 rest hp =>
      cases h
      simpa using eq_append_of_isPrefixOf? hp
    case h_2 => simp at h
  case cons c s hi =>
    unfold splitOnce? at h
    split at h
    case h_1 rest hp =>
      cases h
      simpa using eq_append_of_isPrefixOf? hp
    case h_2 =>
      obtain ⟨⟨b, a⟩, hba, heq⟩ := Option.map_eq_some_iff.1 h
      cases heq
      simp [hi hba]

theorem splitOnce?_cons {sep : Text} {c : Char} {s : Text}
    (h : sep.isPrefixOf? (c :: s) = none) :
    splitOnce? sep (c :: s) =
      (splitOnce? sep s).map fun (before, after) => (c :: before, after) := by
  rw [splitOnce?.eq_def, h]

theorem splitOnce?_of_free {c : Char} {s rest : Text} (h : c ∉ s) :
    splitOnce? [c] (s ++ c :: rest) = some (s, rest) := by
  induction s
  case nil => simp [splitOnce?, isPrefixOf?_cons_cons, isPrefixOf?_nil]
  case cons d s hi =>
    simp only [List.mem_cons, not_or] at h
    rw [List.cons_append, splitOnce?_cons (by simp [isPrefixOf?_cons_cons, h.1]), hi h.2]
    rfl

def splitWhere (p : Char → Bool) : Text → List Text
  | [] => [[]]
  | c :: s =>
    if p c then [] :: splitWhere p s
    else
      match splitWhere p s with
      | [] => [[c]]
      | piece :: pieces => (c :: piece) :: pieces

def split (sep : Char) (s : Text) : List Text := splitWhere (· == sep) s

theorem splitWhere_ne_nil (p : Char → Bool) (s : Text) : splitWhere p s ≠ [] := by
  cases s
  case nil => simp [splitWhere]
  case cons c s =>
    simp only [splitWhere]
    split
    · simp
    · split <;> simp

def join (sep : Text) : List Text → Text
  | [] => []
  | [t] => t
  | t :: u :: ts => t ++ sep ++ join sep (u :: ts)

@[simp] theorem join_nil (sep : Text) : join sep [] = [] := rfl

@[simp] theorem join_singleton (sep t : Text) : join sep [t] = t := rfl

@[simp]
theorem join_cons_cons (sep t u : Text) (ts : List Text) :
    join sep (t :: u :: ts) = t ++ sep ++ join sep (u :: ts) := rfl

theorem join_split (sep : Char) (s : Text) : join [sep] (split sep s) = s := by
  unfold split
  induction s
  case nil => rfl
  case cons c s hi =>
    simp only [splitWhere]
    by_cases h : c = sep
    · subst h
      rw [if_pos (by simp)]
      cases hs : splitWhere (· == c) s
      case nil => exact absurd hs (splitWhere_ne_nil _ _)
      case cons t ts =>
        rw [hs] at hi
        simp [hi]
    · rw [if_neg (by simpa using h)]
      cases hs : splitWhere (· == sep) s
      case nil => exact absurd hs (splitWhere_ne_nil _ _)
      case cons t ts =>
        rw [hs] at hi
        cases ts <;> simpa using hi

def contains (part s : Text) : Bool := (splitOnce? part s).isSome

abbrev startsWith (part s : Text) : Bool := List.isPrefixOf part s

end Text
end WikiPages
