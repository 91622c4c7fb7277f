import WikiPages.Proofs.Specification.Reading

namespace WikiPages

open Text

variable {a b body front inner kind rest run s trailing : Text} {c : Char}

namespace Override

inductive IsClosed : Text → Prop
  | nil : IsClosed []
  | group {inner run : Text} : ')' ∉ inner → IsClosed run → IsClosed ('(' :: (inner ++ ')' :: run))

-- A run of groups in front of a rest, which begins no other group. A group that is left open takes all the rest.
def IsRun (run rest : Text) : Prop :=
  (IsClosed run ∧ rest.head? ≠ some '(') ∨
    rest = [] ∧ ∃ closed inner, run = closed ++ '(' :: inner ∧ IsClosed closed ∧ ')' ∉ inner

theorem groups_true_of_free (h : ')' ∉ s) : groups true s = (s, []) := by
  induction s
  case nil => rfl
  case cons c s hi =>
    have ⟨hc, hs⟩ := not_or.mp fun hm => h (List.mem_cons.mpr hm)
    simp [groups, Ne.symm hc, hi hs]

theorem groups_true_append (h : ')' ∉ inner) (s : Text) :
    groups true (inner ++ ')' :: s) = (inner ++ ')' :: (groups false s).1, (groups false s).2) := by
  induction inner
  case nil => simp [groups]
  case cons c inner hi =>
    obtain ⟨hc, hs⟩ := not_or.mp fun hm => h (List.mem_cons.mpr hm)
    simp [groups, Ne.symm hc, hi hs]

theorem groups_of_head (h : s.head? ≠ some '(') : groups false s = ([], s) := by
  cases s
  case nil => rfl
  case cons c s =>
    have other : c ≠ '(' := fun he => h (congrArg some he)
    simp [groups, other]

theorem IsClosed.groups_append (h : IsClosed run) (s : Text) :
    groups false (run ++ s) = (run ++ (groups false s).1, (groups false s).2) := by
  induction h
  case nil => rfl
  case group inner run free _ hi =>
    have := groups_true_append free (run ++ s)
    rw [hi] at this
    simp [groups, this]

theorem exists_closed (s : Text) : ∃ run rest, s = run ++ rest ∧ IsClosed run ∧
    (rest.head? ≠ some '(' ∨ ∃ inner, rest = '(' :: inner ∧ ')' ∉ inner) := by
  induction hn : s.length using Nat.strong_induction_on generalizing s
  case h n hi =>
    by_cases hs : s.head? = some '('
    case neg => exact ⟨[], s, rfl, .nil, .inl hs⟩
    case pos =>
      have ⟨t, ht⟩ := List.head?_eq_some_iff.mp hs
      by_cases hm : ')' ∈ t
      case neg => exact ⟨[], s, rfl, .nil, .inr ⟨t, ht, hm⟩⟩
      case pos =>
        have ⟨inner, behind, parts, free⟩ := List.eq_append_cons_of_mem hm
        have shorter : behind.length < n := by
          rw [← hn, ht, parts]
          simp
          omega
        have ⟨run, rest, split, closed, stop⟩ := hi _ shorter behind rfl
        exact ⟨_, rest, by rw [ht, parts, split]; simp, .group free closed, stop⟩

theorem IsRun.groups (h : IsRun run rest) : groups false (run ++ rest) = (run, rest) := by
  rcases h with ⟨closed, stop⟩ | ⟨rfl, closed, inner, rfl, hc, free⟩
  case inl => rw [closed.groups_append, groups_of_head stop, List.append_nil]
  case inr =>
    have opened : Override.groups false ('(' :: inner) = ('(' :: inner, []) := by
      simp [Override.groups, groups_true_of_free free]
    rw [List.append_nil, hc.groups_append, opened]

theorem exists_isRun (s : Text) : ∃ run rest, s = run ++ rest ∧ IsRun run rest := by
  have ⟨run, rest, split, closed, stop⟩ := exists_closed s
  rcases stop with stop | ⟨inner, opened, free⟩
  case inl => exact ⟨run, rest, split, .inl ⟨closed, stop⟩⟩
  case inr => exact ⟨s, [], by simp, .inr ⟨rfl, run, inner, opened ▸ split, closed, free⟩⟩

theorem groups_eq_iff : groups false s = (run, rest) ↔ s = run ++ rest ∧ IsRun run rest := by
  constructor
  case mpr =>
    rintro ⟨rfl, h⟩
    exact h.groups
  case mp =>
    intro h
    have ⟨run', rest', split, hr⟩ := exists_isRun s
    rw [split, hr.groups] at h
    cases h
    exact ⟨split, hr⟩

theorem isClosed_iff : IsClosed run ↔ groups false (run ++ ['a']) = (run, ['a']) := by
  constructor
  case mp =>
    intro h
    rw [h.groups_append, groups_of_head (by decide), List.append_nil]
  case mpr =>
    intro h
    rcases (groups_eq_iff.mp h).2 with ⟨closed, _⟩ | ⟨none, _⟩
    · exact closed
    · cases none

instance : Decidable (IsClosed run) := decidable_of_iff _ isClosed_iff.symm

theorem IsClosed.append {other : Text} (h : IsClosed run) (ho : IsClosed other) : IsClosed (run ++ other) := by
  induction h
  case nil => exact ho
  case group inner run free _ hi =>
    rw [List.cons_append, List.append_assoc, List.cons_append]
    exact .group free hi

theorem IsClosed.isRun_append {closed : Text} (h : IsClosed closed) (hr : IsRun run rest) :
    IsRun (closed ++ run) rest := by
  rcases hr with ⟨inner, stop⟩ | ⟨none, front, inner, opened, hf, free⟩
  case inl => exact .inl ⟨h.append inner, stop⟩
  case inr => exact .inr ⟨none, closed ++ front, inner, by rw [opened, List.append_assoc], h.append hf, free⟩

theorem IsClosed.ne_opened {closed : Text} (h : IsClosed closed) (free : ')' ∉ inner) :
    ¬ IsClosed (closed ++ '(' :: inner) := by
  intro hr
  have behind := hr.groups_append ['a']
  have opened : groups false ('(' :: (inner ++ ['a'])) = ('(' :: (inner ++ ['a']), []) := by
    simp [groups, groups_true_of_free (List.not_mem_append free (by decide : ')' ∉ ['a']))]
  rw [List.append_assoc, List.cons_append, h.groups_append, opened] at behind
  cases (Prod.mk.inj behind).2

end Override

namespace Directive

-- The parts of a head: the kind, which ends at the first blank or parenthesis, a run of groups, and the rest.
structure Head.Parts (head kind run rest : Text) : Prop where
  whole : head = kind ++ (run ++ rest)
  kind  : ∀ c ∈ kind, isBlank c = false ∧ c ≠ '('
  stop  : ∀ c ∈ (run ++ rest).head?, isBlank c = true ∨ c = '('
  run   : Override.IsRun run rest

theorem Head.Parts.read (h : Head.Parts s kind run rest) : Head.read s = ⟨kind, run, trim rest⟩ := by
  have inside : ∀ c ∈ kind, (!isBlank c && c != '(') = true := by
    intro c hc
    have ⟨solid, other⟩ := h.kind c hc
    simp [solid, other]
  have stop : (run ++ rest).takeWhile (fun c => !isBlank c && c != '(') = [] := by
    cases hr : run ++ rest
    case nil => rfl
    case cons c t => exact List.takeWhile_cons_of_neg (by simpa [or_iff_not_imp_left] using h.stop c (hr ▸ rfl))
  rw [Head.read, h.whole, List.takeWhile_append_of_pos inside, stop, List.append_nil, List.drop_left, h.run.groups]

theorem Head.exists_parts (s : Text) : ∃ kind run rest, Head.Parts s kind run rest := by
  have ⟨run, rest, split, hr⟩ := Override.exists_isRun (s.dropWhile fun c => !isBlank c && c != '(')
  refine ⟨s.takeWhile fun c => !isBlank c && c != '(', run, rest, ?_, fun c hc => ?_, fun c hc => ?_, hr⟩
  · rw [← split, List.takeWhile_append_dropWhile]
  · simpa using List.mem_takeWhile_imp hc
  · have := List.head?_dropWhile_not (fun c => !isBlank c && c != '(') s
    rw [split, Option.mem_def.mp hc] at this
    simpa [or_iff_not_imp_left] using this

theorem Head.Parts.unique {kind' run' rest' : Text} (h : Head.Parts s kind run rest)
    (h' : Head.Parts s kind' run' rest') : kind = kind' ∧ run = run' ∧ rest = rest' := by
  have read := h.read.symm.trans h'.read
  have kinds : kind = kind' := congrArg Head.kind read
  have runs : run = run' := congrArg Head.groups read
  refine ⟨kinds, runs, ?_⟩
  have whole := h.whole.symm.trans h'.whole
  rw [kinds, runs] at whole
  exact List.append_cancel_left (List.append_cancel_left whole)

theorem Head.Parts.append {behind : Text} (h : Head.Parts s kind run rest) (closed : Override.IsClosed run)
    (hb : ∀ c ∈ behind.head?, isBlank c = true) : Head.Parts (s ++ behind) kind run (rest ++ behind) where
  whole := by rw [h.whole, List.append_assoc, List.append_assoc]
  kind  := h.kind
  stop  := by
    have stop := h.stop
    rw [← List.append_assoc]
    cases hr : run ++ rest
    case nil => exact fun c hc => .inl (hb c hc)
    case cons =>
      rw [hr] at stop
      exact stop
  run   := by
    refine .inl ⟨closed, ?_⟩
    cases rest
    case nil =>
      intro opening
      cases hb '(' opening
    case cons =>
      rcases h.run with ⟨_, stop⟩ | ⟨none, _⟩
      · exact stop
      · cases none

end Directive
end WikiPages
