import WikiPages.Proofs.Text.Trimming
import WikiPages.Text.Lines

namespace WikiPages.Html

open Text

-- Where the reader is: in the text of the page, in a tag behind the start of a word, in the value of an `id`
-- attribute or of another one, or directly behind a value.
inductive Mode where
  | text
  | tag (word : Text)
  | id (value : Text)
  | value
  | behind
  deriving DecidableEq

namespace Mode

def next : Mode → Char → Mode
  | text, c     => if c = '<' then tag [] else text
  | tag word, c =>
    if c = '>' then text
    else if c = '\x22' then (if word = lit "id=" then id [] else value)
    else if isBlank c then tag []
    else tag (word ++ [c])
  | id read, c  => if c = '\x22' then behind else id (read ++ [c])
  | value, c    => if c = '\x22' then behind else value
  | behind, c   => if c = '>' then text else if isBlank c then tag [] else tag [c]

def given : Mode → Char → List Text
  | id read, c => if c = '\x22' ∧ read ≠ [] then [read] else []
  | _, _       => []

-- The characters that can be read without surprise. No tag goes over the end of a line, and behind a value there is
-- a space or the end of the tag.
def Takes : Mode → Char → Prop
  | text, c   => c ≠ '\x22' ∧ c ≠ '>'
  | tag _, c  => c ≠ '<' ∧ c ≠ '$' ∧ c ≠ lf
  | id _, c   => c ≠ '<' ∧ c ≠ '>' ∧ c ≠ lf
  | value, c  => c ≠ '<' ∧ c ≠ '>' ∧ c ≠ lf
  | behind, c => c = ' ' ∨ c = '>'

instance : ∀ (m : Mode) (c : Char), Decidable (m.Takes c)
  | text, _   => inferInstanceAs (Decidable (_ ∧ _))
  | tag _, _  => inferInstanceAs (Decidable (_ ∧ _))
  | id _, _   => inferInstanceAs (Decidable (_ ∧ _))
  | value, _  => inferInstanceAs (Decidable (_ ∧ _))
  | behind, _ => inferInstanceAs (Decidable (_ ∨ _))

def Open : Mode → Prop
  | text | id _ | value => True
  | tag _ | behind      => False

def push : Mode → Text → Mode
  | id read, s => id (read ++ s)
  | m, _       => m

end Mode

variable {m n m' : Mode} {a b s : Text} {c : Char}

def idsFrom : Mode → Text → List Text
  | _, []     => []
  | m, c :: s => m.given c ++ idsFrom (m.next c) s

def ids (s : Text) : List Text := idsFrom .text s

-- A text that is read without surprise, from one mode to another.
inductive Reads : Mode → Text → Mode → Prop
  | nil {m : Mode} : Reads m [] m
  | cons {m m' : Mode} {c : Char} {s : Text} (takes : m.Takes c) (rest : Reads (m.next c) s m') : Reads m (c :: s) m'

theorem reads_nil : Reads m [] m' ↔ m = m' :=
  ⟨fun h => by cases h; rfl, fun h => h ▸ .nil⟩

theorem reads_cons : Reads m (c :: s) m' ↔ m.Takes c ∧ Reads (m.next c) s m' :=
  ⟨fun h => by cases h; exact ⟨‹_›, ‹_›⟩, fun h => .cons h.1 h.2⟩

instance decidableReads : ∀ (m : Mode) (s : Text) (m' : Mode), Decidable (Reads m s m')
  | _, [], _     => decidable_of_iff _ reads_nil.symm
  | m, c :: s, _ =>
    have := decidableReads (m.next c) s
    decidable_of_iff _ reads_cons.symm

abbrev Markup (s : Text) : Prop := Reads .text s .text

namespace Reads

theorem append (h : Reads m a n) (hb : Reads n b m') : Reads m (a ++ b) m' := by
  induction h
  case nil => exact hb
  case cons takes _ hi => exact .cons takes (hi hb)

theorem exists_of_append (h : Reads m (a ++ b) m') : ∃ n, Reads m a n ∧ Reads n b m' := by
  induction a generalizing m
  case nil => exact ⟨m, .nil, h⟩
  case cons c a hi =>
    have ⟨takes, rest⟩ := reads_cons.mp h
    have ⟨n, first, second⟩ := hi rest
    exact ⟨n, .cons takes first, second⟩

theorem unique (h : Reads m s n) (h' : Reads m s m') : n = m' := by
  induction h
  case nil => exact reads_nil.mp h'
  case cons hi => exact hi (reads_cons.mp h').2

theorem idsFrom_append (h : Reads m a n) (b : Text) : idsFrom m (a ++ b) = idsFrom m a ++ idsFrom n b := by
  induction h
  case nil => rfl
  case cons hi => rw [List.cons_append, idsFrom, idsFrom, hi, List.append_assoc]

theorem behind (h : Reads m (a ++ b) m') (ha : Reads m a n) : Reads n b m' := by
  have ⟨_, first, second⟩ := h.exists_of_append
  exact ha.unique first ▸ second

end Reads

theorem ids_append (h : Markup a) (b : Text) : ids (a ++ b) = ids a ++ ids b := h.idsFrom_append b

def Inline (s : Text) : Prop := ∀ c ∈ s, c ≠ '\x22' ∧ c ≠ '<' ∧ c ≠ '>' ∧ c ≠ lf

instance : DecidablePred Inline := fun s => inferInstanceAs (Decidable (∀ c ∈ s, _))

theorem Inline.append (ha : Inline a) (hb : Inline b) : Inline (a ++ b) :=
  List.forall_mem_append.mpr ⟨ha, hb⟩

theorem Mode.push_nil (m : Mode) : m.push [] = m := by
  cases m <;> simp [push]

theorem Mode.push_append (m : Mode) (a b : Text) : (m.push a).push b = m.push (a ++ b) := by
  cases m <;> simp [push]

theorem Mode.Open.push (h : m.Open) (s : Text) : (m.push s).Open := by
  cases m <;> exact h

theorem Inline.reads (h : Inline s) (hm : m.Open) : Reads m s (m.push s) ∧ idsFrom m s = [] := by
  induction s generalizing m
  case nil => exact ⟨(m.push_nil).symm ▸ .nil, rfl⟩
  case cons c s hi =>
    have ⟨⟨quote, opening, closing, feed⟩, rest⟩ := List.forall_mem_cons.mp h
    have step : m.Takes c ∧ m.given c = [] ∧ m.next c = m.push [c] := by
      cases m
      case text => exact ⟨⟨quote, closing⟩, rfl, if_neg opening⟩
      case id => exact ⟨⟨opening, closing, feed⟩, if_neg fun hc => quote hc.1, if_neg quote⟩
      case value => exact ⟨⟨opening, closing, feed⟩, rfl, if_neg quote⟩
      case tag | behind => cases hm
    have ⟨takes, given, next⟩ := step
    have ⟨reads, silent⟩ := hi rest (hm.push [c])
    rw [Mode.push_append] at reads
    exact ⟨.cons takes (next ▸ reads), by rw [idsFrom, given, next, silent]; rfl⟩

theorem Inline.markup (h : Inline s) : Markup s ∧ ids s = [] := h.reads (m := .text) trivial

section Blanks

variable (hb : ∀ c ∈ b, isBlank c = true)

include hb

theorem Reads.still (h : Reads n b m') (hm : (n = .text ∨ n = .value) ∨ m' = .text ∨ m' = .value) :
    n = m' ∧ idsFrom n b = [] := by
  induction b generalizing n
  case nil => exact ⟨reads_nil.mp h, rfl⟩
  case cons c b hi =>
    have ⟨blank, rest⟩ := List.forall_mem_cons.mp hb
    have ⟨_, reads⟩ := reads_cons.mp h
    have apart : c ≠ '>' ∧ c ≠ '\x22' ∧ c ≠ '<' := by
      refine ⟨?_, ?_, ?_⟩
      all_goals
        rintro rfl
        exact absurd blank (by decide)
    cases n
    case text | value =>
      have next (n : Mode) (hn : n = .text ∨ n = .value) : n.next c = n := by
        rcases hn with rfl | rfl <;> simp [Mode.next, apart]
      rw [next _ (by simp)] at reads
      have ⟨same, silent⟩ := hi rest reads (.inl (by simp))
      exact ⟨same, by rw [idsFrom, next _ (by simp), silent]; rfl⟩
    all_goals
      have hm := hm.resolve_left (by simp)
      have ⟨next, _⟩ := hi rest reads (.inr hm)
      rcases hm with rfl | rfl <;> simp [Mode.next, apart, blank] at next

theorem Markup.front (h : Markup (a ++ b)) : Markup a ∧ ids (a ++ b) = ids a := by
  have ⟨n, first, second⟩ := h.exists_of_append
  obtain ⟨rfl, silent⟩ := second.still hb (.inr (.inl rfl))
  exact ⟨first, by rw [ids_append first, ids, ids, silent, List.append_nil]⟩

theorem Markup.back (h : Markup (b ++ a)) : Markup a ∧ ids (b ++ a) = ids a := by
  have ⟨n, first, second⟩ := h.exists_of_append
  have ⟨here, silent⟩ := first.still hb (.inl (.inl rfl))
  subst here
  exact ⟨second, by rw [ids_append first, ids, silent, List.nil_append]⟩

end Blanks

theorem Markup.trimStart (h : Markup s) : Markup (trimStart s) ∧ ids (trimStart s) = ids s := by
  have blanks : ∀ c ∈ s.takeWhile isBlank, isBlank c = true := fun _ => List.mem_takeWhile_imp
  have parts := List.takeWhile_append_dropWhile (p := isBlank) (l := s)
  rw [← parts] at h
  have ⟨markup, same⟩ := h.back blanks
  rw [parts] at same
  exact ⟨markup, same.symm⟩

theorem exists_blanks (s : Text) : ∃ blanks, trimEnd s ++ blanks = s ∧ ∀ c ∈ blanks, isBlank c = true := by
  refine ⟨(s.reverse.takeWhile isBlank).reverse, ?_, fun _ hc => List.mem_takeWhile_imp (List.mem_reverse.mp hc)⟩
  rw [trimEnd, ← List.reverse_append, List.takeWhile_append_dropWhile, List.reverse_reverse]

theorem Markup.trimEnd (h : Markup s) : Markup (trimEnd s) ∧ ids (trimEnd s) = ids s := by
  have ⟨_, parts, blanks⟩ := exists_blanks s
  rw [← parts] at h
  have ⟨markup, same⟩ := h.front blanks
  rw [parts] at same
  exact ⟨markup, same.symm⟩

theorem Markup.trim (h : Markup s) : Markup (trim s) ∧ ids (trim s) = ids s :=
  have ⟨front, same⟩ := h.trimStart
  have ⟨back, same'⟩ := front.trimEnd
  ⟨back, same'.trans same⟩

end WikiPages.Html
