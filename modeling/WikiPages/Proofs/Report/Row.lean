import WikiPages.Proofs.Report.Document

namespace WikiPages.Report

open Text

structure Row where
  file    : Text
  title   : Text
  inputs  : Text
  outputs : Text
  deriving DecidableEq

namespace Row

structure Sound (r : Row) : Prop where
  named   : r.file ≠ []
  file    : ∀ c ∈ r.file, Identifier.isTokenChar c = true ∨ c = '.'
  inputs  : ∀ c ∈ r.inputs, c.isDigit = true
  outputs : ∀ c ∈ r.outputs, c.isDigit = true

def ofPage (p : Page) : Row := ⟨p.file, p.title, ofNat p.inputs, ofNat p.outputs⟩

def text (start : Text) (r : Row) : Text :=
  lit "<tr>" ++ start ++ lit "<a href=\"" ++ r.file ++ lit "\">" ++ r.title ++ lit "</a></td>" ++
    start ++ r.inputs ++ lit "</td>" ++ start ++ r.outputs ++ lit "</td></tr>"

theorem sound_ofPage (p : Page) : (ofPage p).Sound where
  named   := List.append_ne_nil_of_right_ne_nil _ (by decide)
  file    := fun _ => isTokenChar_or_of_mem_file
  inputs  := fun _ => Nat.isDigit_of_mem_toDigits (by decide) (by decide)
  outputs := fun _ => Nat.isDigit_of_mem_toDigits (by decide) (by decide)

theorem exists_join_of_cons (r : Row) (rows : List Row) (start rest : Text) :
    ∃ s, join lineBreak ((r :: rows).map (text start)) ++ '\n' :: rest = '<' :: s := by
  cases rows <;> exact ⟨_, rfl⟩

theorem exists_join (rows : List Row) (start rest : Text) :
    ∃ c s, join lineBreak (rows.map (text start)) ++ '\n' :: rest = c :: s ∧ (c = '<' ∨ c = '\n') := by
  cases rows
  case nil => exact ⟨_, _, rfl, .inr rfl⟩
  case cons r rows =>
    have ⟨s, hs⟩ := exists_join_of_cons r rows start rest
    exact ⟨'<', s, hs, .inl rfl⟩

theorem exists_join_cons (r q : Row) (rows : List Row) (start rest : Text) :
    ∃ s, join lineBreak ((q :: rows).map (text start)) ++ '\n' :: '<' :: rest = '<' :: s ∧
      join lineBreak ((r :: q :: rows).map (text start)) ++ '\n' :: '<' :: rest =
        r.text start ++ '\n' :: '<' :: s := by
  have ⟨s, hs⟩ := exists_join_of_cons q rows start ('<' :: rest)
  refine ⟨s, hs, ?_⟩
  rw [← hs]
  simp [lineBreak, lf]

theorem map_join {rows : List Row} {start start' : Text} {change : Text → Text} {shown : Row → Row}
    (hr : ∀ r ∈ rows, ∀ rest, change (r.text start ++ '\n' :: '<' :: rest) =
      (shown r).text start' ++ '\n' :: change ('<' :: rest))
    (hn : ∀ rest, change ('\n' :: '<' :: rest) = '\n' :: change ('<' :: rest)) (rest : Text) :
    change (join lineBreak (rows.map (text start)) ++ '\n' :: '<' :: rest) =
      join lineBreak ((rows.map shown).map (text start')) ++ '\n' :: change ('<' :: rest) := by
  induction rows
  case nil => exact hn rest
  case cons r rows hi =>
    replace hi := hi fun r hm => hr r (List.mem_cons_of_mem _ hm)
    have hf := hr r List.mem_cons_self
    clear hr
    cases rows
    case nil => exact hf rest
    case cons q rows =>
      have ⟨s, hs, hj⟩ := exists_join_cons r q rows start rest
      rw [hj, hf, ← hs, hi]
      simp [lineBreak, lf]

theorem join_induction {rows : List Row} {start rest : Text} {P : Text → Prop}
    (hr : ∀ r ∈ rows, ∀ s, P ('<' :: s) → P (r.text start ++ '\n' :: '<' :: s))
    (hn : P ('\n' :: '<' :: rest)) (h : P ('<' :: rest)) :
    P (join lineBreak (rows.map (text start)) ++ '\n' :: '<' :: rest) := by
  induction rows
  case nil => exact hn
  case cons r rows hi =>
    replace hi := hi fun r hm => hr r (List.mem_cons_of_mem _ hm)
    have hf := hr r List.mem_cons_self
    clear hr
    cases rows
    case nil => exact hf rest h
    case cons q rows =>
      have ⟨s, hs, hj⟩ := exists_join_cons r q rows start rest
      rw [hs] at hi
      rw [hj]
      exact hf s hi

end Row

def body (start : Text) (rows : List Row) : Text :=
  lit "<tbody>\n" ++ (join lineBreak (rows.map (Row.text start)) ++ lit "\n</tbody>\n</table>")

end WikiPages.Report
