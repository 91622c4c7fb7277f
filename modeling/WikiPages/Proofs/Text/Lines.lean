import WikiPages.Proofs.Text.Scan
import WikiPages.Text.Lines

namespace WikiPages.Text

variable {line rest ending : Text} {c : Char}

def IsLine (line : Text) : Prop := cr ∉ line ∧ lf ∉ line

instance : Decidable (IsLine line) :=
  inferInstanceAs (Decidable (_ ∧ _))

theorem IsLine.head (h : IsLine (c :: line)) : c ≠ cr ∧ c ≠ lf := by
  constructor
  · rintro rfl
    exact h.1 List.mem_cons_self
  · rintro rfl
    exact h.2 List.mem_cons_self

theorem IsLine.tail (h : IsLine (c :: line)) : IsLine line :=
  ⟨fun hm => h.1 (List.mem_cons_of_mem c hm), fun hm => h.2 (List.mem_cons_of_mem c hm)⟩

theorem lines_cons (hr : c ≠ cr) (hf : c ≠ lf) {first : Text} {others : List Text}
    (h : lines rest = first :: others) : lines (c :: rest) = (c :: first) :: others := by
  rw [lines]
  · rw [if_neg (not_or.mpr ⟨hr, hf⟩), h]
  · intro s hc _
    exact hr hc

theorem lines_of_isLine (h : IsLine line) : lines line = [line] := by
  induction line
  case nil => rfl
  case cons c line hi =>
    exact lines_cons h.head.1 h.head.2 (hi h.tail)

def breaks : List Text := [[lf], [cr], [cr, lf]]

-- The text with line feeds only: one for each pair, and one for each carriage return that is left.
def unified (s : Text) : Text := replaceAll [cr] [lf] (replaceAll [cr, lf] [lf] s)

theorem lines_cr (h : rest.head? ≠ some lf) : lines (cr :: rest) = [] :: lines rest := by
  rw [lines]
  · exact if_pos (.inl rfl)
  · rintro s _ rfl
    exact h rfl

theorem lines_append_break (hl : IsLine line) (ht : ending ∈ breaks) (h : ending = [cr] → rest.head? ≠ some lf) :
    lines (line ++ ending ++ rest) = line :: lines rest := by
  induction line
  case nil =>
    simp only [breaks, List.mem_cons, List.not_mem_nil, or_false] at ht
    rcases ht with rfl | rfl | rfl
    · rfl
    · exact lines_cr (h rfl)
    · rfl
  case cons c line hi =>
    exact lines_cons hl.head.1 hl.head.2 (hi hl.tail)

theorem lines_append (h : IsLine line) (rest : Text) : lines (line ++ lineBreak ++ rest) = line :: lines rest :=
  lines_append_break h List.mem_cons_self fun hr => absurd hr (by decide)

theorem lines_join {ls : List Text} (hne : ls ≠ []) (hl : ∀ line ∈ ls, IsLine line) (ht : ending ∈ breaks) :
    lines (join ending ls) = ls := by
  induction ls
  case nil => contradiction
  case cons line ls hi =>
    have ⟨first, others⟩ := List.forall_mem_cons.mp hl
    cases ls
    case nil => exact lines_of_isLine first
    case cons next ls =>
      rw [join_cons_cons, lines_append_break first ht, hi (List.cons_ne_nil _ _) others]
      -- between carriage returns no text begins with a line feed
      rintro rfl hf
      have hn := (others next List.mem_cons_self).2
      cases ls <;> cases next <;> simp_all [cr, lf]

theorem unified_cons (hr : c ≠ cr) (s : Text) : unified (c :: s) = c :: unified s := by
  have miss (old : Text) : (cr :: old).isPrefixOf? (c :: s) = none := by simp [isPrefixOf?_cons_cons, Ne.symm hr]
  rw [unified, replaceAll_cons _ (miss [lf]), replaceAll_cons]
  · rfl
  · simp [isPrefixOf?_cons_cons, Ne.symm hr]

theorem unified_crlf (s : Text) : unified (cr :: lf :: s) = lf :: unified s := by
  have pair : replaceAll [cr, lf] [lf] (cr :: lf :: s) = lf :: replaceAll [cr, lf] [lf] s :=
    replaceAll_append (List.cons_ne_nil cr [lf]) [lf] s
  rw [unified, pair, replaceAll_cons [lf] rfl, unified]

theorem unified_cr (h : rest.head? ≠ some lf) : unified (cr :: rest) = lf :: unified rest := by
  have miss : List.isPrefixOf? [cr, lf] (cr :: rest) = none := by
    cases rest
    case nil => rfl
    case cons c rest =>
      have : lf ≠ c := fun hc => h (congrArg some hc.symm)
      simp [isPrefixOf?_cons_cons, this]
  rw [unified, replaceAll_cons [lf] miss]
  exact replaceAll_append (List.cons_ne_nil cr []) [lf] _

theorem join_lines_eq_unified (s : Text) : join lineBreak (lines s) = unified s := by
  have join_lines_cons (s : Text) : join lineBreak ([] :: lines s) = lf :: join lineBreak (lines s) := by
    obtain ⟨first, others, h⟩ := List.exists_cons_of_ne_nil (lines_ne_nil s)
    rw [h]
    rfl
  fun_induction lines s
  case case1 => rfl
  case case2 s hi =>
    rw [join_lines_cons, hi]
    exact (unified_crlf s).symm
  case case3 c s hn h hi =>
    rw [join_lines_cons, hi]
    rcases h with rfl | rfl
    · refine (unified_cr fun hf => ?_).symm
      obtain ⟨rest, hr⟩ := List.head?_eq_some_iff.mp hf
      exact hn rest rfl hr
    · exact (unified_cons (by decide) s).symm
  case case4 s _ _ hl _ => exact absurd hl (lines_ne_nil s)
  case case5 c s _ h first others hl hi =>
    obtain ⟨hr, _⟩ := not_or.mp h
    rw [unified_cons hr, ← hi, hl]
    cases others <;> rfl

theorem join_lines (h : cr ∉ rest) : join lineBreak (lines rest) = rest := by
  rw [join_lines_eq_unified, unified, replaceAll_eq_self h, replaceAll_eq_self h]

-- Texts are cut into the same lines when they differ in their line ends only.
theorem lines_eq_iff {s s' : Text} : lines s = lines s' ↔ unified s = unified s' := by
  have lines_unified (s : Text) : lines (unified s) = lines s := by
    rw [← join_lines_eq_unified]
    exact lines_join (lines_ne_nil s) (lines_free s) List.mem_cons_self
  constructor
  · intro h
    rw [← join_lines_eq_unified, h, join_lines_eq_unified]
  · intro h
    rw [← lines_unified s, h, lines_unified]

theorem unified_join_lines (s : Text) (ht : ending ∈ breaks) : unified (join ending (lines s)) = unified s :=
  lines_eq_iff.mp (lines_join (lines_ne_nil s) (lines_free s) ht)

theorem exists_of_lines_append {a b : Text} (h : a.getLast? = some cr → b.head? ≠ some lf) :
    ∃ front last first others, lines a = front ++ [last] ∧ lines b = first :: others ∧
      lines (a ++ b) = front ++ (last ++ first) :: others := by
  obtain ⟨first, others, hb⟩ := List.exists_cons_of_ne_nil (lines_ne_nil b)
  have further {c : Char} {s : Text} (h : (c :: s).getLast? = some cr → b.head? ≠ some lf) :
      s.getLast? = some cr → b.head? ≠ some lf := fun hs => h (by simp [List.getLast?_cons, hs])
  fun_induction lines a
  case case1 => exact ⟨[], [], first, others, rfl, hb, hb⟩
  case case2 s hi =>
    obtain ⟨front, last, first, others, ha, hb, hab⟩ := hi (further (further h))
    exact ⟨[] :: front, last, first, others, congrArg _ ha, hb, congrArg ([] :: ·) hab⟩
  case case3 c s hn hc hi =>
    obtain ⟨front, last, first, others, ha, hb, hab⟩ := hi (further h)
    refine ⟨[] :: front, last, first, others, congrArg _ ha, hb, ?_⟩
    have : lines (c :: (s ++ b)) = [] :: lines (s ++ b) := by
      rcases hc with rfl | rfl
      · apply lines_cr
        cases s
        case nil => exact h rfl
        case cons d s =>
          intro hd
          exact hn s rfl (congrArg (· :: s) (Option.some.inj hd))
      · rfl
    rw [List.cons_append, this, hab]
    rfl
  case case4 s _ _ hl _ => exact absurd hl (lines_ne_nil s)
  case case5 c s _ hc line rest hl hi =>
    obtain ⟨front, last, first, others, ha, hb, hab⟩ := hi (further h)
    obtain ⟨hr, hf⟩ := not_or.mp hc
    rw [hl] at ha
    cases front
    case nil =>
      cases ha
      exact ⟨[], c :: line, first, others, rfl, hb, lines_cons hr hf hab⟩
    case cons piece front =>
      cases ha
      exact ⟨(c :: line) :: front, last, first, others, rfl, hb, lines_cons hr hf hab⟩

theorem lines_append_ending {s : Text} (ht : ending ∈ breaks) (h : s.getLast? = some cr → ending.head? ≠ some lf) :
    lines (s ++ ending) = lines s ++ [[]] := by
  have ⟨front, last, first, others, hs, he, both⟩ := exists_of_lines_append h
  have two : lines ending = [[], []] := by
    simp only [breaks, List.mem_cons, List.not_mem_nil, or_false] at ht
    rcases ht with rfl | rfl | rfl <;> rfl
  cases he.symm.trans two
  rw [both, hs]
  simp

theorem getLast?_lines_concat {c : Char} (hc : IsLine [c]) (s : Text) : (lines (s ++ [c])).getLast? ≠ some [] := by
  have ⟨front, last, first, others, _, hl, both⟩ :=
    exists_of_lines_append (a := s) (b := [c]) fun _ he => hc.head.2 (Option.some.inj he)
  cases hl.symm.trans (lines_of_isLine hc)
  rw [both, List.getLast?_concat]
  simp

theorem lines_dropFinalBreak (s : Text) :
    lines (dropFinalBreak s) =
      if (lines s).getLast? = some [] ∧ (lines s).dropLast ≠ [] then (lines s).dropLast else lines s := by
  have ended (front ending : Text) (ht : ending ∈ breaks)
      (h : front.getLast? = some cr → ending.head? ≠ some lf) (hs : s.reverse = (front ++ ending).reverse) :
      lines front = if (lines s).getLast? = some [] ∧ (lines s).dropLast ≠ [] then (lines s).dropLast else lines s := by
    rw [List.reverse_injective hs, lines_append_ending ht h, List.getLast?_concat, List.dropLast_concat,
      if_pos ⟨rfl, lines_ne_nil front⟩]
  rw [dropFinalBreak]
  split
  case h_1 rest hs =>
    exact ended rest.reverse [cr, lf] (by decide) (fun _ => by decide) (by rw [hs, List.reverse_append]; simp [cr, lf])
  case h_2 rest hn hs =>
    refine ended rest.reverse [lf] (by decide) (fun hl => ?_) (by rw [hs, List.reverse_append]; simp [lf])
    rw [List.getLast?_reverse] at hl
    have ⟨_, hr⟩ := List.head?_eq_some_iff.mp hl
    exact (hn _ hr).elim
  case h_3 rest hs =>
    exact ended rest.reverse [cr] (by decide) (fun _ => by decide) (by rw [hs, List.reverse_append]; simp [cr])
  case h_4 _ hf hr =>
    cases hs : s.reverse
    case nil =>
      cases List.reverse_eq_nil_iff.mp hs
      rfl
    case cons c rest =>
      have plain : IsLine [c] := by
        constructor
        · rintro h
          cases List.mem_singleton.mp h
          exact hr rest hs
        · rintro h
          cases List.mem_singleton.mp h
          exact hf rest hs
      have parts : s = rest.reverse ++ [c] := by rw [← List.reverse_cons, ← hs, List.reverse_reverse]
      rw [if_neg fun h => getLast?_lines_concat plain rest.reverse (parts ▸ h.1)]

end WikiPages.Text
