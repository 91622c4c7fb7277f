import Mathlib.Data.List.TakeWhile
import WikiPages.Specification.Directive

namespace WikiPages.Line

open Text

def leading (line : Text) : Text := line.takeWhile fun c => c == ' ' || c == '\t' || isMarker c

def markers (s : Text) : Nat := s.countP isMarker

variable {line : Text}

theorem leading_append (line : Text) : leading line ++ withoutMarkers line = line :=
  List.takeWhile_append_dropWhile

theorem not_isMarker_of_head? {c : Char} (h : (withoutMarkers line).head? = some c) :
    isMarker c = false ∧ c ≠ ' ' ∧ c ≠ '\t' := by
  have := List.head?_dropWhile_not (fun c => c == ' ' || c == '\t' || isMarker c) line
  rw [← withoutMarkers, h] at this
  simp only [Bool.or_eq_false_iff, beq_eq_false_iff_ne] at this
  exact ⟨this.2, this.1.1, this.1.2⟩

theorem level_eq (line : Text) : level line = markers ((leading line).takeWhile (· != '\t')) := by
  have front : (leading line).takeWhile (· != '\t') = line.takeWhile fun c => c == ' ' || isMarker c := by
    rw [leading, List.takeWhile_takeWhile]
    congr 1
    funext c
    rw [Bool.eq_iff_iff]
    by_cases h : c = '\t'
    case pos => simp [h, isMarker]
    case neg => simp [h]
  rw [front, markers, List.countP_eq_length_filter, level]

theorem markers_leading (line : Text) :
    markers (leading line) = level line + markers ((leading line).dropWhile (· != '\t')) := by
  rw [level_eq, markers, markers, markers, ← List.countP_append, List.takeWhile_append_dropWhile]

theorem markers_dropWhile_eq_zero_iff (s : Text) :
    markers (s.dropWhile (· != '\t')) = 0 ↔ ∀ back, '\t' :: back <:+ s → markers back = 0 := by
  induction s
  case nil => simp [markers]
  case cons c s hi =>
    by_cases h : c = '\t'
    case pos =>
      subst h
      have drops : markers (('\t' :: s).dropWhile (· != '\t')) = markers s := by simp [markers, isMarker]
      rw [drops]
      constructor
      case mp =>
        intro hm back hb
        exact Nat.eq_zero_of_le_zero (hm ▸ hb.sublist.of_cons_cons.countP_le)
      case mpr => exact fun hm => hm s List.suffix_rfl
    case neg =>
      have drops : (c :: s).dropWhile (· != '\t') = s.dropWhile (· != '\t') :=
        List.dropWhile_cons_of_pos (by simpa using h)
      rw [drops, hi]
      constructor
      case mp =>
        intro hm back hb
        exact hm back ((List.suffix_cons_iff.mp hb).resolve_left fun he => h (List.cons.inj he).1.symm)
      case mpr => exact fun hm back hb => hm back (hb.trans (List.suffix_cons _ _))

-- A line without a directive is read without all markers at its start, to the last one. They are the markers that it
-- nests by and those that stand behind a tab. So they are as many as it nests deep exactly if none stands behind a tab.
theorem stripped_eq_level_iff (h : Directive.braces? line = none) :
    (Directive.parse line).parameters = Parameter.list (withoutMarkers line) ∧
      leading line ++ withoutMarkers line = line ∧
      (∀ c, (withoutMarkers line).head? = some c → isMarker c = false ∧ c ≠ ' ' ∧ c ≠ '\t') ∧
      markers (leading line) = level line + markers ((leading line).dropWhile (· != '\t')) ∧
      (markers (leading line) = level line ↔ ∀ back, '\t' :: back <:+ leading line → markers back = 0) := by
  have counted := markers_leading line
  refine ⟨?_, leading_append line, fun c => not_isMarker_of_head?, counted, ?_⟩
  · rw [Directive.parse, h]
    rfl
  · rw [← markers_dropWhile_eq_zero_iff, counted]
    exact Nat.add_eq_left

theorem stripped_eq_level_spaced :
    Directive.braces? (lit " *# #\t x * y") = none ∧ markers (leading (lit " *# #\t x * y")) = 3 ∧
      markers (leading (lit " *# #\t x * y")) = level (lit " *# #\t x * y") := by
  have free : Directive.braces? (lit " *# #\t x * y") = none := by decide
  have ⟨_, _, _, _, same⟩ := stripped_eq_level_iff free
  refine ⟨free, by decide, same.mpr ?_⟩
  exact (markers_dropWhile_eq_zero_iff _).mp (by decide)

-- The marker behind a tab is stripped, and the line does not nest by it.
theorem not_stripped_eq_level_tabbed :
    ¬ ∀ line, Directive.braces? line = none → markers (leading line) = level line := by
  intro h
  exact absurd (h (lit "\t* item") (by decide)) (by decide)

end WikiPages.Line
