import WikiPages.Proofs.Site.Independence
import WikiPages.Proofs.Text.Lines

namespace WikiPages.Site

open Text

variable {site : Site} {s s' : Text}

def reading (site : Site) (dictionary : Text) : Site :=
  { site with expander := { site.expander with dictionary := Dictionary.parse dictionary } }

theorem rawPages_on (site : Site) (s : Text) (written : List Text) :
    (site.on s).rawPages written = site.rawPages written := rfl

theorem pages_congr (h : lines s = lines s') : (site.on s).pages = (site.on s').pages := by
  rw [pages, pages, rawPages_on, rawPages_on]
  change site.rawPages (lines s) >>= _ = site.rawPages (lines s') >>= _
  rw [h]
  rfl

theorem output_congr (h : lines s = lines s') : (site.on s).output = (site.on s').output := by
  rw [output, output, pages_congr h]
  rfl

theorem parse_congr (h : lines s = lines s') : Dictionary.parse s = Dictionary.parse s' := by
  rw [Dictionary.parse, Dictionary.parse, h]

-- Lines with any line end between them are read back, a text is its lines but for the line ends, and nothing that is
-- made of a specification or a dictionary depends on those, whether it is taken from a file or not.
theorem line_ends_immaterial :
    (∀ ending ∈ breaks, ∀ ls, ls ≠ [] → (∀ line ∈ ls, IsLine line) → lines (join ending ls) = ls) ∧
    (∀ s, (∀ line ∈ lines s, cr ∉ line ∧ lf ∉ line) ∧
      join [lf] (lines s) = replaceAll [cr] [lf] (replaceAll [cr, lf] [lf] s) ∧
      ∀ ending ∈ breaks, unified (join ending (lines s)) = unified s) ∧
    ∀ s s', unified s = unified s' →
      unified (dropFinalBreak s) = unified (dropFinalBreak s') ∧
      Dictionary.parse s = Dictionary.parse s' ∧
      ∀ site : Site,
        (site.on s).pages = (site.on s').pages ∧ (site.on s).output = (site.on s').output ∧
        (site.reading s).pages = (site.reading s').pages ∧ (site.reading s).output = (site.reading s').output := by
  refine ⟨fun ending ht ls hne hl => lines_join hne hl ht,
    fun s => ⟨lines_free s, join_lines_eq_unified s, fun ending ht => unified_join_lines s ht⟩, ?_⟩
  intro s s' h
  have same := lines_eq_iff.mpr h
  have parsed := parse_congr same
  refine ⟨?_, parsed, fun site => ⟨pages_congr same, output_congr same, ?_, ?_⟩⟩
  · rw [← lines_eq_iff, lines_dropFinalBreak, lines_dropFinalBreak, same]
  · rw [reading, reading, parsed]
  · rw [reading, reading, parsed]

theorem line_ends_mixed :
    (headed.on (lit "== Home\r\n\r* Hello\n")).pages = (headed.on (lit "== Home\n\n* Hello\n")).pages := by
  have ⟨_, _, same⟩ := line_ends_immaterial
  have ⟨_, _, made⟩ := same (lit "== Home\r\n\r* Hello\n") (lit "== Home\n\n* Hello\n") (by decide)
  exact (made headed).1

end WikiPages.Site
