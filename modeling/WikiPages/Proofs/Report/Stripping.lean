import WikiPages.Proofs.Report.Row
import WikiPages.Proofs.Template.Filling

namespace WikiPages.Report

open Text Hole

variable {r : Row} {rows : List Row} {rest : Text}

def cellStart : Text := lit "<td class=\"$\x7bclass\x7d\">"

def strippedStart : Text := lit "<td class=\"\">"

theorem strip_row (s : r.Sound) (ht : '$' ∉ r.title) :
    stripUnfilled (r.text cellStart ++ '\n' :: '<' :: rest) =
      r.text strippedStart ++ '\n' :: stripUnfilled ('<' :: rest) := by
  have hf : '$' ∉ r.file := fun hm => (s.file _ hm).elim (by decide) (by decide)
  have hi : '$' ∉ r.inputs := fun hm => absurd (s.inputs _ hm) (by decide)
  have ho : '$' ∉ r.outputs := fun hm => absurd (s.outputs _ hm) (by decide)
  have first (s : Text) : stripUnfilled (lit "<tr><td class=\"$\x7bclass\x7d\"><a href=\"" ++ s) =
      lit "<tr><td class=\"\"><a href=\"" ++ stripUnfilled s := rfl
  have next (s : Text) : stripUnfilled ('<' :: (lit "td class=\"$\x7bclass\x7d\">" ++ s)) =
      strippedStart ++ stripUnfilled s := rfl
  have ha : '$' ∉ r.file ++ lit "\">" ++ r.title ++ lit "</a></td>" := by
    simp only [List.mem_append, not_or]
    exact ⟨⟨⟨hf, by decide⟩, ht⟩, by decide⟩
  have hb : '$' ∉ r.inputs ++ lit "</td>" := by
    simp only [List.mem_append, not_or]
    exact ⟨hi, by decide⟩
  have hc : '$' ∉ r.outputs ++ lit "</td></tr>\n" := by
    simp only [List.mem_append, not_or]
    exact ⟨ho, by decide⟩
  have hw : r.text cellStart ++ '\n' :: '<' :: rest =
      lit "<tr><td class=\"$\x7bclass\x7d\"><a href=\"" ++
        ((r.file ++ lit "\">" ++ r.title ++ lit "</a></td>") ++
          '<' :: (lit "td class=\"$\x7bclass\x7d\">" ++ ((r.inputs ++ lit "</td>") ++
            '<' :: (lit "td class=\"$\x7bclass\x7d\">" ++
              ((r.outputs ++ lit "</td></tr>\n") ++ '<' :: rest))))) := by
    simp [Row.text, cellStart, lit]
  rw [hw, first, stripUnfilled_of_free ha (by decide), next, stripUnfilled_of_free hb (by decide), next,
    stripUnfilled_of_free hc (by decide)]
  simp [Row.text, strippedStart, lit]

theorem strip_rows (hs : ∀ r ∈ rows, r.Sound) (ht : ∀ r ∈ rows, '$' ∉ r.title) :
    stripUnfilled (join lineBreak (rows.map (Row.text cellStart)) ++ '\n' :: '<' :: rest) =
      join lineBreak (rows.map (Row.text strippedStart)) ++ '\n' :: stripUnfilled ('<' :: rest) := by
  have := @Row.map_join rows cellStart strippedStart stripUnfilled id
    (fun r hr _ => strip_row (hs r hr) (ht r hr)) (fun _ => rfl) rest
  rwa [List.map_id] at this

end WikiPages.Report
