import WikiPages.Proofs.Cleanup.Passes
import WikiPages.Proofs.Report.Stripping

namespace WikiPages.Report

open Text Cleanup

variable {r : Row} {rows : List Row} {rest : Text}

def cleanStart : Text := lit "<td>"

namespace Row

def withoutWrappers (r : Row) : Row := { r with title := dropEmptyWrappers r.title }

def withoutAttributes (r : Row) : Row := { r with title := dropEmptyAttributes r.title }

def tidy (r : Row) : Row := r.withoutWrappers.withoutAttributes

theorem Sound.withoutWrappers (s : r.Sound) : r.withoutWrappers.Sound where
  named   := s.named
  file    := s.file
  inputs  := s.inputs
  outputs := s.outputs

theorem Sound.tidy (s : r.Sound) : r.tidy.Sound where
  named   := s.named
  file    := s.file
  inputs  := s.inputs
  outputs := s.outputs

theorem Sound.not_mem {c : Char} (s : r.Sound) (hc : Identifier.isTokenChar c = false)
    (hp : c ≠ '.') : c ∉ r.file ∧ c ∉ r.inputs ∧ c ∉ r.outputs := by
  have hd : c.isDigit = false := by
    cases h : c.isDigit
    case false => rfl
    case true => simp [Identifier.isTokenChar, h] at hc
  refine ⟨fun hm => ?_, fun hm => ?_, fun hm => ?_⟩
  · cases s.file c hm
    case inl h => exact Identifier.ne_of_isTokenChar h hc rfl
    case inr h => exact hp h
  · exact absurd (s.inputs c hm) (by simp [hd])
  · exact absurd (s.outputs c hm) (by simp [hd])

end Row

theorem cutsWrappers_cell : CutsWrappers (lit "</a></td>") where
  legend  := by decide
  caption := by decide
  start   := by decide
  stop    := by decide
  inside  := ⟨lit "</a", lit "</td>", rfl, by decide, by decide⟩

theorem dropEmptyWrappers_row (s : r.Sound) :
    dropEmptyWrappers (r.text strippedStart ++ '\n' :: '<' :: rest) =
      r.withoutWrappers.text strippedStart ++ '\n' :: dropEmptyWrappers ('<' :: rest) := by
  have ⟨hf, hi, ho⟩ := s.not_mem (c := '<') rfl (by decide)
  have first (s : Text) : dropEmptyWrappers (lit "<tr><td class=\"\"><a href=\"" ++ s) =
      lit "<tr><td class=\"\"><a href=\"" ++ dropEmptyWrappers s := rfl
  have behind (s : Text) : dropEmptyWrappers (lit "\">" ++ s) = lit "\">" ++ dropEmptyWrappers s := rfl
  have title (s : Text) : dropEmptyWrappers (r.title ++ (lit "</a></td>" ++ s)) =
      dropEmptyWrappers r.title ++ dropEmptyWrappers (lit "</a></td>" ++ s) :=
    Pattern.replace_append emptyWrapper_bounded (emptyWrapper_apart cutsWrappers_cell)
  have cell (s : Text) : dropEmptyWrappers (lit "</a></td>" ++ (lit "<td class=\"\">" ++ s)) =
      lit "</a></td>" ++ (lit "<td class=\"\">" ++ dropEmptyWrappers s) := rfl
  have next (s : Text) : dropEmptyWrappers (lit "</td>" ++ (lit "<td class=\"\">" ++ s)) =
      lit "</td>" ++ (lit "<td class=\"\">" ++ dropEmptyWrappers s) := rfl
  have last (s : Text) : dropEmptyWrappers (lit "</td></tr>\n" ++ s) =
      lit "</td></tr>\n" ++ dropEmptyWrappers s := rfl
  have hw : r.text strippedStart ++ '\n' :: '<' :: rest =
      lit "<tr><td class=\"\"><a href=\"" ++ (r.file ++ (lit "\">" ++ (r.title ++ (lit "</a></td>" ++
        (lit "<td class=\"\">" ++ (r.inputs ++ (lit "</td>" ++ (lit "<td class=\"\">" ++ (r.outputs ++
          (lit "</td></tr>\n" ++ '<' :: rest)))))))))) := by
    simp [Row.text, strippedStart, lit]
  rw [hw, first, dropEmptyWrappers_of_free hf, behind, title, cell, dropEmptyWrappers_of_free hi, next,
    dropEmptyWrappers_of_free ho, last]
  simp [Row.text, Row.withoutWrappers, strippedStart, lit]

theorem dropEmptyWrappers_rows (hs : ∀ r ∈ rows, r.Sound) :
    dropEmptyWrappers (join lineBreak (rows.map (Row.text strippedStart)) ++ '\n' :: '<' :: rest) =
      join lineBreak ((rows.map Row.withoutWrappers).map (Row.text strippedStart)) ++
        '\n' :: dropEmptyWrappers ('<' :: rest) :=
  Row.map_join (fun r hr _ => dropEmptyWrappers_row (hs r hr)) (fun _ => rfl) rest

theorem dropEmptyAttributes_row (s : r.Sound) :
    dropEmptyAttributes (r.text strippedStart ++ '\n' :: '<' :: rest) =
      r.withoutAttributes.text cleanStart ++ '\n' :: dropEmptyAttributes ('<' :: rest) := by
  have ⟨hf, hi, ho⟩ := s.not_mem (c := '=') rfl (by decide)
  have ⟨hq, _⟩ := s.not_mem (c := '\x22') rfl (by decide)
  have first (s : Text) : dropEmptyAttributes (lit "<tr><td class=\"\">" ++ s) =
      lit "<tr><td>" ++ dropEmptyAttributes s := rfl
  have target (t : Text) : dropEmptyAttributes (lit "<a href" ++ ('=' :: '\x22' :: (r.file ++ t))) =
      lit "<a href" ++ ('=' :: '\x22' :: dropEmptyAttributes (r.file ++ t)) := by
    cases hr : r.file
    case nil => exact absurd hr s.named
    case cons c file =>
      have hc : '\x22' ≠ c := by
        rintro rfl
        exact hq (hr ▸ List.mem_cons_self)
      rw [List.cons_append, dropEmptyAttributes_of_free (by decide) (by decide) (not_emptyValue hc)]
      exact congrArg _ (dropEmptyAttributes_value hc)
  have file (t : Text) : dropEmptyAttributes (r.file ++ '\x22' :: '>' :: t) =
      r.file ++ '\x22' :: '>' :: dropEmptyAttributes t :=
    dropEmptyAttributes_of_free hf (by decide) (not_emptyValue_of_ne (by decide))
  have title (s : Text) : dropEmptyAttributes (r.title ++ '<' :: s) =
      dropEmptyAttributes r.title ++ dropEmptyAttributes ('<' :: s) :=
    Pattern.replace_append emptyAttribute_bounded emptyAttribute_apart
  have cell (s : Text) : dropEmptyAttributes ('<' :: (lit "/a></td><td class=\"\">" ++ s)) =
      lit "</a></td><td>" ++ dropEmptyAttributes s := rfl
  have next (s : Text) : dropEmptyAttributes ('<' :: (lit "/td><td class=\"\">" ++ s)) =
      lit "</td><td>" ++ dropEmptyAttributes s := rfl
  have last (s : Text) : dropEmptyAttributes ('<' :: (lit "/td></tr>\n" ++ '<' :: s)) =
      lit "</td></tr>\n" ++ dropEmptyAttributes ('<' :: s) := rfl
  have hw : r.text strippedStart ++ '\n' :: '<' :: rest =
      lit "<tr><td class=\"\">" ++ (lit "<a href" ++ ('=' :: '\x22' :: (r.file ++ '\x22' :: '>' ::
        (r.title ++ '<' :: (lit "/a></td><td class=\"\">" ++ (r.inputs ++ '<' ::
          (lit "/td><td class=\"\">" ++ (r.outputs ++ '<' ::
            (lit "/td></tr>\n" ++ '<' :: rest))))))))) := by
    simp [Row.text, strippedStart, lit]
  have free {a : Text} (ha : '=' ∉ a) (s : Text) :
      dropEmptyAttributes (a ++ '<' :: s) = a ++ dropEmptyAttributes ('<' :: s) :=
    dropEmptyAttributes_of_free ha (by decide) (not_emptyValue_of_ne (by decide))
  rw [hw, first, target, file, title, cell, free hi, next, free ho, last]
  simp [Row.text, Row.withoutAttributes, cleanStart, lit]

theorem dropEmptyAttributes_rows (hs : ∀ r ∈ rows, r.Sound) :
    dropEmptyAttributes (join lineBreak (rows.map (Row.text strippedStart)) ++ '\n' :: '<' :: rest) =
      join lineBreak ((rows.map Row.withoutAttributes).map (Row.text cleanStart)) ++
        '\n' :: dropEmptyAttributes ('<' :: rest) :=
  Row.map_join (fun r hr _ => dropEmptyAttributes_row (hs r hr)) (fun _ => rfl) rest

theorem dropEmptyAttributes_lineBreak (rows : List Row) (start rest : Text) :
    dropEmptyAttributes ('\n' :: (join lineBreak (rows.map (Row.text start)) ++ '\n' :: '<' :: rest)) =
      '\n' :: dropEmptyAttributes (join lineBreak (rows.map (Row.text start)) ++ '\n' :: '<' :: rest) := by
  cases rows
  case nil => rfl
  case cons r rows =>
    have ⟨s, hs⟩ := Row.exists_join_of_cons r rows start ('<' :: rest)
    rw [hs]
    rfl

theorem cutsWrappers_body : CutsWrappers (lit "<tbody>\n") where
  legend  := by decide
  caption := by decide
  start   := by decide
  stop    := by decide
  inside  := ⟨lit "<tbody", lit "\n", rfl, by decide, by decide⟩

theorem exists_dropEmptyWrappers_body (hs : ∀ r ∈ rows, r.Sound) (a b : Text) :
    ∃ front, dropEmptyWrappers (a ++ (body strippedStart rows ++ b)) =
      front ++ (body strippedStart (rows.map Row.withoutWrappers) ++ dropEmptyWrappers b) := by
  have front (s : Text) : dropEmptyWrappers (a ++ (lit "<tbody>\n" ++ s)) =
      dropEmptyWrappers a ++ (lit "<tbody>\n" ++ dropEmptyWrappers s) :=
    Pattern.replace_append emptyWrapper_bounded (emptyWrapper_apart cutsWrappers_body)
  have back : dropEmptyWrappers ('<' :: (lit "/tbody>\n</table>" ++ b)) =
      '<' :: (lit "/tbody>\n</table>" ++ dropEmptyWrappers b) := rfl
  have hw : body strippedStart rows ++ b = lit "<tbody>\n" ++
      (join lineBreak (rows.map (Row.text strippedStart)) ++ '\n' :: '<' ::
        (lit "/tbody>\n</table>" ++ b)) := by
    simp [body, lit]
  refine ⟨dropEmptyWrappers a, ?_⟩
  rw [hw, front, dropEmptyWrappers_rows hs, back]
  simp [body, lit]

theorem exists_dropEmptyAttributes_body (hs : ∀ r ∈ rows, r.Sound) (a b : Text) :
    ∃ front, dropEmptyAttributes (a ++ (body strippedStart rows ++ b)) =
      front ++ (body cleanStart (rows.map Row.withoutAttributes) ++ dropEmptyAttributes b) := by
  have front (s : Text) : dropEmptyAttributes (a ++ '<' :: s) =
      dropEmptyAttributes a ++ dropEmptyAttributes ('<' :: s) :=
    Pattern.replace_append emptyAttribute_bounded emptyAttribute_apart
  have start (s : Text) : dropEmptyAttributes ('<' :: (lit "tbody>" ++ '\n' :: s)) =
      lit "<tbody>" ++ dropEmptyAttributes ('\n' :: s) := rfl
  have back : dropEmptyAttributes ('<' :: (lit "/tbody>\n</table>" ++ b)) =
      '<' :: (lit "/tbody>\n</table>" ++ dropEmptyAttributes b) := rfl
  have hw : body strippedStart rows ++ b = '<' :: (lit "tbody>" ++ '\n' ::
      (join lineBreak (rows.map (Row.text strippedStart)) ++ '\n' :: '<' ::
        (lit "/tbody>\n</table>" ++ b))) := by
    simp [body, lit]
  refine ⟨dropEmptyAttributes a, ?_⟩
  rw [hw, front, start, dropEmptyAttributes_lineBreak, dropEmptyAttributes_rows hs, back]
  simp [body, lit]

theorem exists_clean_body (hs : ∀ r ∈ rows, r.Sound) (a b : Text) :
    ∃ front, clean (a ++ (body strippedStart rows ++ b)) =
      mergeHeads (front ++ (body cleanStart (rows.map Row.tidy) ++
        dropEmptyAttributes (dropEmptyWrappers b))) := by
  have ⟨front, hf⟩ := exists_dropEmptyWrappers_body hs a b
  have hs : ∀ r ∈ rows.map Row.withoutWrappers, r.Sound := by
    intro q hq
    have ⟨r, hr, he⟩ := List.mem_map.mp hq
    exact he ▸ (hs r hr).withoutWrappers
  have ⟨front, hg⟩ := exists_dropEmptyAttributes_body hs front (dropEmptyWrappers b)
  refine ⟨front, ?_⟩
  rw [clean, hf, hg, List.map_map]
  rfl

theorem not_infix_row (s : r.Sound) (ht : ¬ headEnd <:+: r.title) {t : Text}
    (h : ¬ headEnd <:+: '<' :: t) : ¬ headEnd <:+: r.text cleanStart ++ '\n' :: '<' :: t := by
  have ⟨hf, hi, ho⟩ := s.not_mem (c := '<') rfl (by decide)
  have cut : Cuts (lit "</a></td><td>") headEnd := by decide
  have first : Avoids (lit "<tr><td><a href=\"") headEnd := by decide
  have behind : Avoids (lit "\">") headEnd := by decide
  have cell : Avoids (lit "</a></td><td>") headEnd := by decide
  have next : Avoids (lit "</td><td>") headEnd := by decide
  have last : Avoids (lit "</td></tr>\n") headEnd := by decide
  have free {a b : Text} (ha : '<' ∉ a) : headEnd <:+: a ++ b ↔ headEnd <:+: b := infix_iff_of_free ha
  have hw : r.text cleanStart ++ '\n' :: '<' :: t =
      lit "<tr><td><a href=\"" ++ (r.file ++ (lit "\">" ++ (r.title ++ (lit "</a></td><td>" ++
        (r.inputs ++ (lit "</td><td>" ++ (r.outputs ++ (lit "</td></tr>\n" ++ '<' :: t)))))))) := by
    simp [Row.text, cleanStart, lit]
  rw [hw, first.infix_iff, free hf, behind.infix_iff, cut.infix_iff (by decide), not_or, cell.infix_iff,
    free hi, next.infix_iff, free ho, last.infix_iff]
  exact ⟨ht, h⟩

theorem cutsHeads_body {b : Text} (hs : ∀ r ∈ rows, r.Sound) (ht : ∀ r ∈ rows, ¬ headEnd <:+: r.title)
    (hb : ¬ headEnd <:+: b) :
    CutsHeads (lit "<tbody>\n") (join lineBreak (rows.map (Row.text cleanStart)) ++
      '\n' :: '<' :: (lit "/tbody>\n</table>" ++ b)) where
  start := by decide
  stop  := by decide
  none  := by
    have hn : ¬ headEnd <:+: lit "\n</tbody>\n</table>" ++ b := by
      have : Avoids (lit "\n</tbody>\n</table>") headEnd := by decide
      rwa [this.infix_iff]
    have hl : ¬ headEnd <:+: lit "</tbody>\n</table>" ++ b := by
      have : Avoids (lit "</tbody>\n</table>") headEnd := by decide
      rwa [this.infix_iff]
    have first : Avoids (lit "<tbody>\n") headEnd := by decide
    rw [first.infix_iff]
    exact Row.join_induction (P := fun s => ¬ headEnd <:+: s)
      (fun r hr _ => not_infix_row (hs r hr) (ht r hr)) hn hl

theorem exists_mergeHeads_body {b : Text} (hs : ∀ r ∈ rows, r.Sound)
    (ht : ∀ r ∈ rows, ¬ headEnd <:+: r.title) (hb : ¬ headEnd <:+: b) (a : Text) :
    ∃ front, mergeHeads (a ++ (body cleanStart rows ++ b)) = front ++ (body cleanStart rows ++ b) := by
  have hw : body cleanStart rows ++ b = lit "<tbody>\n" ++
      (join lineBreak (rows.map (Row.text cleanStart)) ++ '\n' :: '<' ::
        (lit "/tbody>\n</table>" ++ b)) := by
    simp [body, lit]
  rw [hw]
  exact exists_mergeHeads (cutsHeads_body hs ht hb) a

end WikiPages.Report
