import Mathlib
import WikiPages.Proofs.Site.Slot

namespace WikiPages

open Text

def EndsLine (s : Text) : Prop := ∃ front c, s = front ++ [c, lf] ∧ isBlank c = false

structure Snippet.IsLines (f : Snippet) : Prop where
  head : EndsLine f.head
  tail : f.tail = some lineBreak

namespace PageTree

open Visit

variable {t : PageTree} {nodes : List Nat} {visits : List Visit} {s : Text}

theorem endsLine_append (a : Text) (h : EndsLine s) : EndsLine (a ++ s) := by
  have ⟨front, c, hs, hc⟩ := h
  exact ⟨a ++ front, c, by simp [hs], hc⟩

theorem put_slot (h : EndsLine s) : (Mark.slot :: lineBreak.map .char).foldl Mark.put s.reverse = s.reverse := by
  have ⟨front, c, hs, hc⟩ := h
  have blank : isBlank lf = true := rfl
  simp [hs, Mark.put, lineBreak, blank, hc]

-- After a node is entered the output ends a line, and leaving it changes nothing then. So nothing is written but
-- what the nodes are entered with.
theorem Walk.foldl_put (w : t.Walk nodes visits)
    (h : ∀ n ∈ entered visits, ∃ f, t.snippet? n = some f ∧ f.IsLines) (output : Text) :
    (visits.flatMap t.marks).foldl Mark.put output.reverse =
      (output ++ (entered visits).flatMap fun n => t.written (.enter n)).reverse := by
  induction w generalizing output
  case done => simp [entered]
  case node n rest inner after _ _ hi hi' =>
    simp only [List.cons_append, entered_enter, entered_append, entered_leave, List.forall_mem_cons,
      List.forall_mem_append] at h
    obtain ⟨⟨f, hf, lines⟩, within, behind⟩ := h
    have head : t.marks (.enter n) = f.head.map .char := by simp [marks, hf]
    have leave : t.marks (.leave n) = .slot :: lineBreak.map .char := by simp [marks, hf, lines.tail]
    have ended : EndsLine (output ++ f.head ++ (entered inner).flatMap fun n => t.written (.enter n)) := by
      cases hn : entered inner using List.reverseRecOn
      case nil => simpa using endsLine_append output lines.head
      case append_singleton front m _ =>
        obtain ⟨g, hg, lines⟩ := within m (by simp [hn])
        simpa [written, hg] using
          endsLine_append (output ++ f.head ++ front.flatMap fun n => t.written (.enter n)) lines.head
    calc
      _ = (after.flatMap t.marks).foldl Mark.put ((t.marks (.leave n)).foldl Mark.put
            ((inner.flatMap t.marks).foldl Mark.put ((t.marks (.enter n)).foldl Mark.put output.reverse))) := by
        simp
      _ = (after.flatMap t.marks).foldl Mark.put ((t.marks (.leave n)).foldl Mark.put
            (output ++ f.head ++ (entered inner).flatMap fun n => t.written (.enter n)).reverse) := by
        rw [head, Mark.foldl_put_map_char, ← List.reverse_append, hi within]
      _ = (output ++ f.head ++ ((entered inner).flatMap fun n => t.written (.enter n)) ++
            (entered after).flatMap fun n => t.written (.enter n)).reverse := by
        rw [leave, put_slot ended, hi' behind]
      _ = _ := by simp [written, hf]

end PageTree

namespace Draft

open PageTree Visit

variable {lines : Steps}

-- However the lines nest, the page shows them one after the other. The slot of the page takes the blank end of
-- what is in front of it.
theorem render_lines (title head tail : Text) (h : ∀ line ∈ lines, line.2.IsLines) :
    (run title (.withSlot head tail) lines).tree.render =
      trimEnd (head ++ lines.flatMap (·.2.head)) ++ tail := by
  have ⟨inner, between, content⟩ := around_render title (.withSlot head tail) lines
  have entered_lines : ∀ n ∈ entered inner, ∃ f,
      (run title (.withSlot head tail) lines).tree.snippet? n = some f ∧ f.IsLines := by
    intro n hn
    have shown := List.mem_map_of_mem (f := (run title (.withSlot head tail) lines).tree.snippet?) hn
    rw [between.order] at shown
    have ⟨line, hl, hs⟩ := List.mem_map.mp shown
    exact ⟨line.2, hs.symm, h line hl⟩
  have heads : ((entered inner).flatMap fun n =>
      (run title (.withSlot head tail) lines).tree.written (.enter n)) = lines.flatMap (·.2.head) := by
    have := congrArg (List.flatMap fun f => (f.map (·.head)).getD []) between.order
    simpa [List.flatMap_map, written] using this
  have put := between.walk.foldl_put entered_lines head
  rw [heads] at put
  generalize inner.flatMap (run title (.withSlot head tail) lines).tree.marks = marks at put content
  rw [content, ← Mark.reverse_foldl_put_nil]
  simp [Snippet.withSlot, Mark.foldl_put_map_char, put, Mark.put, trimEnd]

end Draft
end WikiPages
