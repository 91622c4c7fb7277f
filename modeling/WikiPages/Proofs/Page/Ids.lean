import WikiPages.Proofs.Html.Sheets
import WikiPages.Proofs.Page.Nesting

namespace WikiPages

open Text Html

namespace PageTree

open Visit

variable {t : PageTree} {visits : List Visit}

namespace Mark

theorem erase_append (s : Text) (marks : List Mark) :
    erase (s.map char ++ marks) = (if slotNext marks then trimEnd s else s) ++ erase marks := by
  rw [← reverse_foldl_put_nil, List.foldl_append, foldl_put_map_char, reverse_foldl_put, List.append_nil,
    List.reverse_reverse]

end Mark

theorem layout_written (h : ∀ n, ∀ f ∈ t.snippet? n, f.Laid) (visit : Visit) : Layout (t.written visit) := by
  have nothing : Layout [] := .of_free List.not_mem_nil .nil
  cases visit
  case enter n =>
    cases hf : t.snippet? n
    case none => simpa [written, hf] using nothing
    case some f => simpa [written, hf] using (h n f hf).head
  case leave n =>
    cases hf : t.snippet? n
    case none => simpa [written, hf] using nothing
    case some f => simpa [written, hf] using (h n f hf).tail

theorem ids_erase (h : ∀ n, ∀ f ∈ t.snippet? n, f.Laid) (visits : List Visit) :
    Layout (Mark.erase (visits.flatMap t.marks)) ∧
      ids (Mark.erase (visits.flatMap t.marks)) = visits.flatMap fun visit => ids (t.written visit) := by
  induction visits
  case nil => exact ⟨.of_free List.not_mem_nil .nil, rfl⟩
  case cons visit visits hi =>
    have ⟨rest, same⟩ := hi
    have one (s : Text) (hs : Layout s) : Layout (Mark.erase (s.map .char ++ visits.flatMap t.marks)) ∧
        ids (Mark.erase (s.map .char ++ visits.flatMap t.marks)) =
          ids s ++ visits.flatMap fun visit => ids (t.written visit) := by
      have ⟨trimmed, kept⟩ := hs.trimEnd
      rw [Mark.erase_append]
      split
      case isTrue => exact ⟨trimmed.append rest, by rw [ids_append trimmed.markup, kept, same]⟩
      case isFalse => exact ⟨hs.append rest, by rw [ids_append hs.markup, same]⟩
    have written := one _ (layout_written h visit)
    rw [List.flatMap_cons, List.flatMap_cons]
    cases visit
    case enter => exact written
    case leave n =>
      rw [marks]
      split
      case h_1 none =>
        rw [PageTree.written, none]
        exact ⟨rest, same⟩
      case h_2 some =>
        rw [PageTree.written, some] at written ⊢
        exact written

theorem perm_ids_written : (visits.flatMap fun visit => ids (t.written visit)).Perm
    ((entered visits).flatMap (fun n => ids (t.written (.enter n))) ++
      (left visits).flatMap fun n => ids (t.written (.leave n))) := by
  induction visits
  case nil => exact .nil
  case cons visit visits hi =>
    cases visit
    case enter n =>
      rw [entered_enter, left_enter, List.flatMap_cons, List.flatMap_cons, List.append_assoc]
      exact hi.append_left _
    case leave n =>
      rw [entered_leave, left_leave, List.flatMap_cons, List.flatMap_cons]
      refine (hi.append_left _).trans ?_
      rw [← List.append_assoc, ← List.append_assoc]
      exact List.perm_append_comm.append_right _

-- Each node is entered and left once, so the page has the ids of all its snippets.
theorem Grown.ids_render (g : Grown t) (h : ∀ n, ∀ f ∈ t.snippet? n, f.Laid) :
    Layout t.render ∧ (ids t.render).Perm ((List.range t.size).flatMap fun n => ((t.snippet? n).map Snippet.ids).getD []) := by
  have ⟨visits, w, entered, left⟩ := g.exists_walk
  have ⟨layout, same⟩ := ids_erase h visits
  rw [g.render_eq_erase_of_walk w]
  refine ⟨layout, ?_⟩
  have sides (n : Nat) : ids (t.written (.enter n)) ++ ids (t.written (.leave n)) =
      ((t.snippet? n).map Snippet.ids).getD [] := by
    cases hf : t.snippet? n <;> simp only [written, hf] <;> rfl
  calc
    _ = visits.flatMap fun visit => ids (t.written visit) := same
    List.Perm _ ((Visit.entered visits).flatMap (fun n => ids (t.written (.enter n))) ++
          (Visit.left visits).flatMap fun n => ids (t.written (.leave n))) := perm_ids_written
    List.Perm _ ((List.range t.size).flatMap (fun n => ids (t.written (.enter n))) ++
          (List.range t.size).flatMap fun n => ids (t.written (.leave n))) :=
      (entered.flatMap_right _).append (left.flatMap_right _)
    List.Perm _ ((List.range t.size).flatMap fun n => ids (t.written (.enter n)) ++ ids (t.written (.leave n))) :=
      List.flatMap_append_perm ..
    _ = _ := List.flatMap_congr fun n _ => sides n

end PageTree

namespace Draft

open PageTree

variable {title : Text} {page : Snippet} {lines : Steps}

theorem laid_run (hp : page.Laid) (hl : ∀ line ∈ lines, line.2.Laid) :
    ∀ n, ∀ f ∈ (run title page lines).tree.snippet? n, f.Laid := by
  intro n f hf
  rw [snippet?_run] at hf
  rcases List.mem_cons.mp (List.mem_of_getElem? hf) with rfl | added
  · exact hp
  · have ⟨line, hm, same⟩ := List.mem_map.mp added
    exact same ▸ hl line hm

theorem ids_render (hp : page.Laid) (hl : ∀ line ∈ lines, line.2.Laid) :
    Layout (run title page lines).tree.render ∧
      (ids (run title page lines).tree.render).Perm (page.ids ++ lines.flatMap (·.2.ids)) := by
  have ⟨layout, perm⟩ := (Spine.run title page lines).grown.ids_render (laid_run hp hl)
  have size := size_run title page lines
  have all : (List.range (lines.length + 1)).flatMap
      (fun n => (((run title page lines).tree.snippet? n).map Snippet.ids).getD []) =
        page.ids ++ lines.flatMap (·.2.ids) := by
    have := congrArg (List.flatMap fun f => (f.map Snippet.ids).getD []) (map_snippet?_run title page lines)
    simpa [List.flatMap_map] using this
  exact ⟨layout, all ▸ size ▸ perm⟩

end Draft
end WikiPages
