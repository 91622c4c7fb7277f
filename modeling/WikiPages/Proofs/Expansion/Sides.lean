import WikiPages.Proofs.Expansion.Running
import WikiPages.Proofs.Expansion.Steps
import WikiPages.Proofs.Template.Slot

namespace WikiPages.Expander

open Text

variable {e : Expander} {s title template : Text} {block : Block} {p : Parameter} {f : Snippet} {l l' : Ledger}

theorem exists_of_run_inputField (h : (e.inputField title p).run.run l = (.ok s, l')) :
    ∃ block template filled, Block.ofDirective e.fetch (e.inputDirective p) = .ok block ∧
      e.templates.page block.kind (e.inputValues p (block.overrides.insertAll p.overrides.entries)) = .ok template ∧
      (e.fill title (l.countInput.issue p.name).1 block template).run.run (l.countInput.issue p.name).2 =
        (.ok filled, l') ∧
      s = Hole.stripUnfilled filled := by
  rw [inputField] at h
  obtain ⟨_, _, counted, h⟩ := exists_of_run_bind h
  cases counted
  obtain ⟨block, _, lift, h⟩ := exists_of_run_bind h
  obtain ⟨read, same⟩ := Prod.mk.inj lift
  subst same
  rw [run_issue_bind] at h
  obtain ⟨template, kept, page, h⟩ := exists_of_run_bind h
  have same : (l.countInput.issue p.name).2 = kept := (Prod.mk.inj page).2
  rw [← same] at h
  obtain ⟨filled, _, run, h⟩ := exists_of_run_bind h
  cases h
  exact ⟨block, template, filled, read, of_run_page page, run, rfl⟩

theorem exists_of_run_expand (h : (e.expand title block).run.run l = (.ok f, l')) :
    ∃ template head between, e.templates.page block.kind block.overrides = .ok template ∧
      (e.fill title (l.issueFor block.kind block.title).1 block (Snippet.ofTemplate template).head).run.run
        (l.issueFor block.kind block.title).2 = (.ok head, between) ∧
      ((Snippet.ofTemplate template).tail = none ∧ f = finishSnippet (.leaf head) ∧ l' = between ∨
        ∃ back tail between' inner, (Snippet.ofTemplate template).tail = some back ∧
          (e.fill title (l.issueFor block.kind block.title).1 block back).run.run between = (.ok tail, between') ∧
          (e.slotText title template block).run.run between' = (.ok inner, l') ∧
          f = finishSnippet ((Snippet.withSlot head tail).pushBeforeSlot inner)) := by
  rw [expand, run_issue_bind] at h
  obtain ⟨template, kept, page, h⟩ := exists_of_run_bind h
  have same : (l.issue (IdPool.lineContext block.kind block.title)).2 = kept := (Prod.mk.inj page).2
  rw [← same] at h
  obtain ⟨head, between, before, h⟩ := exists_of_run_bind h
  refine ⟨template, head, between, of_run_page page, before, ?_⟩
  generalize Snippet.ofTemplate template = cut at h ⊢
  obtain ⟨front, _ | back⟩ := cut
  case none =>
    cases h
    exact .inl ⟨rfl, rfl, rfl⟩
  case some =>
    obtain ⟨tail, between', behind, h⟩ := exists_of_run_bind h
    obtain ⟨inner, _, within, h⟩ := exists_of_run_bind h
    cases h
    exact .inr ⟨back, tail, between', inner, rfl, behind, within, rfl⟩

-- A snippet made of a template: of all of it, or of what stands in front of its first slot, behind which the inner
-- text goes, and, on its own, of what stands behind that slot. The block has the next id of the account, which is
-- then kept from one text to the next.
inductive Sides (e : Expander) (title : Text) (block : Block) (template : Text) (l : Ledger) : Snippet → Prop
  | leaf {id text : Text} {issued l' : Ledger}
    (named  : l.issueFor block.kind block.title = (id, issued))
    (absent : ¬ Hole.content <:+: template)
    (filled : (e.fill title id block template).run.run issued = (.ok text, l')) :
    Sides e title block template l (.leaf (Hole.stripUnfilled (text ++ lineBreak)))
  | slot {id front back head tail inner : Text} {issued l₁ l₂ l' : Ledger}
    (named  : l.issueFor block.kind block.title = (id, issued))
    (cut    : template = front ++ (Hole.content ++ back)) (first : ¬ Hole.content <:+: front)
    (before : (e.fill title id block front).run.run issued = (.ok head, l₁))
    (behind : (e.fill title id block back).run.run l₁ = (.ok tail, l₂))
    (within : (e.slotText title template block).run.run l₂ = (.ok inner, l')) :
    Sides e title block template l
      (.withSlot (Hole.stripUnfilled (head ++ inner)) (Hole.stripUnfilled (tail ++ lineBreak)))

theorem Sides.hasSlot_iff (h : e.Sides title block template l f) : f.hasSlot = true ↔ Hole.content <:+: template := by
  cases h
  case leaf absent _ => simp [absent]
  case slot front back _ _ _ _ _ _ _ _ cut _ _ _ _ =>
    have here : Hole.content <:+: template := ⟨front, back, by simp [cut]⟩
    simp [here]

theorem exists_sides (h : (e.expand title block).run.run l = (.ok f, l')) :
    ∃ template, e.templates.page block.kind block.overrides = .ok template ∧ e.Sides title block template l f := by
  obtain ⟨template, head, between, page, before, rest⟩ := exists_of_run_expand h
  refine ⟨template, page, ?_⟩
  cases hs : splitOnce? Hole.content template
  case none =>
    have absent := splitOnce?_eq_none_iff.mp hs
    rw [Snippet.ofTemplate_eq_leaf_iff.mpr absent] at before rest
    obtain ⟨_, rfl, _⟩ | ⟨_, _, _, _, slot, _⟩ := rest
    case inl => exact .leaf rfl absent before
    case inr => cases slot
  case some sides =>
    have cut := (Snippet.ofTemplate_eq_withSlot hs).1
    have ⟨parts, first⟩ := Snippet.ofTemplate_eq_withSlot_iff.mp cut
    rw [cut] at before rest
    obtain ⟨none, _⟩ | ⟨_, tail, _, inner, ⟨⟩, behind, within, rfl⟩ := rest
    case inl => cases none
    case inr => exact .slot rfl parts first before behind within

end WikiPages.Expander
