import WikiPages.Page.Snippet
import WikiPages.Proofs.Template.Filling
import WikiPages.Template.Substitution

namespace WikiPages

open Text

variable {a b inside t value : Text} {σ : Substitution} {entries : List (Text × Text)}

namespace Hole

def Apart (inside : Text) : Prop := Clash (of inside) content ∧ Cuts content (of inside)

instance : Decidable (Apart inside) :=
  inferInstanceAs (Decidable (_ ∧ _))

theorem fill_slot (h : Apart inside) :
    replaceAll (of inside) value (a ++ (content ++ b)) =
      replaceAll (of inside) value a ++ (content ++ replaceAll (of inside) value b) := by
  have apart : (Pattern.exactly (of inside)).Apart a (content ++ b) :=
    fun _ hne _ => Pattern.exactly_append h.2 hne
  have past : replaceAll (of inside) value (content ++ b) = content ++ replaceAll (of inside) value b :=
    fill_past h.1 (by decide)
  rw [← past]
  exact Pattern.replace_append Pattern.exactly_bounded apart

theorem content_infix_iff : content <:+: a ++ content.dropLast ↔ content <:+: a := by
  have cuts : Cuts content.dropLast content := by decide
  have short : ¬ content <:+: content.dropLast := by decide
  have split : content <:+: a ++ (content.dropLast ++ []) ↔ _ := cuts.infix_iff (of_ne_nil _)
  rwa [List.append_nil, or_iff_left short] at split

end Hole

namespace Substitution

-- No value goes where the slot is, or across its ends.
def Apart (σ : Substitution) : Prop := ∀ entry ∈ σ.entries, Hole.Apart entry.1

theorem apply_slot (h : σ.Apart) :
    σ.apply (a ++ (Hole.content ++ b)) = σ.apply a ++ (Hole.content ++ σ.apply b) := by
  obtain ⟨entries⟩ := σ
  simp only [Apart, apply] at h ⊢
  induction entries generalizing a b
  case nil => rfl
  case cons entry entries hi =>
    have ⟨first, rest⟩ := List.forall_mem_cons.mp h
    rw [List.foldl_cons, Hole.fill_slot first, hi rest]
    rfl

end Substitution

namespace Snippet

theorem ofTemplate_eq_leaf_iff : ofTemplate t = leaf t ↔ ¬ Hole.content <:+: t := by
  rw [← splitOnce?_eq_none_iff, ofTemplate]
  split
  case h_1 hs => simp [hs, withSlot, leaf]
  case h_2 hs => simp [hs]

theorem ofTemplate_eq_withSlot_iff :
    ofTemplate t = withSlot a b ↔ t = a ++ (Hole.content ++ b) ∧ ¬ Hole.content <:+: a := by
  have cut := splitOnce?_eq_some_iff (s := t) (a := a) (b := b) (Hole.of_ne_nil (lit "content"))
  rw [← Hole.content, Hole.content_infix_iff, List.append_assoc] at cut
  rw [← cut, ofTemplate]
  split
  case h_1 hs => simp [hs, withSlot]
  case h_2 hs => simp [hs, withSlot, leaf]

-- A template that is cut when it has been filled is cut at its own slot, exactly if no slot has come in front of
-- that one.
theorem ofTemplate_apply_iff (h : σ.Apart) :
    ofTemplate (σ.apply t) = (ofTemplate t).map σ.apply ↔ ¬ Hole.content <:+: σ.apply (ofTemplate t).head := by
  cases hs : splitOnce? Hole.content t
  case none =>
    rw [ofTemplate_eq_leaf_iff.mpr (splitOnce?_eq_none_iff.mp hs)]
    exact ofTemplate_eq_leaf_iff
  case some sides =>
    have ⟨cut, parts⟩ := ofTemplate_eq_withSlot hs
    rw [List.append_assoc] at parts
    have filled : σ.apply t = σ.apply sides.1 ++ (Hole.content ++ σ.apply sides.2) :=
      parts ▸ Substitution.apply_slot h
    rw [cut]
    exact ofTemplate_eq_withSlot_iff.trans (and_iff_right filled)

end Snippet
end WikiPages
