import WikiPages.Proofs.Text.Scan
import WikiPages.Template.Hole

namespace WikiPages.Hole

open Text

variable {a b inside value kind s : Text} {c : Char}

theorem fill_of_free (h : '$' ∉ a) :
    replaceAll (of inside) value (a ++ b) = a ++ replaceAll (of inside) value b :=
  replaceAll_of_free h

theorem fill_eq_self (h : '$' ∉ s) : replaceAll (of inside) value s = s :=
  replaceAll_eq_self h

theorem fill_of (inside value b : Text) :
    replaceAll (of inside) value (of inside ++ b) = value ++ replaceAll (of inside) value b :=
  replaceAll_append (of_ne_nil inside) value b

theorem fill_past {other : Text} (h : Clash (of inside) (of other)) (ho : '$' ∉ other) :
    replaceAll (of inside) value (of other ++ b) = of other ++ replaceAll (of inside) value b := by
  have hp : (of inside).isPrefixOf? ('$' :: ('{' :: other ++ closing ++ b)) = none :=
    isPrefixOf?_eq_none_iff.mpr h.misses
  have hf : '$' ∉ '{' :: other ++ closing := by
    simp [closing, ho]
  have hw : of other ++ b = '$' :: ('{' :: other ++ closing ++ b) := rfl
  rw [hw, replaceAll_cons _ hp, fill_of_free hf]
  rfl

theorem read?_of_ne (h : c ≠ '$') : read? (c :: s) = none := by
  simp [read?, opening, isPrefixOf?_cons_cons, Ne.symm h]

theorem named_of_free (h : '$' ∉ a) : Pattern.Quiet (named kind) a b := by
  intro s hne hs
  cases s
  case nil => contradiction
  case cons c s =>
    have hc : c ≠ '$' := by
      rintro rfl
      exact h (hs.subset List.mem_cons_self)
    rw [List.cons_append, named, read?_of_ne hc]

theorem replace_named_of_free {f : Text → Text} (h : '$' ∉ a) :
    (named kind).replace f (a ++ b) = a ++ (named kind).replace f b :=
  Pattern.replace_of_quiet (named_of_free h)

theorem unfilled_of_free (ha : '$' ∉ a) (hc : c ≠ '$') : Pattern.Quiet unfilled a (c :: b) := by
  intro s hne hs
  cases s
  case nil => contradiction
  case cons d s =>
    have hd : d ≠ '$' := by
      rintro rfl
      exact ha (hs.subset List.mem_cons_self)
    have hr : read? (s ++ c :: b) = none := by
      cases s
      case nil => exact read?_of_ne hc
      case cons e s =>
        apply read?_of_ne
        rintro rfl
        exact ha (hs.subset (List.mem_cons_of_mem _ List.mem_cons_self))
    rw [List.cons_append, unfilled, leadingBlank]
    by_cases hb : isBlank d = true
    · simp [hb, hr]
    · have : read? (d :: (s ++ c :: b)) = none := read?_of_ne hd
      simp [hb, this]

theorem stripUnfilled_of_free (ha : '$' ∉ a) (hc : c ≠ '$') :
    stripUnfilled (a ++ c :: b) = a ++ stripUnfilled (c :: b) :=
  Pattern.replace_of_quiet (unfilled_of_free ha hc)

end WikiPages.Hole
