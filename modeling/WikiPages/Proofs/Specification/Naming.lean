import WikiPages.Proofs.Specification.Reading

namespace WikiPages

open Text

variable {a b s : Text} {c : Char}

namespace Text

theorem splitOnce?_reverse (h : c ∉ b) : splitOnce? [c] (a ++ c :: b).reverse = some (b.reverse, a.reverse) := by
  have free : c ∉ b.reverse := fun hm => h (List.mem_reverse.mp hm)
  have turned : (a ++ c :: b).reverse = b.reverse ++ c :: a.reverse := by simp
  rw [turned, splitOnce?_of_free free]

theorem infix_of_trim (s : Text) : trim s <:+: s :=
  (prefix_trimStart s).isInfix.trans (List.dropWhile_suffix isBlank).isInfix

end Text

namespace Override

theorem pairs_concat (h : isParenthesis c = true) (s : Text) : pairs (s ++ [c]) = pairs s := by
  have none : (split ',' []).filterMap pair? = [] := rfl
  rw [pairs, splitWhere_append h, List.flatMap_append, List.filterMap_append]
  simp [pairs, splitWhere, none]

end Override

namespace Parameter

structure Written where
  pairs : List (Text × Text)
  name : Text

namespace Written

def text (w : Written) : Text := Override.group w.pairs ++ ' ' :: w.name

-- There are overrides, of distinct keys, and the name has no variant.
structure Legible (w : Written) : Prop where
  given    : w.pairs ≠ []
  pairs    : ∀ pair ∈ w.pairs, Override.IsPair pair
  distinct : (w.pairs.map (·.1)).Nodup
  trimmed  : IsTrimmed w.name
  named    : w.name ≠ []
  single   : ¬ variantSeparator <:+: w.name

variable {w : Written}

theorem exists_group (h : w.Legible) : ∃ opened, Override.group w.pairs = '(' :: opened ++ [')'] := by
  cases hp : w.pairs
  case nil => exact absurd hp h.given
  case cons => exact ⟨_, rfl⟩

theorem isTrimmed_text (h : w.Legible) : IsTrimmed w.text where
  first := by
    have ⟨opened, ho⟩ := exists_group h
    simp [text, ho, isBlank]
  last  := by
    rw [text, List.getLast?_append_of_ne_nil _ (List.cons_ne_nil _ _), List.getLast?_cons_of_ne_nil h.named]
    exact h.trimmed.last

theorem head?_text (h : w.Legible) : w.text.head? = some '(' := by
  have ⟨opened, ho⟩ := exists_group h
  simp [text, ho]

theorem splitOverrides_text (h : w.Legible) (he : w.text = a ++ ')' :: b) (hb : ')' ∉ b) :
    splitOverrides w.text = (a, trim b) := by
  rw [splitOverrides, if_pos (head?_text h), he, splitOnce?_reverse hb]
  simp

theorem parse_text (h : w.Legible) (he : w.text = a ++ ')' :: b) (hb : ')' ∉ b)
    (hv : ¬ variantSeparator <:+: trim b) :
    parse w.text =
      { raw := w.text, name := trim b
        overrides := Substitution.ofList (Override.values (Override.pairs a)) } := by
  rw [parse, (isTrimmed_text h).trim_eq, splitOverrides_text h he hb]
  dsimp only
  rw [splitOnce?_eq_none_iff.mpr hv]

theorem parse_text_of_free (h : w.Legible) (hn : ')' ∉ w.name) :
    parse w.text = { raw := w.text, name := w.name, overrides := Substitution.ofList w.pairs } := by
  have ⟨opened, ho⟩ := exists_group h
  have he : w.text = '(' :: opened ++ ')' :: (' ' :: w.name) := by simp [text, ho]
  have free : ')' ∉ ' ' :: w.name := by simp [hn]
  have name : trim (' ' :: w.name) = w.name := by
    have := trim_within (a := [' ']) (s := w.name) (b := []) (forall_mem_of_all rfl) (by simp)
    rwa [List.append_nil, h.trimmed.trim_eq] at this
  have pairs : Override.pairs ('(' :: opened) = w.pairs := by
    rw [← Override.pairs_concat (c := ')') rfl, ← ho, Override.pairs_group h.pairs]
  have single : ¬ variantSeparator <:+: trim (' ' :: w.name) := by
    rw [name]
    exact h.single
  rw [parse_text h he free single, name, pairs, Override.values_eq_self h.pairs]

theorem name_parse_of_closing (h : w.Legible) (hn : w.name = a ++ ')' :: b) (hb : ')' ∉ b) :
    (parse w.text).name = trim b := by
  have he : w.text = (Override.group w.pairs ++ ' ' :: a) ++ ')' :: b := by simp [text, hn]
  have within : trim b <:+: w.name :=
    (infix_of_trim b).trans (hn ▸ ((List.suffix_cons _ b).trans (List.suffix_append _ _)).isInfix)
  rw [parse_text h he hb fun hv => h.single (hv.trans within)]

-- A parameter is read as it was written, with its name and with a value for each key and for no other, if and only if
-- no parenthesis closes in its name.
theorem parse_text_iff (h : w.Legible) :
    ((parse w.text).name = w.name ∧ ∀ key, (parse w.text).overrides.lookup key = w.pairs.lookup key) ↔
      ')' ∉ w.name := by
  constructor
  case mpr =>
    intro hn
    rw [parse_text_of_free h hn]
    refine ⟨rfl, fun key => ?_⟩
    exact (Substitution.lookup_insertAll h.distinct {} key).trans (Option.or_none)
  case mp =>
    rintro ⟨name, _⟩ hm
    have ⟨front, rest, hr, hf⟩ := List.eq_append_cons_of_mem (List.mem_reverse.mpr hm)
    have hn : w.name = rest.reverse ++ ')' :: front.reverse := by
      rw [← List.reverse_reverse w.name, hr]
      simp
    rw [name_parse_of_closing h hn fun hx => hf (List.mem_reverse.mp hx)] at name
    have := congrArg List.length (name.trans hn)
    have := (trim_sublist front.reverse).length_le
    rw [List.length_append, List.length_cons] at *
    omega

def summed : Written where
  pairs := [(lit "class", lit "wide right"), (lit "sum", lit "a=b"), (lit "note", [])]
  name  := lit "Total ((net: x=1,  y"

theorem legible_summed : summed.Legible where
  given    := by decide
  pairs    := by decide
  distinct := by decide
  trimmed  := by decide
  named    := by decide
  single   := by decide

theorem parse_text_summed : summed.Legible ∧
    summed.text = lit "(class=wide right, sum=a=b, note=) Total ((net: x=1,  y" ∧
    (parse summed.text).name = lit "Total ((net: x=1,  y" ∧
    (parse summed.text).overrides.lookup (lit "sum") = some (lit "a=b") := by
  have ⟨name, overrides⟩ := (parse_text_iff legible_summed).mpr (by decide)
  exact ⟨legible_summed, by decide, name, (overrides (lit "sum")).trans (by decide)⟩

-- A name that ends in a parenthesis is lost.
def net : Written where
  pairs := [(lit "class", lit "x")]
  name  := lit "Total (net)"

theorem not_parse_text_net : net.Legible ∧ net.text = lit "(class=x) Total (net)" ∧
    (parse net.text).name = [] ∧ (parse net.text).name ≠ net.name :=
  ⟨⟨by decide, by decide, by decide, by decide, by decide, by decide⟩, by decide, by decide, by decide⟩

end Written
end Parameter
end WikiPages
