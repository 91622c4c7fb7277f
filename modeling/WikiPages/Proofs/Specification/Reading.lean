import WikiPages.Proofs.Template.Entries
import WikiPages.Proofs.Text.Cutting
import WikiPages.Proofs.Text.Trimming
import WikiPages.Specification.Block

namespace WikiPages

open Text

variable {pair : Text × Text} {pairs : List (Text × Text)} {a blank rest s : Text} {c : Char}

namespace Override

def written (pair : Text × Text) : Text := pair.1 ++ '=' :: pair.2

structure IsPair (pair : Text × Text) : Prop where
  key     : IsTrimmed pair.1
  value   : IsTrimmed pair.2
  named   : pair.1 ≠ []
  setting : pair.1 ≠ dataKey
  sign    : '=' ∉ pair.1
  apart   : ∀ c ∈ written pair, isParenthesis c = false ∧ c ≠ ','

instance : Decidable (IsPair pair) :=
  decidable_of_iff (_ ∧ _ ∧ _ ∧ _ ∧ _ ∧ ((written pair).all fun c => !isParenthesis c && c != ',') = true)
    ⟨fun ⟨key, value, named, setting, sign, apart⟩ => ⟨key, value, named, setting, sign, by simpa using apart⟩,
      fun h => ⟨h.key, h.value, h.named, h.setting, h.sign, by simpa using h.apart⟩⟩

def group : List (Text × Text) → Text
  | []            => []
  | pair :: pairs => '(' :: (written pair ++ pairs.flatMap (lit ", " ++ written ·)) ++ [')']

theorem pair?_written (h : IsPair pair) (hb : ∀ c ∈ blank, isBlank c = true) :
    pair? (blank ++ written pair) = some pair := by
  have hn : '=' ∉ blank ++ pair.1 := by
    intro hm
    rcases List.mem_append.mp hm with hm | hm
    · exact absurd (hb _ hm) (by decide)
    · exact h.sign hm
  have hk : trim (blank ++ pair.1) = pair.1 := by
    have := trim_within (s := pair.1) (b := []) hb (by simp)
    rwa [List.append_nil, h.key.trim_eq] at this
  rw [pair?, written, ← List.append_assoc, splitOnce?_of_free hn]
  exact congrArg some (Prod.ext hk h.value.trim_eq)

theorem filterMap_pair? (h : ∀ pair ∈ pairs, IsPair pair) (hs : ',' ∉ s) :
    (split ',' (s ++ pairs.flatMap (lit ", " ++ written ·))).filterMap pair? =
      [s].filterMap pair? ++ pairs := by
  induction pairs generalizing s
  case nil => rw [List.flatMap_nil, List.append_nil, split_of_free hs, List.append_nil]
  case cons pair pairs hi =>
    have ⟨hp, hr⟩ := List.forall_mem_cons.mp h
    have hn : ',' ∉ ' ' :: written pair := by
      rw [List.mem_cons, not_or]
      exact ⟨by decide, fun hm => (hp.apart _ hm).2 rfl⟩
    have hw : s ++ (pair :: pairs).flatMap (lit ", " ++ written ·) =
        s ++ ',' :: (' ' :: written pair ++ pairs.flatMap (lit ", " ++ written ·)) := by
      simp [lit]
    have blank : ∀ c ∈ [' '], isBlank c = true := forall_mem_of_all rfl
    have first : pair? (' ' :: written pair) = some pair := pair?_written hp blank
    rw [hw, split_append, split_of_free hs, List.filterMap_append, hi hr hn]
    simp [first]

theorem isParenthesis_of_mem (h : ∀ pair ∈ pairs, IsPair pair)
    (hc : c ∈ pairs.flatMap (lit ", " ++ written ·)) : isParenthesis c = false := by
  have ⟨pair, hp, hc⟩ := List.mem_flatMap.mp hc
  rcases List.mem_append.mp hc with hc | hc
  · have separator : ∀ c ∈ lit ", ", isParenthesis c = false := forall_mem_of_all rfl
    exact separator c hc
  · exact ((h pair hp).apart c hc).1

theorem pairs_group (h : ∀ pair ∈ pairs, IsPair pair) : Override.pairs (group pairs) = pairs := by
  cases pairs
  case nil => rfl
  case cons pair pairs =>
    have ⟨hp, hr⟩ := List.forall_mem_cons.mp h
    have inner : ∀ c ∈ written pair ++ pairs.flatMap (lit ", " ++ written ·), isParenthesis c = false := by
      intro c hc
      rcases List.mem_append.mp hc with hc | hc
      · exact (hp.apart c hc).1
      · exact isParenthesis_of_mem hr hc
    have hs : splitWhere isParenthesis (group (pair :: pairs)) =
        [[], written pair ++ pairs.flatMap (lit ", " ++ written ·), []] := by
      have opening := splitWhere_append (p := isParenthesis) (c := '(') rfl []
      have closing := splitWhere_append (p := isParenthesis) (c := ')') rfl
      rw [group, ← List.nil_append ('(' :: _), List.append_assoc, List.cons_append, opening, closing,
        splitWhere_of_free inner]
      rfl
    have first : pair? (written pair) = some pair := pair?_written hp (List.forall_mem_nil _)
    have none : (split ',' []).filterMap pair? = [] := rfl
    rw [Override.pairs, hs, List.flatMap_cons, List.flatMap_cons, List.flatMap_cons, List.flatMap_nil,
      List.filterMap_append, List.filterMap_append, List.append_nil, none,
      filterMap_pair? hr fun hm => (hp.apart _ hm).2 rfl]
    simp [first]

theorem values_eq_self (h : ∀ pair ∈ pairs, IsPair pair) : values pairs = pairs :=
  List.filter_eq_self.mpr fun pair hp => decide_eq_true ⟨(h pair hp).named, (h pair hp).setting⟩

theorem locator?_eq_none (h : ∀ pair ∈ pairs, IsPair pair) : locator? pairs = none := by
  have : pairs.reverse.find? (·.1 = dataKey) = none := by
    refine List.find?_eq_none.mpr fun pair hp => ?_
    exact fun he => (h pair (List.mem_reverse.mp hp)).setting (of_decide_eq_true he)
  rw [locator?, this]
  rfl

theorem groups_true (h : ')' ∉ a) (hr : rest.head? ≠ some '(') :
    groups true (a ++ ')' :: rest) = (a ++ [')'], rest) := by
  induction a
  case nil =>
    cases rest
    case nil => rfl
    case cons c rest =>
      have hc : c ≠ '(' := fun hc => hr (congrArg some hc)
      simp [groups, hc]
  case cons c a hi =>
    have ⟨hc, ha⟩ := not_or.mp fun hm => h (List.mem_cons.mpr hm)
    simp [groups, Ne.symm hc, hi ha]

theorem groups_group (h : ∀ pair ∈ pairs, IsPair pair) (hr : rest.head? ≠ some '(') :
    groups false (group pairs ++ rest) = (group pairs, rest) := by
  cases pairs
  case nil =>
    cases rest
    case nil => rfl
    case cons c rest =>
      have hc : c ≠ '(' := fun hc => hr (congrArg some hc)
      simp [group, groups, hc]
  case cons pair pairs =>
    have ⟨hp, hs⟩ := List.forall_mem_cons.mp h
    have inner : ')' ∉ written pair ++ pairs.flatMap (lit ", " ++ written ·) := by
      intro hm
      rcases List.mem_append.mp hm with hm | hm
      · exact nomatch (hp.apart _ hm).1
      · exact nomatch isParenthesis_of_mem hs hm
    have := groups_true inner hr
    simp only [group, List.cons_append, List.append_assoc, List.nil_append] at this ⊢
    simp [groups, this]

theorem splitTitle_eq_self (h : ∀ word ∈ (words s).getLast?, isWord word = false) :
    splitTitle s = (s, []) := by
  have none : (words s).reverse.takeWhile isWord = [] := by
    cases hw : (words s).reverse
    case nil => rfl
    case cons word rest =>
      have hl : (words s).getLast? = some word := by rw [← List.head?_reverse, hw]; rfl
      rw [List.takeWhile_cons, h word hl]
      rfl
  rw [splitTitle, List.span_eq_takeWhile_dropWhile, none]
  rfl

end Override

namespace Parameter

structure IsRaw (p : Text) : Prop where
  trimmed : IsTrimmed p
  given   : p ≠ []
  single  : '|' ∉ p

instance {p : Text} : Decidable (IsRaw p) :=
  decidable_of_iff (_ ∧ _ ∧ _)
    ⟨fun ⟨trimmed, given, single⟩ => ⟨trimmed, given, single⟩, fun h => ⟨h.trimmed, h.given, h.single⟩⟩

theorem list_append (front back : Text) : list (front ++ '|' :: back) = list front ++ list back := by
  rw [list, split_append, List.map_append, List.filter_append, List.map_append]
  rfl

theorem list_of_free (h : '|' ∉ s) : list s = (([trim s].filter (· ≠ [])).map parse) := by
  rw [list, split_of_free h]
  rfl

theorem list_of_isRaw {p : Text} (h : IsRaw p) (hb : ∀ c ∈ blank, isBlank c = true) :
    list (blank ++ p) = [parse p] := by
  have hn : '|' ∉ blank ++ p := by
    intro hm
    rcases List.mem_append.mp hm with hm | hm
    · exact absurd (hb _ hm) (by decide)
    · exact h.single hm
  have ht : trim (blank ++ p) = p := by
    have := trim_within (s := p) (b := []) hb (by simp)
    rwa [List.append_nil, h.trimmed.trim_eq] at this
  rw [list_of_free hn, ht]
  simp [h.given]

theorem list_append_flatMap (before after : Text) {ps : List Text} (h : ∀ p ∈ ps, IsRaw p)
    (hb : ∀ c ∈ before, isBlank c = true) (ha : ∀ c ∈ after, isBlank c = true) (hs : '|' ∉ s) :
    list (s ++ ps.flatMap (before ++ '|' :: after ++ ·)) = list s ++ ps.map parse := by
  induction ps generalizing s
  case nil => simp
  case cons p ps hi =>
    have ⟨hp, hr⟩ := List.forall_mem_cons.mp h
    have bar {blank : Text} (hb : ∀ c ∈ blank, isBlank c = true) : '|' ∉ blank :=
      fun hm => absurd (hb _ hm) (by decide)
    have hw : s ++ (p :: ps).flatMap (before ++ '|' :: after ++ ·) =
        (s ++ before) ++ '|' :: (after ++ p ++ ps.flatMap (before ++ '|' :: after ++ ·)) := by
      simp
    have hf : list (s ++ before) = list s := by
      have ht : trim (s ++ before) = trim s := trim_within (a := []) (by simp) hb
      have hn : '|' ∉ s ++ before := fun hm => (List.mem_append.mp hm).elim hs (bar hb)
      rw [list_of_free hn, list_of_free hs, ht]
    have hn : '|' ∉ after ++ p := fun hm => (List.mem_append.mp hm).elim (bar ha) hp.single
    rw [hw, list_append, hf, hi hr hn, list_of_isRaw hp ha]
    rfl

end Parameter
end WikiPages

namespace WikiPages.Directive

open Text

variable {front rest s : Text} {parts : Text × Text}

theorem braces?_eq_none (h : '{' ∉ s) : braces? s = none := by
  induction s
  case nil => rfl
  case cons c s hi =>
    have ⟨hc, hs⟩ := not_or.mp fun hm => h (List.mem_cons.mpr hm)
    simp [braces?, hi hs, Ne.symm hc]

theorem braces?_append (hf : lf ∉ front) (hn : '{' ∉ rest) (hi : inside? rest = some parts) :
    braces? (front ++ '{' :: rest) = some parts := by
  induction front
  case nil =>
    have : '{' ≠ lf := by decide
    simp [braces?, this, braces?_eq_none hn, hi]
  case cons c front ih =>
    have ⟨hc, hf⟩ := not_or.mp fun hm => hf (List.mem_cons.mpr hm)
    simp [braces?, Ne.symm hc, ih hf]

-- A line with a directive, in its parts: what stands in front of the braces, the kind, the overrides and the
-- title, and the parameters inside and behind the braces.
structure Written where
  front : Text := []
  kind : Text
  pairs : List (Text × Text) := []
  title : Text := []
  inner : List Text := []
  outer : List Text := []

namespace Written

def head (w : Written) : Text := w.kind ++ (Override.group w.pairs ++ ' ' :: w.title)

def body (w : Written) : Text := w.head ++ w.inner.flatMap ('|' :: ·)

def behind (w : Written) : Text := w.outer.flatMap (lit " | " ++ ·)

def line (w : Written) : Text := w.front ++ '{' :: (w.body ++ '}' :: w.behind)

-- No part can be taken for another one.
structure Legible (w : Written) : Prop where
  kind       : w.kind ≠ [] ∧ ∀ c ∈ w.kind, isBlank c = false ∧ c ≠ '('
  pairs      : ∀ pair ∈ w.pairs, Override.IsPair pair
  distinct   : (w.pairs.map (·.1)).Nodup
  title      : IsTrimmed w.title
  last       : ∀ word ∈ (words w.title).getLast?, Override.isWord word = false
  parameters : ∀ p ∈ w.inner ++ w.outer, Parameter.IsRaw p
  bars       : '|' ∉ w.head
  braces     : '{' ∉ w.body ∧ '}' ∉ w.body ∧ '{' ∉ w.behind
  single     : lf ∉ w.front ∧ lf ∉ w.behind

variable {w : Written}

theorem braces?_line (h : w.Legible) : braces? w.line = some (w.body, w.behind) := by
  have ⟨opening, closing, later⟩ := h.braces
  have hn : '{' ∉ w.body ++ '}' :: w.behind := by
    simp [opening, later]
  have hb : w.body ≠ [] := by
    simp [body, head, h.kind.1]
  refine braces?_append h.single.1 hn ?_
  rw [inside?, splitOnce?_of_free closing]
  exact Option.filter_eq_some_iff.mpr ⟨rfl, decide_eq_true ⟨hb, h.single.2⟩⟩

def ending (w : Written) : Text := if w.title = [] then [] else ' ' :: w.title

theorem head?_ending : w.ending.head? ≠ some '(' := by
  rw [ending]
  split <;> simp

theorem trim_ending (h : w.Legible) : trim w.ending = w.title := by
  rw [ending]
  split
  case isTrue ht => rw [ht, trim_nil]
  case isFalse =>
    have := trim_within (a := [' ']) (s := w.title) (b := []) (forall_mem_of_all rfl) (by simp)
    rwa [List.append_nil, h.title.trim_eq] at this

theorem isTrimmed_kind (h : w.Legible) : IsTrimmed w.kind where
  first := fun c hc => (h.kind.2 c (List.mem_of_mem_head? hc)).1
  last  := fun c hc => (h.kind.2 c (List.mem_of_mem_getLast? hc)).1

theorem last_group (pairs : List (Text × Text)) :
    ∀ c ∈ (Override.group pairs).getLast?, isBlank c = false := by
  cases pairs
  case nil => simp [Override.group]
  case cons pair pairs =>
    rw [Override.group, ← List.cons_append, List.getLast?_concat]
    simp [isBlank]

theorem trim_head (h : w.Legible) : trim w.head = w.kind ++ (Override.group w.pairs ++ w.ending) := by
  have hk : IsTrimmed (w.kind ++ Override.group w.pairs) :=
    (isTrimmed_kind h).append h.kind.1 (last_group w.pairs)
  have hne : w.kind ++ Override.group w.pairs ≠ [] := List.append_ne_nil_of_left_ne_nil h.kind.1 _
  rw [head, ending, ← List.append_assoc, ← List.append_assoc]
  split
  case isTrue ht =>
    have : trim (w.kind ++ Override.group w.pairs ++ [' ']) = trim (w.kind ++ Override.group w.pairs) :=
      trim_within (a := []) (by simp) (forall_mem_of_all rfl)
    rw [ht, this, hk.trim_eq, List.append_nil]
  case isFalse ht =>
    refine (hk.append hne ?_).trim_eq
    rw [List.getLast?_cons_of_ne_nil ht]
    exact h.title.last

theorem read_head (h : w.Legible) : Head.read (trim w.head) = ⟨w.kind, Override.group w.pairs, w.title⟩ := by
  have hk : (w.kind ++ (Override.group w.pairs ++ w.ending)).takeWhile (fun c => !isBlank c && c != '(') =
      w.kind := by
    have inside : ∀ c ∈ w.kind, (!isBlank c && c != '(') = true := by
      intro c hc
      have ⟨hb, ho⟩ := h.kind.2 c hc
      simp [hb, ho]
    have stop : (Override.group w.pairs ++ w.ending).takeWhile (fun c => !isBlank c && c != '(') = [] := by
      cases w.pairs
      case cons => rfl
      case nil =>
        rw [ending]
        split <;> rfl
    rw [List.takeWhile_append_of_pos inside, stop, List.append_nil]
  rw [Head.read, trim_head h, hk, List.drop_left, Override.groups_group h.pairs head?_ending]
  exact congrArg _ (trim_ending h)

theorem list_behind (h : w.Legible) : Parameter.list w.behind = w.outer.map Parameter.parse :=
  Parameter.list_append_flatMap (s := []) [' '] [' ']
    (fun p hp => h.parameters p (List.mem_append_right _ hp)) (forall_mem_of_all rfl) (forall_mem_of_all rfl)
    (by simp)

theorem exists_split_body (h : w.Legible) : ∃ rest,
    (splitOnce? ['|'] w.body).getD (w.body, []) = (w.head, rest) ∧
      Parameter.list rest = w.inner.map Parameter.parse := by
  have raw : ∀ p ∈ w.inner, Parameter.IsRaw p := fun p hp => h.parameters p (List.mem_append_left _ hp)
  rw [body]
  cases hi : w.inner
  case nil =>
    refine ⟨[], ?_, rfl⟩
    have : splitOnce? ['|'] w.head = none :=
      splitOnce?_eq_none_iff.mpr fun hs => h.bars (hs.subset List.mem_cons_self)
    rw [List.flatMap_nil, List.append_nil, this]
    rfl
  case cons p ps =>
    rw [hi] at raw
    have ⟨hp, hr⟩ := List.forall_mem_cons.mp raw
    refine ⟨p ++ ps.flatMap ('|' :: ·), ?_, ?_⟩
    · rw [List.flatMap_cons, List.cons_append, splitOnce?_of_free h.bars]
      rfl
    · have first : Parameter.list p = [Parameter.parse p] :=
        Parameter.list_of_isRaw hp (List.forall_mem_nil _)
      have := Parameter.list_append_flatMap [] [] hr (by simp) (by simp) hp.single
      rw [first] at this
      exact this

theorem parse_line (h : w.Legible) : parse w.line =
    { kind := w.kind, title := w.title, overrides := Substitution.ofList w.pairs
      parameters := (w.inner ++ w.outer).map Parameter.parse } := by
  have ⟨rest, hb, hi⟩ := exists_split_body h
  rw [parse, braces?_line h]
  simp only [ofParts, hb, read_head h, hi, list_behind h, Override.pairs_group h.pairs,
    Override.splitTitle_eq_self h.last, List.append_nil, Override.values_eq_self h.pairs,
    Override.locator?_eq_none h.pairs, List.map_append, kindOrFree, if_neg h.kind.1]
  rfl

-- A line is read as the block that was written: with its kind, its title, a value for each key and for no other,
-- no data of its own, and its parameters, which are kept as they were written.
theorem ofLine_legible (h : w.Legible) (fetch : Block.Fetch) :
    ∃ block, Block.ofLine fetch w.line = .ok block ∧ block.kind = w.kind ∧ block.title = w.title ∧
      (∀ key, block.overrides.lookup key = w.pairs.lookup key) ∧ block.data = none ∧
      block.parameters = (w.inner ++ w.outer).map Parameter.parse ∧
      block.parameters.map (·.raw) = w.inner ++ w.outer := by
  refine ⟨_, (Block.ofDirective_eq_ok_of_locator_eq_none ?_ fetch), ?_⟩
  · rw [parse_line h]
  · rw [parse_line h]
    refine ⟨rfl, rfl, fun key => ?_, rfl, rfl, ?_⟩
    · exact (Substitution.lookup_insertAll h.distinct {} key).trans (Option.or_none)
    · have kept : ∀ p ∈ w.inner ++ w.outer, (Parameter.parse p).raw = p :=
        fun p hp => (Parameter.raw_parse p).trans (h.parameters p hp).trimmed.trim_eq
      exact List.map_map.trans ((List.map_congr_left kept).trans (List.map_id _))

def crowded : Written where
  front := lit "* \x7bother\x7d | \x7b"
  kind  := lit "select"
  pairs := [(lit "class", lit "wide and  narrow"), (lit "data name", lit "a=b"), (lit "empty", [])]
  title := lit "a=b (x=y)  (summer) end=="
  inner := [lit "(k=v) One::two", lit "Two"]
  outer := [lit "Three  four"]

theorem legible_crowded : crowded.Legible where
  kind       := ⟨by decide, forall_mem_of_all (by decide)⟩
  pairs      := by decide
  distinct   := by decide
  title      := by decide
  last       := by decide
  parameters := by decide
  bars       := by decide
  braces     := by decide
  single     := by decide

theorem ofLine_crowded : crowded.Legible ∧
    crowded.line = lit "* \x7bother\x7d | \x7b\x7bselect(class=wide and  narrow, data name=a=b, empty=)" ++
      lit " a=b (x=y)  (summer) end==|(k=v) One::two|Two\x7d | Three  four" ∧
    ∃ block, Block.ofLine (fun _ => .error (.data .malformed)) crowded.line = .ok block ∧
      block.kind = lit "select" ∧ block.title = lit "a=b (x=y)  (summer) end==" ∧
      block.overrides.lookup (lit "data name") = some (lit "a=b") ∧ block.data = none ∧
      block.parameters.map (·.raw) = [lit "(k=v) One::two", lit "Two", lit "Three  four"] := by
  have ⟨block, read, kind, title, overrides, data, _, raw⟩ :=
    ofLine_legible legible_crowded fun _ => .error (.data .malformed)
  have named : block.overrides.lookup (lit "data name") = some (lit "a=b") :=
    (overrides (lit "data name")).trans (by decide)
  exact ⟨legible_crowded, by decide, block, read, kind, title, named, data, raw⟩

end Written
end WikiPages.Directive
