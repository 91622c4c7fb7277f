import WikiPages.Proofs.Specification.Heads
import WikiPages.Proofs.Success
import WikiPages.Proofs.Text.Words

namespace WikiPages

open Text

variable {a b s : Text} {c : Char} {pair : Text × Text} {pairs : List (Text × Text)} {front : List Text}

theorem Text.flatMap_split_splitWhere (p : Char → Bool) (sep : Char) (s : Text) :
    (splitWhere p s).flatMap (split sep) = splitWhere (fun c => p c || c == sep) s := by
  induction s
  case nil => rfl
  case cons c s hi =>
    rw [splitWhere, splitWhere, ← hi]
    cases hp : p c
    case true => rfl
    case false =>
      cases hs : splitWhere p s
      case nil => exact absurd hs (splitWhere_ne_nil p s)
      case cons piece pieces =>
        rw [if_neg Bool.false_ne_true, Bool.false_or, List.flatMap_cons, List.flatMap_cons, split, splitWhere]
        cases c == sep
        case true => rfl
        case false =>
          cases hq : splitWhere (· == sep) piece
          case nil => exact absurd hq (splitWhere_ne_nil _ piece)
          case cons => rw [split, hq]; rfl

theorem lookup_eq_some_iff_mem {key value : Text} (h : (pairs.map (·.1)).Nodup) :
    pairs.lookup key = some value ↔ (key, value) ∈ pairs := by
  refine ⟨mem_of_lookup, fun hm => ?_⟩
  have ⟨front, back, parts⟩ := List.append_of_mem hm
  refine List.lookup_eq_some_iff.mpr ⟨front, back, parts, fun pair hp => bne_iff_ne.mpr fun he => ?_⟩
  rw [parts, List.map_append, List.map_cons, List.nodup_append'] at h
  have ⟨_, _, apart⟩ := h
  exact apart (List.mem_map_of_mem hp) (he ▸ List.mem_cons_self)

namespace Override

def isSeparator (c : Char) : Bool := isParenthesis c || c == ','

theorem pairs_eq (s : Text) : Override.pairs s = (splitWhere isSeparator s).filterMap pair? := by
  rw [Override.pairs, flatMap_split_splitWhere]
  rfl

theorem pairs_append (hc : isSeparator c = true) (a b : Text) :
    Override.pairs (a ++ c :: b) = Override.pairs a ++ Override.pairs b := by
  rw [pairs_eq, splitWhere_append hc, List.filterMap_append, ← pairs_eq, ← pairs_eq]

theorem pair?_eq_none (h : '=' ∉ s) : pair? s = none := by
  rw [pair?, splitOnce?_eq_none_iff.mpr fun hs => h (hs.subset List.mem_cons_self)]
  rfl

theorem pairs_of_no_sign (h : '=' ∉ s) : Override.pairs s = [] := by
  rw [pairs_eq]
  exact List.filterMap_eq_nil_iff.mpr fun piece hp => pair?_eq_none fun hm => h (subset_of_mem_splitWhere hp hm)

-- What is read of a value: what stands in front of the first character that ends a pair.
def kept (value : Text) : Text := value.takeWhile (!isSeparator ·)

def keptPair (pair : Text × Text) : Text × Text := (pair.1, kept pair.2)

theorem kept_eq_self_iff {value : Text} : kept value = value ↔ ∀ c ∈ value, isSeparator c = false := by
  rw [kept, List.takeWhile_eq_self_iff]
  simp

theorem exists_kept (value : Text) :
    value = kept value ∨ ∃ c rest, isSeparator c = true ∧ value = kept value ++ c :: rest := by
  have parts : kept value ++ value.dropWhile (!isSeparator ·) = value := List.takeWhile_append_dropWhile
  cases hr : value.dropWhile (!isSeparator ·)
  case nil => exact .inl (by rw [hr, List.append_nil] at parts; exact parts.symm)
  case cons c rest =>
    have stop := List.head?_dropWhile_not (!isSeparator ·) value
    rw [hr] at stop parts
    exact .inr ⟨c, rest, by simpa using stop, parts.symm⟩

theorem mem_of_isSeparator (h : isSeparator c = true) : c ∈ ['(', ')', ','] := by
  simpa [isSeparator, isParenthesis, or_assoc] using h

structure IsTrailing (pair : Text × Text) : Prop where
  word  : Text.IsWord (written pair)
  shape : isWord (written pair) = true

instance : Decidable (IsTrailing pair) :=
  decidable_of_iff (_ ∧ _) ⟨fun ⟨word, shape⟩ => ⟨word, shape⟩, fun h => ⟨h.word, h.shape⟩⟩

namespace IsTrailing

variable (h : IsTrailing pair)

include h

theorem parts : pair.1 ≠ [] ∧ '=' ∉ pair.1 ∧ '=' ∉ pair.2 ∧ ∀ c ∈ pair.1, isSeparator c = false := by
  have shape := h.shape
  rw [isWord] at shape
  split at shape
  case h_2 => cases shape
  case h_1 letter name value cut =>
    obtain ⟨front, single⟩ := Bool.and_eq_true_iff.mp shape
    obtain ⟨first, others⟩ := Bool.and_eq_true_iff.mp front
    rw [List.all_eq_true] at others single
    have unsigned : '=' ∉ value := fun hm => absurd (single '=' hm) (by decide)
    have named : '=' ∉ letter :: name := not_mem_of_splitOnce? cut
    -- the pair has no other sign than the one at which the word is cut
    have sign : '=' ∉ pair.1 := by
      have whole : (written pair).count '=' = 1 := by
        rw [splitOnce?_eq_some cut, List.append_assoc, List.count_append, List.count_eq_zero.mpr named,
          List.singleton_append, List.count_cons_self, List.count_eq_zero.mpr unsigned]
      rw [written, List.count_append, List.count_cons_self] at whole
      exact List.count_eq_zero.mp (by omega)
    rw [written, splitOnce?_of_free sign] at cut
    obtain ⟨key, rest⟩ := Prod.mk.inj (Option.some.inj cut)
    have plain : ∀ c ∈ ['(', ')', ','], isAsciiLetter c = false ∧ (isWordChar c || c == '-') = false := by decide
    rw [rest, key]
    refine ⟨List.cons_ne_nil _ _, named, unsigned, List.forall_mem_cons.mpr ⟨?_, fun c hc => ?_⟩⟩
    · refine Bool.eq_false_iff.mpr fun hs => ?_
      exact Bool.eq_false_iff.mp (plain letter (mem_of_isSeparator hs)).1 first
    · refine Bool.eq_false_iff.mpr fun hs => ?_
      exact Bool.eq_false_iff.mp (plain c (mem_of_isSeparator hs)).2 (others c hc)

theorem pairs_written : Override.pairs (written pair) = [keptPair pair] := by
  have ⟨_, sign, single, plain⟩ := h.parts
  have read : Override.pairs (pair.1 ++ '=' :: kept pair.2) = [keptPair pair] := by
    have free : ∀ c ∈ pair.1 ++ '=' :: kept pair.2, isSeparator c = false := by
      refine List.forall_mem_append.mpr ⟨plain, List.forall_mem_cons.mpr ⟨rfl, fun c hc => ?_⟩⟩
      simpa using List.mem_takeWhile_imp hc
    have key : IsTrimmed pair.1 := isTrimmed_of_solid fun c hc => h.word.solid c (by simp [written, hc])
    have value : IsTrimmed (kept pair.2) := isTrimmed_of_solid fun c hc => h.word.solid c <| by
      simp [written, (List.takeWhile_prefix _).subset hc]
    have cut : pair? (pair.1 ++ '=' :: kept pair.2) = some (keptPair pair) := by
      rw [pair?, splitOnce?_of_free sign]
      exact congrArg some (Prod.ext key.trim_eq value.trim_eq)
    rw [pairs_eq, splitWhere_of_free free, List.filterMap_cons_some cut, List.filterMap_nil]
  rcases exists_kept pair.2 with whole | ⟨c, rest, stop, whole⟩
  case inl => rw [written, whole, ← whole]; exact whole ▸ read
  case inr =>
    have unsigned : '=' ∉ rest := fun hm => single (whole ▸ by simp [hm])
    rw [written, whole, ← List.cons_append, ← List.append_assoc, pairs_append stop, read, pairs_of_no_sign unsigned,
      List.append_nil]

end IsTrailing

theorem pairs_join (h : ∀ pair ∈ pairs, IsTrailing pair) :
    Override.pairs (join [','] (pairs.map written)) = pairs.map keptPair := by
  induction pairs
  case nil => rfl
  case cons pair pairs hi =>
    have ⟨hp, h⟩ := List.forall_mem_cons.mp h
    cases pairs
    case nil => exact hp.pairs_written
    case cons =>
      have comma : isSeparator ',' = true := rfl
      rw [List.map_cons, List.map_cons, join_cons_cons, List.append_assoc, List.singleton_append, pairs_append comma,
        hp.pairs_written, ← List.map_cons, hi h]
      rfl

theorem lookup_kept (h : (pairs.map (·.1)).Nodup) (key : Text) :
    (Substitution.ofList (pairs.map keptPair).reverse).lookup key = (pairs.lookup key).map kept := by
  have distinct : ((pairs.map keptPair).reverse.map (·.1)).Nodup := by
    rw [List.map_reverse, List.map_map]
    exact List.nodup_reverse.mpr h
  have found := Substitution.lookup_insertAll distinct {} key
  have none : Substitution.lookup {} key = none := rfl
  rw [none, Option.or_none] at found
  rw [Substitution.ofList, found]
  ext value
  rw [lookup_eq_some_iff_mem distinct, List.mem_reverse, List.mem_map, Option.map_eq_some_iff]
  constructor
  · rintro ⟨pair, hp, he⟩
    cases he
    exact ⟨pair.2, (lookup_eq_some_iff_mem h).mpr hp, rfl⟩
  · rintro ⟨written, hw, he⟩
    exact ⟨(key, written), mem_of_lookup hw, he ▸ rfl⟩

theorem exists_written {word : Text} (h : isWord word = true) : ∃ pair, word = written pair := by
  rw [isWord] at h
  split at h
  case h_1 letter name value cut => exact ⟨(letter :: name, value), by simp [splitOnce?_eq_some cut, written]⟩
  case h_2 => cases h

theorem exists_trailing (s : Text) : ∃ (title : List Text) (pairs : List (Text × Text)),
    words s = title ++ pairs.map written ∧ (∀ pair ∈ pairs, IsTrailing pair) ∧
    ∀ word ∈ title.getLast?, isWord word = false := by
  have words : ∀ word ∈ words s, Text.IsWord word := fun _ => isWord_of_mem_words
  generalize Text.words s = ws at words
  induction ws using List.reverseRecOn
  case nil => exact ⟨[], [], rfl, nofun, nofun⟩
  case append_singleton ws word hi =>
    have ⟨others, solid⟩ := List.forall_mem_append.mp words
    cases hw : isWord word
    case false => exact ⟨ws ++ [word], [], by simp, nofun, by simpa using hw⟩
    case true =>
      have ⟨title, pairs, split, trailing, last⟩ := hi others
      have ⟨pair, he⟩ := exists_written hw
      refine ⟨title, pairs ++ [pair], by simp [split, he], List.forall_mem_append.mpr ⟨trailing, ?_⟩, last⟩
      exact List.forall_mem_singleton.mpr ⟨he ▸ solid word List.mem_cons_self, he ▸ hw⟩

theorem splitTitle_of_words (hs : words s = front ++ pairs.map written) (h : ∀ pair ∈ pairs, IsTrailing pair)
    (hl : ∀ word ∈ front.getLast?, isWord word = false) :
    splitTitle s = (if pairs = [] then s else join [' '] front, (pairs.map keptPair).reverse) := by
  have taken : ∀ word ∈ (pairs.map written).reverse, isWord word = true := by
    intro word hw
    have ⟨pair, hp, he⟩ := List.mem_map.mp (List.mem_reverse.mp hw)
    exact he ▸ (h pair hp).shape
  have stop : front.reverse.takeWhile isWord = [] ∧ front.reverse.dropWhile isWord = front.reverse := by
    cases hf : front.reverse
    case nil => exact ⟨rfl, rfl⟩
    case cons word rest =>
      have last : isWord word = false := hl word (by rw [← List.head?_reverse, hf]; rfl)
      exact ⟨List.takeWhile_cons_of_neg (by simp [last]), List.dropWhile_cons_of_neg (by simp [last])⟩
  have last : (words s).reverse.span isWord = ((pairs.map written).reverse, front.reverse) := by
    rw [List.span_eq_takeWhile_dropWhile, hs, List.reverse_append, List.takeWhile_append_of_pos taken,
      List.dropWhile_append_of_pos taken, stop.1, stop.2, List.append_nil]
  have read : Override.pairs (join [','] (pairs.map written).reverse) = (pairs.map keptPair).reverse := by
    rw [← List.map_reverse, pairs_join fun pair hp => h pair (List.mem_reverse.mp hp), List.map_reverse]
  rw [splitTitle, last]
  dsimp only
  rw [read, List.reverse_reverse]
  cases pairs
  case nil => rfl
  case cons => rw [if_neg (by simp), if_neg (List.cons_ne_nil _ _)]

end Override

namespace Directive

theorem Head.read_of_words {kind : Text} {ws : List Text} (h : words s = kind :: ws) (hk : '(' ∉ kind) :
    ∃ title, Head.read (trim s) = ⟨kind, [], title⟩ ∧ words title = ws := by
  have word : Text.IsWord kind := isWord_of_mem_words (h ▸ List.mem_cons_self)
  rw [← words_trim] at h
  have ⟨before, rest, parts, blanks, stop, behind⟩ := exists_of_words_cons h
  have none : before = [] := by
    cases before
    case nil => rfl
    case cons c before =>
      have solid : isBlank c = false := (isTrimmed_trim s).first c (by rw [parts]; rfl)
      rw [blanks c List.mem_cons_self] at solid
      cases solid
  rw [none, List.nil_append] at parts
  have head : Head.Parts (trim s) kind [] rest :=
    ⟨parts, fun c hc => ⟨word.solid c hc, fun he => hk (he ▸ hc)⟩, fun c hc => .inl (stop c hc),
      .inl ⟨.nil, fun opening => nomatch stop '(' opening⟩⟩
  exact ⟨trim rest, head.read, by rw [words_trim, behind]⟩

-- A directive without parameters: its kind, its title, and the overrides behind that.
structure Trailed where
  kind  : Text
  title : Text
  pairs : List (Text × Text)
  body  : Text

namespace Trailed

-- The body is kind, title and overrides with blanks between them. No other part could be taken for an override.
structure Legible (w : Trailed) : Prop where
  words    : words w.body = w.kind :: (words w.title ++ w.pairs.map Override.written)
  kind     : '(' ∉ w.kind
  bars     : '|' ∉ w.body
  last     : ∀ word ∈ (Text.words w.title).getLast?, Override.isWord word = false
  shape    : ∀ pair ∈ w.pairs, Override.isWord (Override.written pair) = true
  distinct : (w.pairs.map (·.1)).Nodup
  setting  : ∀ pair ∈ w.pairs, pair.1 ≠ Override.dataKey

variable {w : Trailed}

theorem Legible.trailing (h : w.Legible) : ∀ pair ∈ w.pairs, Override.IsTrailing pair := by
  intro pair hp
  refine ⟨isWord_of_mem_words (s := w.body) ?_, h.shape pair hp⟩
  rw [h.words]
  exact List.mem_cons_of_mem _ (List.mem_append_right _ (List.mem_map_of_mem hp))

theorem exists_ofParts_body (h : w.Legible) (trailing : Text) : ∃ title, Text.words title = Text.words w.title ∧
    ofParts w.body trailing =
      { kind := w.kind, title, overrides := Substitution.ofList (w.pairs.map Override.keptPair).reverse
        parameters := Parameter.list trailing } := by
  have ⟨rest, head, words⟩ := Head.read_of_words h.words h.kind
  have kind : w.kind ≠ [] := (isWord_of_mem_words (s := w.body) (h.words ▸ List.mem_cons_self)).given
  have whole : (splitOnce? ['|'] w.body).getD (w.body, []) = (w.body, []) := by
    rw [splitOnce?_eq_none_iff.mpr fun hs => h.bars (hs.subset List.mem_cons_self)]
    rfl
  have split := Override.splitTitle_of_words words h.trailing h.last
  have bare : Override.pairs [] = [] := rfl
  have named : ∀ pair ∈ (w.pairs.map Override.keptPair).reverse, pair.1 ≠ [] ∧ pair.1 ≠ Override.dataKey := by
    intro pair hp
    have ⟨pair, hp, he⟩ := List.mem_map.mp (List.mem_reverse.mp hp)
    exact he ▸ ⟨(h.trailing pair hp).parts.1, h.setting pair hp⟩
  have values : Override.values (w.pairs.map Override.keptPair).reverse = (w.pairs.map Override.keptPair).reverse :=
    List.filter_eq_self.mpr fun pair hp => decide_eq_true (named pair hp)
  have locator : Override.locator? (w.pairs.map Override.keptPair).reverse = none := by
    rw [Override.locator?, List.find?_eq_none.mpr fun pair hp => ?_]
    · rfl
    · exact fun he => (named pair (List.mem_reverse.mp hp)).2 (of_decide_eq_true he)
  refine ⟨(if w.pairs = [] then rest else join [' '] (Text.words w.title)), ?_, ?_⟩
  · split
    case isTrue none => rw [words, none, List.map_nil, List.append_nil]
    case isFalse => exact words_join fun word => isWord_of_mem_words
  · rw [ofParts, whole]
    dsimp only
    rw [head]
    dsimp only
    rw [split, bare, List.nil_append, values, locator, kindOrFree, if_neg kind]
    rfl

-- A directive with overrides at its end is read, without data, with its kind and with the words of its title. Each
-- value is what is in front of its first comma or parenthesis, so all are as they were written if and only if they have
-- neither.
theorem ofParts_body_iff (h : w.Legible) (trailing : Text) (fetch : Block.Fetch) :
    ∃ block, Block.ofDirective fetch (ofParts w.body trailing) = .ok block ∧ block.kind = w.kind ∧
      Text.words block.title = Text.words w.title ∧ block.data = none ∧
      (∀ key, block.overrides.lookup key = (w.pairs.lookup key).map Override.kept) ∧
      ((∀ key, block.overrides.lookup key = w.pairs.lookup key) ↔
        ∀ pair ∈ w.pairs, ∀ c ∈ pair.2, Override.isParenthesis c = false ∧ c ≠ ',') := by
  have ⟨title, words, read⟩ := exists_ofParts_body h trailing
  have overrides := Override.lookup_kept h.distinct
  refine ⟨_, Block.ofDirective_eq_ok_of_locator_eq_none (read ▸ rfl) fetch, ?_⟩
  rw [read]
  refine ⟨rfl, words, rfl, overrides, ?_⟩
  simp only [Block.withData, overrides]
  have plain (value : Text) :
      Override.kept value = value ↔ ∀ c ∈ value, Override.isParenthesis c = false ∧ c ≠ ',' := by
    rw [Override.kept_eq_self_iff]
    simp [Override.isSeparator]
  constructor
  · intro same pair hp
    have found := (lookup_eq_some_iff_mem h.distinct).mpr hp
    have := same pair.1
    rw [found] at this
    exact (plain pair.2).mp (Option.some.inj this)
  · intro free key
    cases found : w.pairs.lookup key
    case none => rfl
    case some value => exact congrArg some ((plain value).mpr (free (key, value) (mem_of_lookup found)))

def dressed : Trailed where
  kind  := lit "section"
  title := lit "a=b (x=y)  end=="
  pairs := [(lit "style", lit "dark"), (lit "data-x_1", lit "[:;]"), (lit "e", [])]
  body  := lit " section\ta=b (x=y)  end==  style=dark\ndata-x_1=[:;] e= "

theorem ofParts_body_dressed : dressed.Legible ∧
    ∃ block, Block.ofDirective (fun _ => .error (.data .malformed)) (ofParts dressed.body []) = .ok block ∧
      block.kind = lit "section" ∧ Text.words block.title = [lit "a=b", lit "(x=y)", lit "end=="] ∧
      block.overrides.lookup (lit "data-x_1") = some (lit "[:;]") ∧ block.overrides.lookup (lit "a") = none := by
  have legible : dressed.Legible :=
    ⟨by decide, by decide, by decide, by decide, by decide, by decide, by decide⟩
  have ⟨block, read, kind, title, _, _, same⟩ := ofParts_body_iff legible [] fun _ => .error (.data .malformed)
  have overrides := same.mpr (by decide)
  have words : Text.words dressed.title = [lit "a=b", lit "(x=y)", lit "end=="] := by decide
  refine ⟨legible, block, read, kind, title.trans words, (overrides _).trans ?_, (overrides _).trans ?_⟩
  · decide
  · decide

-- A value with a comma is cut, though the word is one override.
def listed : Trailed where
  kind  := lit "section"
  title := lit "A b"
  pairs := [(lit "style", lit "a,b")]
  body  := lit "section A b style=a,b"

theorem not_ofParts_body_listed : listed.Legible ∧
    (ofParts listed.body []).title = lit "A b" ∧
    (ofParts listed.body []).overrides.lookup (lit "style") = some (lit "a") ∧
    (ofParts listed.body []).overrides.lookup (lit "style") ≠ listed.pairs.lookup (lit "style") :=
  ⟨⟨by decide, by decide, by decide, by decide, by decide, by decide, by decide⟩, by decide, by decide, by decide⟩

end Trailed
end Directive
end WikiPages
