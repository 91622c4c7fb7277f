import WikiPages.Proofs.Files.Writing
import WikiPages.Proofs.Specification.Trailing
import WikiPages.Proofs.Xml.Reading

namespace WikiPages

open Text

variable {body front line locator s trailing value : Text} {pairs : List (Text × Text)}

namespace Override

theorem locator?_eq_some_iff : locator? pairs = some value ↔
    ∃ front back, pairs = front ++ (dataKey, value) :: back ∧ ∀ pair ∈ back, pair.1 ≠ dataKey := by
  rw [locator?, Option.map_eq_some_iff]
  constructor
  · rintro ⟨⟨key, value⟩, found, rfl⟩
    obtain ⟨named, back, front, parts, others⟩ := List.find?_eq_some_iff_append.mp found
    refine ⟨front.reverse, back.reverse, ?_, fun pair hp => ?_⟩
    · rw [← List.reverse_reverse pairs, parts, ← of_decide_eq_true named]
      simp
    · simpa using others pair (List.mem_reverse.mp hp)
  · rintro ⟨front, back, rfl, others⟩
    refine ⟨(dataKey, value), List.find?_eq_some_iff_append.mpr ⟨decide_eq_true rfl, back.reverse, front.reverse, ?_⟩,
      rfl⟩
    exact ⟨by simp, fun pair hp => by simpa using others pair (List.mem_reverse.mp hp)⟩

theorem locator?_eq_none_iff : locator? pairs = none ↔ ∀ pair ∈ pairs, pair.1 ≠ dataKey := by
  rw [locator?, Option.map_eq_none_iff, List.find?_eq_none]
  simp

end Override

namespace Directive

-- Braces in a line, up to the first that closes, with something in them. The line does not end in front of them or
-- behind them.
structure Braced (line front body trailing : Text) : Prop where
  whole  : line = front ++ '{' :: (body ++ '}' :: trailing)
  given  : body ≠ []
  closed : '}' ∉ body
  before : lf ∉ front
  behind : lf ∉ trailing

def LastBraced (line body trailing : Text) : Prop :=
  ∃ front, Braced line front body trailing ∧
    ∀ front' body' trailing', Braced line front' body' trailing' → front'.length ≤ front.length

theorem inside?_eq_some_iff : inside? s = some (body, trailing) ↔
    s = body ++ '}' :: trailing ∧ body ≠ [] ∧ '}' ∉ body ∧ lf ∉ trailing := by
  rw [inside?, Option.filter_eq_some_iff]
  constructor
  · rintro ⟨cut, fine⟩
    obtain ⟨given, behind⟩ := of_decide_eq_true fine
    exact ⟨by simpa using splitOnce?_eq_some cut, given, not_mem_of_splitOnce? cut, behind⟩
  · rintro ⟨rfl, given, closed, behind⟩
    exact ⟨splitOnce?_of_free closed, decide_eq_true ⟨given, behind⟩⟩

theorem braced_nil_iff {c : Char} :
    Braced (c :: s) [] body trailing ↔ c = '{' ∧ inside? s = some (body, trailing) := by
  rw [inside?_eq_some_iff]
  constructor
  · intro h
    have ⟨opening, parts⟩ := List.cons.inj h.whole
    exact ⟨opening, parts, h.given, h.closed, h.behind⟩
  · rintro ⟨rfl, rfl, given, closed, behind⟩
    exact ⟨rfl, given, closed, List.not_mem_nil, behind⟩

theorem braced_cons_iff {c d : Char} :
    Braced (c :: s) (d :: front) body trailing ↔ c = d ∧ c ≠ lf ∧ Braced s front body trailing := by
  constructor
  · intro h
    have ⟨same, whole⟩ := List.cons.inj h.whole
    have ⟨other, before⟩ := not_or.mp (mt List.mem_cons.mpr h.before)
    exact ⟨same, fun he => other (same ▸ he.symm), whole, h.given, h.closed, before, h.behind⟩
  · rintro ⟨rfl, other, h⟩
    refine ⟨by rw [h.whole]; rfl, h.given, h.closed, fun hm => ?_, h.behind⟩
    exact (List.mem_cons.mp hm).elim (fun he => other he.symm) h.before

theorem braces?_cases (s : Text) : (braces? s = none ∧ ∀ front body trailing, ¬ Braced s front body trailing) ∨
    ∃ body trailing, braces? s = some (body, trailing) ∧ LastBraced s body trailing := by
  induction s
  case nil => exact .inl ⟨rfl, fun front body trailing h => by simpa using h.whole⟩
  case cons c s hi =>
    by_cases hc : c = lf
    case pos =>
      refine .inl ⟨by rw [braces?, if_pos hc], fun front body trailing h => ?_⟩
      cases front
      case nil =>
        have : '{' ≠ lf := by decide
        exact this ((braced_nil_iff.mp h).1 ▸ hc)
      case cons => exact (braced_cons_iff.mp h).2.1 hc
    case neg =>
      rcases hi with ⟨none, absent⟩ | ⟨body, trailing, found, front, braced, last⟩
      case inr =>
        refine .inr ⟨body, trailing, by rw [braces?, if_neg hc, found], c :: front, ?_, ?_⟩
        · exact braced_cons_iff.mpr ⟨rfl, hc, braced⟩
        · intro front' body' trailing' h
          cases front'
          case nil => exact Nat.zero_le _
          case cons => exact Nat.succ_le_succ (last _ _ _ (braced_cons_iff.mp h).2.2)
      case inl =>
        have first {front body trailing} (h : Braced (c :: s) front body trailing) :
            front = [] ∧ c = '{' ∧ inside? s = some (body, trailing) := by
          cases front
          case nil => exact ⟨rfl, braced_nil_iff.mp h⟩
          case cons => exact absurd (braced_cons_iff.mp h).2.2 (absent _ _ _)
        have read : braces? (c :: s) = if c = '{' then inside? s else Option.none := by
          rw [braces?, if_neg hc, none]
        by_cases found : ∃ body trailing, c = '{' ∧ inside? s = some (body, trailing)
        case pos =>
          obtain ⟨body, trailing, opening, inside⟩ := found
          refine .inr ⟨body, trailing, by rw [read, if_pos opening, inside], [], ?_, fun front' body' trailing' h => ?_⟩
          · exact braced_nil_iff.mpr ⟨opening, inside⟩
          · exact (first h).1 ▸ Nat.le_refl _
        case neg =>
          refine .inl ⟨?_, fun front body trailing h => found ⟨body, trailing, (first h).2⟩⟩
          rw [read, ite_eq_right_iff]
          intro opening
          exact Option.eq_none_iff_forall_ne_some.mpr fun parts inside => found ⟨parts.1, parts.2, opening, inside⟩

theorem LastBraced.unique {body' trailing' : Text} (h : LastBraced s body trailing)
    (h' : LastBraced s body' trailing') : (body, trailing) = (body', trailing') := by
  have ⟨front, braced, last⟩ := h
  have ⟨front', braced', last'⟩ := h'
  have same : front.length = front'.length := Nat.le_antisymm (last' _ _ _ braced) (last _ _ _ braced')
  have behind := List.append_inj_right (braced.whole.symm.trans braced'.whole) same
  exact Prod.ext_iff.mpr (append_cons_inj_of_free braced.closed braced'.closed (List.cons.inj behind).2)

theorem braces?_eq_some_iff : braces? s = some (body, trailing) ↔ LastBraced s body trailing := by
  constructor
  · intro h
    rcases braces?_cases s with ⟨none, _⟩ | ⟨_, _, found, last⟩
    · cases none.symm.trans h
    · cases found.symm.trans h
      exact last
  · intro h
    rcases braces?_cases s with ⟨_, absent⟩ | ⟨_, _, found, last⟩
    · have ⟨_, braced, _⟩ := h
      exact absurd braced (absent _ _ _)
    · rw [found, last.unique h]

-- What names data in the head of a directive: the last pair with the key in the groups at the kind, and if there is
-- none the first of the override words at the end with that key, up to a comma or parenthesis.
inductive Head.Names (head : Text) : Text → Prop
  | group {kind run rest value : Text} {front back : List (Text × Text)} :
    Head.Parts head kind run rest →
    Override.pairs run = front ++ (Override.dataKey, value) :: back →
    (∀ pair ∈ back, pair.1 ≠ Override.dataKey) →
    Head.Names head value
  | word {kind run rest value : Text} {title : List Text} {front back : List (Text × Text)} :
    Head.Parts head kind run rest →
    (∀ pair ∈ Override.pairs run, pair.1 ≠ Override.dataKey) →
    words rest = title ++ (front ++ (Override.dataKey, value) :: back).map Override.written →
    (∀ pair ∈ front ++ (Override.dataKey, value) :: back, Override.IsTrailing pair) →
    (∀ word ∈ title.getLast?, Override.isWord word = false) →
    (∀ pair ∈ front, pair.1 ≠ Override.dataKey) →
    Head.Names head (Override.kept value)

def Names (line locator : Text) : Prop :=
  ∃ body trailing, LastBraced line body trailing ∧ Head.Names (trim (body.takeWhile (· ≠ '|'))) locator

theorem locator?_trailing_iff {locator : Text} :
    Override.locator? (pairs.map Override.keptPair).reverse = some locator ↔
      ∃ front value back, pairs = front ++ (Override.dataKey, value) :: back ∧ Override.kept value = locator ∧
        ∀ pair ∈ front, pair.1 ≠ Override.dataKey := by
  rw [Override.locator?, List.reverse_reverse, List.find?_map, Option.map_map, Option.map_eq_some_iff]
  constructor
  · rintro ⟨⟨key, value⟩, found, rfl⟩
    obtain ⟨named, front, back, parts, others⟩ := List.find?_eq_some_iff_append.mp found
    have named : key = Override.dataKey := of_decide_eq_true named
    refine ⟨front, value, back, named ▸ parts, rfl, fun pair hp => ?_⟩
    exact of_decide_eq_false (Bool.not_eq_true' _ ▸ others pair hp)
  · rintro ⟨front, value, back, rfl, rfl, others⟩
    refine ⟨(Override.dataKey, value), List.find?_eq_some_iff_append.mpr ⟨?_, front, back, rfl, fun pair hp => ?_⟩, rfl⟩
    · exact decide_eq_true (show (Override.keptPair (Override.dataKey, value)).1 = Override.dataKey from rfl)
    · have other : ¬ (Override.keptPair pair).1 = Override.dataKey := others pair hp
      exact Bool.not_eq_true' _ ▸ decide_eq_false other

theorem locator_ofParts_iff : (ofParts body trailing).locator = some locator ↔
    Head.Names (trim (body.takeWhile (· ≠ '|'))) locator := by
  rw [← takeWhile_of_splitOnce?]
  generalize hh : trim ((splitOnce? ['|'] body).getD (body, [])).1 = head
  have read {kind run rest : Text} {title : List Text} {pairs : List (Text × Text)}
      (parts : Head.Parts head kind run rest) (split : words rest = title ++ pairs.map Override.written)
      (trailing' : ∀ pair ∈ pairs, Override.IsTrailing pair)
      (last : ∀ word ∈ title.getLast?, Override.isWord word = false) :
      (ofParts body trailing).locator = (Override.locator? (Override.pairs run)).or
        (Override.locator? (pairs.map Override.keptPair).reverse) := by
    rw [← words_trim] at split
    rw [ofParts, hh]
    dsimp only
    rw [parts.read, Override.splitTitle_of_words split trailing' last]
  constructor
  · intro h
    obtain ⟨kind, run, rest, parts⟩ := Head.exists_parts head
    obtain ⟨title, pairs, split, trailing', last⟩ := Override.exists_trailing rest
    rw [read parts split trailing' last, Option.or_eq_some_iff] at h
    rcases h with named | ⟨none, named⟩
    case inl =>
      obtain ⟨front, back, split, others⟩ := Override.locator?_eq_some_iff.mp named
      exact .group parts split others
    case inr =>
      obtain ⟨front, value, back, he, cut, others⟩ := locator?_trailing_iff.mp named
      subst he cut
      exact .word parts (Override.locator?_eq_none_iff.mp none) split trailing' last others
  · intro h
    cases h
    case group rest front back parts others named =>
      obtain ⟨title, pairs, split, trailing', last⟩ := Override.exists_trailing rest
      rw [read parts split trailing' last, Override.locator?_eq_some_iff.mpr ⟨_, _, named, others⟩, Option.some_or]
    case word parts none split trailing' last others =>
      rw [read parts split trailing' last, Override.locator?_eq_none_iff.mpr none, Option.none_or]
      exact locator?_trailing_iff.mpr ⟨_, _, _, rfl, rfl, others⟩

theorem locator_parse_iff : (parse line).locator = some locator ↔ Names line locator := by
  rw [parse]
  split
  case h_1 body trailing found =>
    have braced := braces?_eq_some_iff.mp found
    rw [locator_ofParts_iff]
    constructor
    case mp =>
      exact fun h => ⟨body, trailing, braced, h⟩
    case mpr =>
      rintro ⟨body', trailing', braced', h⟩
      cases braced.unique braced'
      exact h
  case h_2 none =>
    refine iff_of_false (Option.some_ne_none locator).symm ?_
    rintro ⟨body, trailing, braced, _⟩
    cases none.symm.trans (braces?_eq_some_iff.mpr braced)

end Directive

namespace Block

variable {reader : Xml.Reader} {tree : FileTree} {base : Option Text} {block : Block} {fault : Fault}
  {document : Xml.Document}

def pathOf (base : Option Text) (locator : Text) : Text := base.elim locator (Path.join · locator)

structure Loads (reader : Xml.Reader) (tree : FileTree) (base : Option Text) (locator : Text)
    (document : Xml.Document) : Prop where
  given : locator ≠ []
  text  : ∃ s, tree.readText (pathOf base locator) = .ok s ∧ reader s = some document

-- Why there is none.
inductive Fails (reader : Xml.Reader) (tree : FileTree) (base : Option Text) (locator : Text) : LocatorFault → Prop
  | empty : locator = [] → Fails reader tree base locator .empty
  | unreadable {error : FileError} :
    locator ≠ [] → tree.readText (pathOf base locator) = .error error →
    Fails reader tree base locator (.data (.unreadable (pathOf base locator) error))
  | refused {s : Text} :
    locator ≠ [] → tree.readText (pathOf base locator) = .ok s → reader s = none →
    Fails reader tree base locator (.data .malformed)

theorem fetchFrom_empty : fetchFrom reader tree base [] = .error (.locator [] .empty) := rfl

theorem fetchFrom_given (h : locator ≠ []) : fetchFrom reader tree base locator =
    (Xml.Document.load reader tree (pathOf base locator)).mapError fun fault => .locator locator (.data fault) := by
  cases base <;> exact if_neg h

theorem fetchFrom_cases (reader : Xml.Reader) (tree : FileTree) (base : Option Text) (locator : Text) :
    (∃ document, fetchFrom reader tree base locator = .ok document ∧ Loads reader tree base locator document) ∨
      ∃ cause, fetchFrom reader tree base locator = .error (.locator locator cause) ∧ Fails reader tree base locator cause := by
  by_cases given : locator = []
  case pos => exact .inr ⟨_, given ▸ fetchFrom_empty, .empty given⟩
  case neg =>
    rw [fetchFrom_given given, Xml.Document.load]
    cases read : tree.readText (pathOf base locator)
    case error => exact .inr ⟨_, rfl, .unreadable given read⟩
    case ok s =>
      dsimp only
      rw [Xml.Document.read]
      cases parsed : reader s
      case none => exact .inr ⟨_, rfl, .refused given read parsed⟩
      case some document => exact .inl ⟨document, rfl, given, s, read, parsed⟩

theorem Loads.fetch (h : Loads reader tree base locator document) : fetchFrom reader tree base locator = .ok document := by
  have ⟨s, read, parsed⟩ := h.text
  rw [fetchFrom_given h.given, Xml.Document.load, read]
  dsimp only
  rw [Xml.Document.read, parsed]
  rfl

theorem Fails.fetch {cause : LocatorFault} (h : Fails reader tree base locator cause) :
    fetchFrom reader tree base locator = .error (.locator locator cause) := by
  cases h
  case empty none => exact none ▸ fetchFrom_empty
  case unreadable error given read =>
    rw [fetchFrom_given given, Xml.Document.load, read]
    rfl
  case refused s given read parsed =>
    rw [fetchFrom_given given, Xml.Document.load, read]
    dsimp only
    rw [Xml.Document.read, parsed]
    rfl

theorem ofDirective_eq_ok_iff {fetch : Fetch} {d : Directive} : ofDirective fetch d = .ok block ↔
    (d.locator = none ∧ block = withData d none) ∨
      ∃ locator document, d.locator = some locator ∧ fetch locator = .ok document ∧
        block = withData d (some document) := by
  rw [ofDirective]
  cases d.locator
  case none => simp [eq_comm]
  case some locator =>
    dsimp only
    cases loaded : fetch locator <;> simp [Except.map, loaded, eq_comm]

theorem ofDirective_eq_error_iff {fetch : Fetch} {d : Directive} : ofDirective fetch d = .error fault ↔
    ∃ locator, d.locator = some locator ∧ fetch locator = .error fault := by
  rw [ofDirective]
  cases d.locator
  case none => simp
  case some locator =>
    dsimp only
    cases loaded : fetch locator <;> simp [Except.map, loaded]

-- A line has no block if and only if it names data that cannot be had, and then the fault is about the locator by which
-- it does. Otherwise it has the block of its directive, with a document if and only if it names one.
theorem ofLine_fetchFrom_iff (reader : Xml.Reader) (tree : FileTree) (base : Option Text) (line : Text) :
    (∀ fault, ofLine (fetchFrom reader tree base) line = .error fault ↔
      ∃ locator cause, Directive.Names line locator ∧ Fails reader tree base locator cause ∧ fault = .locator locator cause) ∧
    ∀ block, ofLine (fetchFrom reader tree base) line = .ok block ↔
      ((∀ locator, ¬ Directive.Names line locator) ∧ block = withData (Directive.parse line) none) ∨
        ∃ locator document, Directive.Names line locator ∧ Loads reader tree base locator document ∧
          block = withData (Directive.parse line) (some document) := by
  refine ⟨fun fault => ?_, fun block => ?_⟩
  · rw [ofLine, ofDirective_eq_error_iff]
    constructor
    · rintro ⟨locator, named, failed⟩
      rcases fetchFrom_cases reader tree base locator with ⟨document, read, _⟩ | ⟨cause, read, fails⟩
      · cases read.symm.trans failed
      · cases read.symm.trans failed
        exact ⟨locator, cause, Directive.locator_parse_iff.mp named, fails, rfl⟩
    · rintro ⟨locator, cause, named, fails, rfl⟩
      exact ⟨locator, Directive.locator_parse_iff.mpr named, fails.fetch⟩
  · have unnamed : (Directive.parse line).locator = none ↔ ∀ locator, ¬ Directive.Names line locator := by
      rw [Option.eq_none_iff_forall_ne_some]
      exact forall_congr' fun locator => not_congr Directive.locator_parse_iff
    rw [ofLine, ofDirective_eq_ok_iff, unnamed]
    refine or_congr_right ⟨?_, ?_⟩
    · rintro ⟨locator, document, named, loaded, rfl⟩
      rcases fetchFrom_cases reader tree base locator with ⟨document', read, loads⟩ | ⟨cause, read, _⟩
      · cases read.symm.trans loaded
        exact ⟨locator, document, Directive.locator_parse_iff.mp named, loads, rfl⟩
      · cases read.symm.trans loaded
    · rintro ⟨locator, document, named, loads, rfl⟩
      exact ⟨locator, document, Directive.locator_parse_iff.mpr named, loads.fetch, rfl⟩

def typedText : Text := lit "<!DOCTYPE a><a></a>"

def typedFiles : FileTree where
  entries := [([lit "d.xml"], .file (String.ofList typedText).toUTF8)]

def typedLine : Text := lit "\x7bx(XML=d.xml) T|XML=e.xml\x7d XML=f.xml"

theorem readText_typedFiles : typedFiles.readText (lit "d.xml") = .ok typedText := by
  have entry : typedFiles.entryAt (lit "d.xml") = .ok (.file (String.ofList typedText).toUTF8) := rfl
  rw [FileTree.readText, entry]
  dsimp only
  rw [FileTree.readEntry_file]
  rfl

theorem locator_typedLine : (Directive.parse typedLine).locator = some (lit "d.xml") := by decide

-- A document type is refused like any other text that is no document, and the other pairs name nothing.
theorem ofLine_fetchFrom_typed : ofLine (fetchFrom Xml.Document.parse? typedFiles none) typedLine =
    .error (.locator (lit "d.xml") (.data .malformed)) := by
  have ⟨faults, _⟩ := ofLine_fetchFrom_iff Xml.Document.parse? typedFiles none typedLine
  have refused : Xml.Document.parse? typedText = none := Xml.Document.conforms_parse?.untyped _
  exact (faults _).mpr ⟨_, _, Directive.locator_parse_iff.mp locator_typedLine,
    .refused (by decide) readText_typedFiles refused, rfl⟩

-- A readable file with a well-formed document need not give a block.
theorem not_ok_of_wellFormed : ¬ ∀ (reader : Xml.Reader) (tree : FileTree) (base : Option Text) (line locator s : Text),
    reader.Conforms → Directive.Names line locator → locator ≠ [] → tree.readText (pathOf base locator) = .ok s →
      Xml.WellFormed s → ∃ block, ofLine (fetchFrom reader tree base) line = .ok block := by
  intro h
  have conforms := Xml.Document.conforms_parse?
  have named := Directive.locator_parse_iff.mp locator_typedLine
  have name : Xml.IsName (lit "a") := ⟨rfl, forall_mem_of_all rfl⟩
  have formed : Xml.WellFormed typedText := Xml.WellFormed.typed name .nil rfl
  have ⟨block, loaded⟩ := h _ typedFiles none typedLine _ _ conforms named (by decide) readText_typedFiles formed
  rw [ofLine, ofDirective_eq_ok_iff, locator_typedLine] at loaded
  rcases loaded with ⟨none, _⟩ | ⟨locator, document, he, loaded, _⟩
  · cases none
  · cases he
    have refused : Fails Xml.Document.parse? typedFiles none (lit "d.xml") (.data .malformed) :=
      .refused (by decide) readText_typedFiles (conforms.untyped _)
    cases refused.fetch.symm.trans loaded

end Block
end WikiPages
