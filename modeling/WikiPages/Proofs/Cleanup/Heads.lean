import Mathlib.Data.List.DropRight
import Mathlib.Data.List.Nodup
import WikiPages.Proofs.Cleanup.Passes
import WikiPages.Proofs.Text.Words

namespace WikiPages.Cleanup

open Text Pattern

variable {a b s front gap gap' inside line : Text} {sections sections' : List (Text × Text)} {lines seen : List Text}

-- A text cut at its head sections, from left to right: what is in front of the first, and each with what is behind
-- it. A section ends where the first end stands, and it begins at the first start if there is an end behind it.
inductive Sections : Text → Text → List (Text × Text) → Prop
  | last {s : Text} (none : ∀ a inside b, s ≠ a ++ (headStart ++ (inside ++ (headEnd ++ b)))) : Sections s s []
  | cons {s front inside gap : Text} {sections : List (Text × Text)} (first : ¬ headStart <:+: front)
      (closed : ¬ headEnd <:+: inside) (rest : Sections s gap sections) :
      Sections (front ++ (headStart ++ (inside ++ (headEnd ++ s)))) front ((inside, gap) :: sections)

section Scanning

theorem splitOnce?_of_cuts {sep : Text} (cuts : Cuts sep.dropLast sep) (hne : sep ≠ []) (h : ¬ sep <:+: a)
    (b : Text) : splitOnce? sep (a ++ (sep ++ b)) = some (a, b) := by
  have short : sep.dropLast.length < sep.length := by
    have := List.length_pos_iff.mpr hne
    rw [List.length_dropLast]
    omega
  have absent : ¬ sep <:+: a ++ sep.dropLast := by
    rw [← List.append_nil sep.dropLast, cuts.infix_iff hne, List.append_nil]
    exact fun hi => hi.elim h fun hi => Nat.not_le_of_lt short hi.length_le
  rw [← List.append_assoc]
  exact splitOnce?_of_absent absent

theorem not_infix_of_cut {sep : Text} (hne : sep ≠ []) (h : splitOnce? sep s = some (a, b)) : ¬ sep <:+: a :=
  fun hi => not_infix_of_splitOnce? hne h (hi.trans (List.prefix_append _ _).isInfix)

theorem splitOnce?_headStart (h : ¬ headStart <:+: a) (b : Text) :
    splitOnce? headStart (a ++ (headStart ++ b)) = some (a, b) :=
  splitOnce?_of_cuts (by decide) (by decide) h b

theorem splitOnce?_headEnd (h : ¬ headEnd <:+: a) (b : Text) :
    splitOnce? headEnd (a ++ (headEnd ++ b)) = some (a, b) :=
  splitOnce?_of_cuts (by decide) (by decide) h b

theorem headSection_of_closed (h : ¬ headEnd <:+: inside) (s : Text) :
    headSection (headStart ++ (inside ++ (headEnd ++ s))) =
      some (inside, (headStart ++ (inside ++ headEnd)).length) := by
  rw [headSection_start, splitOnce?_headEnd h]
  simp [Nat.add_assoc]

theorem headSection_quiet_of_start (h : ¬ headStart <:+: a) (b : Text) : headSection.Quiet a (headStart ++ b) := by
  have cuts : Cuts headStart headStart := by decide
  intro s hne hs
  refine headSection_of_not_start fun hp => h ?_
  exact ((cuts.prefix_iff hne).mp hp).isInfix.trans hs.isInfix

theorem headSection_quiet_of_none (h : ∀ a inside b, s ≠ a ++ (headStart ++ (inside ++ (headEnd ++ b)))) :
    headSection.Quiet s [] := by
  intro t _ ⟨a, hs⟩
  rw [List.append_nil]
  by_cases hp : headStart <+: t
  case neg => exact headSection_of_not_start hp
  case pos =>
    have ⟨u, hu⟩ := hp
    have unended : ¬ headEnd <:+: u := by
      rintro ⟨inside, b, rfl⟩
      exact h a inside b (by rw [← hs, ← hu]; simp)
    rw [← hu, headSection_start, splitOnce?_eq_none_iff.mpr unended]
    rfl

theorem headEnd_infix (h : ¬ headStart <:+: a)
    (he : a ++ (headStart ++ b) = gap ++ (headStart ++ (inside ++ (headEnd ++ s)))) :
    headEnd <:+: b := by
  have cuts : Cuts headStart headStart := by decide
  have avoids : Avoids headStart headEnd := by decide
  have within : headEnd <:+: headStart ++ (inside ++ (headEnd ++ s)) :=
    ⟨headStart ++ inside, s, by simp⟩
  rcases List.append_eq_append_iff.mp he with ⟨more, _, hb⟩ | ⟨more, ha, hb⟩
  · refine avoids.infix_iff.mp (hb ▸ within.trans ?_)
    exact (List.suffix_append _ _).isInfix
  · cases more
    case nil => exact avoids.infix_iff.mp (hb ▸ within)
    case cons c more =>
      have hp : headStart <+: (c :: more) ++ (headStart ++ b) := hb ▸ List.prefix_append _ _
      have hp := (cuts.prefix_iff (List.cons_ne_nil c more)).mp hp
      exact absurd (hp.isInfix.trans (ha ▸ List.suffix_append _ _).isInfix) h

end Scanning

namespace Sections

theorem cut (h : Sections s front sections) :
    headSection.cut s = front.map .char ++
      sections.flatMap fun (inside, gap) => .found inside :: gap.map .char := by
  induction h
  case last none =>
    have plain := cut_of_quiet (headSection_quiet_of_none none)
    simpa using plain
  case cons s front inside gap sections first closed _ hi =>
    have hit : headSection ((headStart ++ (inside ++ headEnd)) ++ s) =
        some (inside, (headStart ++ (inside ++ headEnd)).length) := by
      simpa using headSection_of_closed closed s
    have here : headSection.cut (headStart ++ (inside ++ (headEnd ++ s))) = .found inside :: headSection.cut s := by
      simpa using cut_of_hit (by simp [headStart, lit]) hit
    rw [cut_of_quiet (headSection_quiet_of_start first _), here, hi, List.flatMap_cons]
    rfl

theorem finds (h : Sections s front sections) : headSection.finds s = sections.map Prod.fst := by
  have chars (t : Text) : (t.map (Piece.char (α := Text))).filterMap Piece.found? = [] := by simp [Piece.found?]
  rw [Pattern.finds, h.cut, List.filterMap_append, chars, List.nil_append, List.filterMap_flatMap,
    List.map_eq_flatMap]
  refine List.flatMap_congr fun entry _ => ?_
  exact congrArg (entry.1 :: ·) (chars entry.2)

theorem unique {t : Text} (h : Sections s front sections) (h' : Sections t gap sections') (he : s = t) :
    front = gap ∧ sections = sections' := by
  induction h generalizing t gap sections'
  case last none =>
    cases h'
    case last => exact ⟨he, rfl⟩
    case cons => exact absurd he (none _ _ _)
  case cons s front inside rest sections first closed _ hi =>
    cases h'
    case last none => exact absurd he.symm (none _ _ _)
    case cons closed' rest' first' =>
      have start := splitOnce?_headStart first (inside ++ (headEnd ++ s))
      rw [he, splitOnce?_headStart first'] at start
      obtain ⟨rfl, behind⟩ := Prod.mk.inj (Option.some.inj start)
      have stop := splitOnce?_headEnd closed s
      rw [← behind, splitOnce?_headEnd closed'] at stop
      obtain ⟨rfl, rest⟩ := Prod.mk.inj (Option.some.inj stop)
      obtain ⟨rfl, rfl⟩ := hi rest' rest.symm
      exact ⟨rfl, rfl⟩

end Sections

theorem exists_sections (s : Text) : ∃ front sections, Sections s front sections := by
  induction hn : s.length using Nat.strong_induction_on generalizing s
  case h n hi =>
    cases hs : splitOnce? headStart s
    case none =>
      refine ⟨s, [], .last fun a inside b he => splitOnce?_eq_none_iff.mp hs ?_⟩
      exact he ▸ ⟨a, inside ++ (headEnd ++ b), by simp⟩
    case some sides =>
      obtain ⟨front, behind⟩ := sides
      have parts := splitOnce?_eq_some hs
      have first := not_infix_of_cut (by decide) hs
      rw [List.append_assoc] at parts
      subst parts
      cases he : splitOnce? headEnd behind
      case none =>
        refine ⟨_, [], .last fun a inside b hp => splitOnce?_eq_none_iff.mp he ?_⟩
        exact headEnd_infix first hp
      case some sides =>
        obtain ⟨inside, rest⟩ := sides
        have parts := splitOnce?_eq_some he
        have closed := not_infix_of_cut (by decide) he
        rw [List.append_assoc] at parts
        subst parts
        have shorter : rest.length < n := by
          simp [← hn, headStart, lit]
          omega
        obtain ⟨gap, sections, h⟩ := hi rest.length shorter rest rfl
        exact ⟨front, _, .cons first closed h⟩

section Replacing

theorem replaceHeads_chars (head t : Text) (pieces : List (Piece Text)) :
    replaceHeads head (t.map .char ++ pieces) = t ++ replaceHeads head pieces := by
  induction t
  case nil => rfl
  case cons c t hi => exact congrArg (c :: ·) hi

theorem replaceHeads_sections (sections : List (Text × Text)) :
    replaceHeads [] (sections.flatMap fun (inside, gap) => .found inside :: gap.map .char) =
      sections.flatMap Prod.snd := by
  induction sections
  case nil => rfl
  case cons entry sections hi =>
    rw [List.flatMap_cons, List.flatMap_cons, ← hi, ← replaceHeads_chars]
    rfl

end Replacing

section Lines

-- The lines of a text without the blanks around them. Those that hold nothing else are not counted.
def spokenLines (s : Text) : List Text :=
  ((s.splitOn lf).map fun line => (line.dropWhile isBlank).rdropWhile isBlank).filter (· ≠ [])

theorem splitOnP_eq (p : Char → Bool) (s : Text) : s.splitOnP p = splitWhere p s := by
  induction s
  case nil => rfl
  case cons c s hi =>
    rw [List.splitOnP_cons_eq_if_modifyHead, splitWhere, hi]
    split
    case isTrue => rfl
    case isFalse =>
      obtain ⟨piece, pieces, hp⟩ := List.exists_cons_of_ne_nil (splitWhere_ne_nil p s)
      rw [hp]
      rfl

theorem spokenLines_eq (s : Text) : spokenLines s = ((split lf s).map trim).filter (· ≠ []) := by
  rw [spokenLines, List.splitOn, splitOnP_eq]
  rfl

theorem headLines_eq (s : Text) : headLines s = spokenLines s := (spokenLines_eq s).symm

theorem newLines_eq_eraseDups (seen lines : List Text) :
    newLines seen lines = (lines.filter (!seen.contains ·)).eraseDups := by
  induction lines generalizing seen
  case nil => rfl
  case cons line lines hi =>
    rw [newLines]
    split
    case isTrue h => rw [List.filter_cons_of_neg (by simpa using h), hi]
    case isFalse h =>
      rw [List.filter_cons_of_pos (by simpa using h), List.eraseDups_cons, List.filter_filter, hi]
      refine congrArg (line :: ·) (congrArg List.eraseDups (List.filter_congr fun other _ => ?_))
      rw [Bool.eq_iff_iff]
      simp

theorem nodup_newLines (seen lines : List Text) : (newLines seen lines).Nodup := by
  induction lines generalizing seen
  case nil => exact .nil
  case cons line lines hi =>
    rw [newLines]
    split
    case isTrue => exact hi seen
    case isFalse => exact List.nodup_cons.mpr ⟨not_mem_newLines List.mem_cons_self, hi _⟩

theorem mem_newLines : line ∈ newLines seen lines ↔ line ∈ lines ∧ line ∉ seen := by
  simp [newLines_eq_eraseDups, List.mem_eraseDups]

theorem foldl_addLine (s : Text) (lines : List Text) :
    lines.foldl addLine s =
      s ++ (if lines = [] ∨ s.getLast? = some lf then [] else lineBreak) ++ lines.flatMap (· ++ lineBreak) := by
  induction lines generalizing s
  case nil => simp
  case cons line lines hi =>
    have ends : (addLine s line).getLast? = some lf := by simp [addLine, lineBreak]
    rw [List.foldl_cons, hi, if_pos (.inr ends), List.append_nil, List.flatMap_cons, addLine]
    split <;> simp [*]

theorem spokenLines_append (a b : Text) : spokenLines (a ++ lf :: b) = spokenLines a ++ spokenLines b := by
  rw [spokenLines_eq, spokenLines_eq, spokenLines_eq, split_append, List.map_append, List.filter_append]

theorem spokenLines_nil : spokenLines [] = [] := rfl

theorem spokenLines_append_of_break (h : a.getLast? = some lf) (b : Text) :
    spokenLines (a ++ b) = spokenLines a ++ spokenLines b := by
  obtain ⟨front, rfl⟩ := List.getLast?_eq_some_iff.mp h
  rw [List.append_assoc, List.singleton_append, spokenLines_append, spokenLines_append, spokenLines_nil, List.append_nil]

theorem infix_join {piece sep : Text} {pieces : List Text} (h : piece ∈ pieces) : piece <:+: join sep pieces := by
  induction pieces using join.induct
  case case1 => cases h
  case case2 t => exact List.mem_singleton.mp h ▸ List.infix_refl t
  case case3 t u pieces hi =>
    rw [join_cons_cons]
    rcases List.mem_cons.mp h with rfl | h
    · rw [List.append_assoc]
      exact (List.prefix_append _ _).isInfix
    · exact (hi h).trans (List.suffix_append _ _).isInfix

theorem infix_of_mem_split {piece : Text} {c : Char} (h : piece ∈ split c s) : piece <:+: s :=
  join_split c s ▸ infix_join h

structure IsHeadLine (line : Text) : Prop where
  whole   : lf ∉ line
  trimmed : trim line = line
  ne_nil  : line ≠ []
  unended : ¬ headEnd <:+: line

theorem isHeadLine_of_mem (closed : ¬ headEnd <:+: inside) (h : line ∈ spokenLines inside) : IsHeadLine line := by
  rw [spokenLines_eq] at h
  obtain ⟨hm, hne⟩ := List.mem_filter.mp h
  obtain ⟨piece, hp, rfl⟩ := List.mem_map.mp hm
  have ⟨before, after, around, _, _⟩ := exists_blanks_around piece
  have within : trim piece <:+: inside := by
    refine List.IsInfix.trans ⟨before, after, ?_⟩ (infix_of_mem_split hp)
    exact around.symm
  refine ⟨fun hc => ?_, (isTrimmed_trim piece).trim_eq, of_decide_eq_true hne, fun hi => closed (hi.trans within)⟩
  have := free_of_mem_splitWhere hp lf ((trim_sublist piece).subset hc)
  exact absurd this (by decide)

theorem IsHeadLine.spokenLines_self (h : IsHeadLine line) : spokenLines line = [line] := by
  rw [spokenLines_eq, split_of_free h.whole, List.map_singleton, h.trimmed,
    List.filter_cons_of_pos (by simpa using h.ne_nil)]
  rfl

theorem spokenLines_flatMap (h : ∀ line ∈ lines, IsHeadLine line) :
    spokenLines (lines.flatMap (· ++ lineBreak)) = lines := by
  induction lines
  case nil => rfl
  case cons line lines hi =>
    have ⟨first, rest⟩ := List.forall_mem_cons.mp h
    rw [List.flatMap_cons, List.append_assoc, lineBreak, List.singleton_append, spokenLines_append, first.spokenLines_self]
    exact congrArg (line :: ·) (hi rest)

theorem headEnd_infix_break : headEnd <:+: a ++ lf :: b ↔ headEnd <:+: a ∨ headEnd <:+: b := by
  have cuts : Cuts [lf] headEnd := by decide
  have avoids : Avoids [lf] headEnd := by decide
  have : headEnd <:+: a ++ ([lf] ++ b) ↔ headEnd <:+: a ∨ headEnd <:+: [lf] ++ b := cuts.infix_iff (by decide)
  rw [avoids.infix_iff] at this
  exact this

theorem not_headEnd_flatMap (h : ∀ line ∈ lines, IsHeadLine line) :
    ¬ headEnd <:+: lines.flatMap (· ++ lineBreak) := by
  induction lines
  case nil => decide
  case cons line lines hi =>
    have ⟨first, rest⟩ := List.forall_mem_cons.mp h
    rw [List.flatMap_cons, List.append_assoc, lineBreak, List.singleton_append, headEnd_infix_break]
    exact fun hp => hp.elim first.unended (hi rest)

end Lines

section Merging

-- The lines of other sections that are not in the first, each where it stands first.
def fresh (first : Text) (others : List Text) : List Text :=
  ((others.flatMap spokenLines).filter (!(spokenLines first).contains ·)).eraseDups

-- Lines of their own behind a text, which may be in the middle of a line.
def ownLines (s : Text) (lines : List Text) : Text :=
  (if lines = [] ∨ s.getLast? = some lf then [] else lineBreak) ++ lines.flatMap (· ++ lineBreak)

-- What is added to the first section for those of the others: nothing of the first is lost, nothing is there twice.
structure Gathers (first : Text) (others : List Text) (added : Text) : Prop where
  written : added = ownLines first (fresh first others)
  lines   : spokenLines (first ++ added) = spokenLines first ++ fresh first others
  union   : ∀ line, line ∈ spokenLines (first ++ added) ↔
              line ∈ spokenLines first ∨ ∃ other ∈ others, line ∈ spokenLines other
  once    : ∀ line, line ∉ spokenLines first → (∃ other ∈ others, line ∈ spokenLines other) →
              (spokenLines (first ++ added)).count line = 1

variable {first : Text} {others : List Text}

theorem mem_fresh : line ∈ fresh first others ↔
    line ∉ spokenLines first ∧ ∃ other ∈ others, line ∈ spokenLines other := by
  rw [fresh, ← newLines_eq_eraseDups, mem_newLines, List.mem_flatMap, and_comm]

theorem mergedHead_eq (first : Text) (others : List Text) :
    mergedHead first others = headStart ++ ((first ++ ownLines first (fresh first others)) ++ headEnd) := by
  have ends : (headStart ++ first).getLast? = some lf ↔ first.getLast? = some lf := by
    rw [List.getLast?_append]
    cases first.getLast?
    case none => decide
    case some => rfl
  rw [mergedHead, funext headLines_eq, foldl_addLine, newLines_eq_eraseDups, ownLines, fresh]
  simp only [ends, List.append_assoc]

variable (closed : ¬ headEnd <:+: first) (all : ∀ other ∈ others, ¬ headEnd <:+: other)

include all

theorem isHeadLine_fresh (first : Text) : ∀ line ∈ fresh first others, IsHeadLine line := by
  intro line hl
  obtain ⟨_, other, ho, hl⟩ := mem_fresh.mp hl
  exact isHeadLine_of_mem (all other ho) hl

theorem spokenLines_ownLines :
    spokenLines (first ++ ownLines first (fresh first others)) = spokenLines first ++ fresh first others := by
  have own := spokenLines_flatMap (isHeadLine_fresh all first)
  rw [ownLines]
  split
  case isFalse =>
    rw [lineBreak, List.singleton_append, spokenLines_append]
    exact congrArg _ own
  case isTrue h =>
    rw [List.nil_append]
    rcases h with h | h
    · simp [h]
    · rw [spokenLines_append_of_break h, own]

theorem gathers_ownLines : Gathers first others (ownLines first (fresh first others)) where
  written := rfl
  lines   := spokenLines_ownLines all
  union   := by
    intro line
    rw [spokenLines_ownLines all, List.mem_append, mem_fresh]
    by_cases h : line ∈ spokenLines first <;> simp [h]
  once    := by
    intro line absent present
    have nodup : (fresh first others).Nodup := by
      rw [fresh, ← newLines_eq_eraseDups]
      exact nodup_newLines _ _
    rw [spokenLines_ownLines all, List.count_append, List.count_eq_zero_of_not_mem absent,
      List.count_eq_one_of_mem nodup (mem_fresh.mpr ⟨absent, present⟩)]

include closed

theorem not_headEnd_ownLines : ¬ headEnd <:+: first ++ ownLines first (fresh first others) := by
  have own := not_headEnd_flatMap (isHeadLine_fresh all first)
  rw [ownLines]
  split
  case isFalse =>
    rw [lineBreak, List.singleton_append, headEnd_infix_break]
    exact fun h => h.elim closed own
  case isTrue h =>
    rw [List.nil_append]
    rcases h with h | h
    · simpa [h] using closed
    · obtain ⟨front, rfl⟩ := List.getLast?_eq_some_iff.mp h
      rw [headEnd_infix_break, or_iff_left (by decide)] at closed
      rw [List.append_assoc, List.singleton_append, headEnd_infix_break]
      exact fun h => h.elim closed own

end Merging

theorem Sections.closed (h : Sections s front sections) : ∀ entry ∈ sections, ¬ headEnd <:+: entry.1 := by
  induction h
  case last => exact nofun
  case cons closed _ hi => exact List.forall_mem_cons.mpr ⟨closed, hi⟩

theorem Sections.first {inside gap : Text} (h : Sections s front ((inside, gap) :: sections)) :
    ¬ headStart <:+: front := by
  cases h
  assumption

theorem Sections.exists_rest {inside gap : Text} (h : Sections s front ((inside, gap) :: sections)) :
    ∃ rest, Sections rest gap sections ∧ s = front ++ (headStart ++ (inside ++ (headEnd ++ rest))) := by
  cases h
  case cons rest => exact ⟨_, rest, rfl⟩

theorem exists_sections_several (h : 2 ≤ (headSection.finds s).length) :
    ∃ front first gap others, Sections s front ((first, gap) :: others) ∧ others ≠ [] := by
  obtain ⟨front, sections, parts⟩ := exists_sections s
  rw [parts.finds, List.length_map] at h
  rcases sections with _ | ⟨⟨first, gap⟩, _ | ⟨second, others⟩⟩
  · contradiction
  · simp at h
  · exact ⟨front, first, gap, second :: others, parts, List.cons_ne_nil _ _⟩

theorem mergeHeads_of_single (h : (headSection.finds s).length ≤ 1) : mergeHeads s = s := by
  rw [mergeHeads]
  split
  case h_1 hs => simp [hs] at h
  case h_2 => rfl

theorem Sections.mergeHeads_several {first gap : Text} {others : List (Text × Text)}
    (h : Sections s front ((first, gap) :: others)) (several : others ≠ []) :
    ∃ added, Gathers first (others.map Prod.fst) added ∧
      mergeHeads s = front ++ (headStart ++ ((first ++ added) ++ (headEnd ++ (gap ++ others.flatMap Prod.snd)))) ∧
      ∃ gap' sections', Sections (mergeHeads s) front ((first ++ added, gap') :: sections') := by
  obtain ⟨closed, later⟩ := List.forall_mem_cons.mp h.closed
  have all : ∀ other ∈ others.map Prod.fst, ¬ headEnd <:+: other := by simpa using later
  have merged : mergeHeads s =
      front ++ (headStart ++ ((first ++ ownLines first (fresh first (others.map Prod.fst))) ++
        (headEnd ++ (gap ++ others.flatMap Prod.snd)))) := by
    obtain ⟨second, others, rfl⟩ := List.exists_cons_of_ne_nil several
    rw [mergeHeads, h.finds]
    change replaceHeads (mergedHead first ((second :: others).map Prod.fst)) _ = _
    rw [h.cut, replaceHeads_chars, List.flatMap_cons, mergedHead_eq]
    change front ++ (_ ++ replaceHeads [] (gap.map .char ++ _)) = _
    rw [replaceHeads_chars, replaceHeads_sections]
    simp only [List.append_assoc]
  refine ⟨_, gathers_ownLines all, merged, ?_⟩
  obtain ⟨gap', sections', rest⟩ := exists_sections (gap ++ others.flatMap Prod.snd)
  exact ⟨gap', sections', merged ▸ .cons h.first (not_headEnd_ownLines closed all) rest⟩

-- Every text is cut at its head sections in one way. With fewer than two of them it stays as it is. Otherwise what is
-- outside of them stays, the others are left out, and the first one, which is still the first that is found, gets
-- their lines.
theorem mergeHeads_sections (s : Text) :
    ∃ front sections, Sections s front sections ∧
      (∀ front' sections', Sections s front' sections' → front' = front ∧ sections' = sections) ∧
      (sections.length < 2 → mergeHeads s = s) ∧
      ∀ first gap others, sections = (first, gap) :: others → others ≠ [] →
        ∃ added, Gathers first (others.map Prod.fst) added ∧
          mergeHeads s =
            front ++ (headStart ++ ((first ++ added) ++ (headEnd ++ (gap ++ others.flatMap Prod.snd)))) ∧
          ∃ gap' sections', Sections (mergeHeads s) front ((first ++ added, gap') :: sections') := by
  obtain ⟨front, sections, h⟩ := exists_sections s
  refine ⟨front, sections, h, fun _ _ h' => h'.unique h rfl, fun few => ?_, fun first gap others he several => ?_⟩
  · exact mergeHeads_of_single (by rw [h.finds, List.length_map]; exact Nat.le_of_lt_succ few)
  · subst he
    exact h.mergeHeads_several several

-- A line of the second section that is in the first is not repeated, nor is one that the second has twice.
theorem mergeHeads_sections_repeated :
    let s := lit "<head>a</head>x<head>\n b\r\n\na\nb</head>y"
    spokenLines (lit "\n b\r\n\na\nb") = [lit "b", lit "a", lit "b"] ∧
      mergeHeads s = lit "<head>a\nb\n</head>xy" ∧
      ∃ front sections, Sections s front sections ∧
        ∀ first gap others, sections = (first, gap) :: others → others ≠ [] →
          ∃ added, Gathers first (others.map Prod.fst) added := by
  intro s
  have ⟨front, sections, parts, _, _, several⟩ := mergeHeads_sections s
  refine ⟨by decide, by decide +kernel, front, sections, parts, fun first gap others he hne => ?_⟩
  have ⟨added, gathers, _⟩ := several first gap others he hne
  exact ⟨added, gathers⟩

end WikiPages.Cleanup
