import WikiPages.Proofs.Text.Cutting
import WikiPages.Proofs.Text.Trimming

namespace WikiPages.Text

variable {a b s sep piece word : Text} {ws : List Text} {c : Char}

theorem subset_of_splitOnce? (h : splitOnce? sep s = some (a, b)) : a ⊆ s ∧ b ⊆ s := by
  rw [splitOnce?_eq_some h]
  simp

theorem takeWhile_of_splitOnce? (c : Char) (s : Text) :
    ((splitOnce? [c] s).getD (s, [])).1 = s.takeWhile (· ≠ c) := by
  by_cases h : c ∈ s
  case neg =>
    have whole : s.takeWhile (· ≠ c) = s :=
      List.takeWhile_eq_self_iff.mpr fun d hd => decide_eq_true fun he => h (he ▸ hd)
    rw [splitOnce?_eq_none_iff.mpr fun hs => h (hs.subset List.mem_cons_self), whole]
    rfl
  case pos =>
    have ⟨front, back, parts, free⟩ := List.eq_append_cons_of_mem h
    have inside : ∀ d ∈ front, decide (d ≠ c) = true := fun d hd => decide_eq_true fun he => free (he ▸ hd)
    rw [parts, splitOnce?_of_free free, List.takeWhile_append_of_pos inside, List.takeWhile_cons_of_neg (by simp),
      List.append_nil]
    rfl

theorem flatten_splitWhere (p : Char → Bool) (s : Text) : (splitWhere p s).flatten = s.filter (!p ·) := by
  induction s
  case nil => rfl
  case cons c s hi =>
    rw [splitWhere, List.filter_cons, ← hi]
    cases p c
    case true => rfl
    case false =>
      cases hs : splitWhere p s
      case nil => exact absurd hs (splitWhere_ne_nil p s)
      case cons => rfl

section Pieces

variable {p : Char → Bool}

theorem subset_filter_of_mem_splitWhere (h : piece ∈ splitWhere p s) : piece ⊆ s.filter (!p ·) := by
  rw [← flatten_splitWhere]
  exact fun c hc => List.mem_flatten.mpr ⟨piece, h, hc⟩

theorem subset_of_mem_splitWhere (h : piece ∈ splitWhere p s) : piece ⊆ s :=
  List.Subset.trans (subset_filter_of_mem_splitWhere h) (List.filter_subset_self s)

theorem free_of_mem_splitWhere (h : piece ∈ splitWhere p s) : ∀ c ∈ piece, p c = false := by
  intro c hc
  simpa using (List.mem_filter.mp (subset_filter_of_mem_splitWhere h hc)).2

end Pieces

theorem words_append (hc : isBlank c = true) (front back : Text) :
    words (front ++ c :: back) = words front ++ words back := by
  rw [words, splitWhere_append hc, List.filter_append]
  rfl

theorem words_cons (hc : isBlank c = true) (s : Text) : words (c :: s) = words s :=
  words_append hc [] s

theorem words_append_blank (ha : ∀ c ∈ a, isBlank c = true) (s : Text) : words (a ++ s) = words s := by
  induction a
  case nil => rfl
  case cons c a hi =>
    have ⟨hc, ha⟩ := List.forall_mem_cons.mp ha
    rw [List.cons_append, words_cons hc, hi ha]

theorem words_of_blank (h : ∀ c ∈ s, isBlank c = true) : words s = [] := by
  have := words_append_blank h []
  rwa [List.append_nil] at this

theorem words_append_of_blank (s : Text) (hb : ∀ c ∈ b, isBlank c = true) : words (s ++ b) = words s := by
  cases b
  case nil => rw [List.append_nil]
  case cons c b =>
    have ⟨hc, hb⟩ := List.forall_mem_cons.mp hb
    rw [words_append hc, words_of_blank hb, List.append_nil]

theorem exists_blanks_around (s : Text) : ∃ before after, s = before ++ trim s ++ after ∧
    (∀ c ∈ before, isBlank c = true) ∧ ∀ c ∈ after, isBlank c = true := by
  refine ⟨s.takeWhile isBlank, ((trimStart s).reverse.takeWhile isBlank).reverse, ?_, ?_, ?_⟩
  · rw [trim, trimEnd, List.append_assoc, ← List.reverse_append, List.takeWhile_append_dropWhile, List.reverse_reverse,
      trimStart, List.takeWhile_append_dropWhile]
  · exact fun _ => List.mem_takeWhile_imp
  · exact fun _ hc => List.mem_takeWhile_imp (List.mem_reverse.mp hc)

theorem words_trim (s : Text) : words (trim s) = words s := by
  have ⟨before, after, parts, front, back⟩ := exists_blanks_around s
  nth_rewrite 2 [parts]
  rw [words_append_of_blank _ back, words_append_blank front]

theorem flatten_words (s : Text) : (words s).flatten = s.filter (!isBlank ·) := by
  rw [words, List.flatten_filter_ne_nil, flatten_splitWhere]

theorem words_eq_nil_iff : words s = [] ↔ ∀ c ∈ s, isBlank c = true := by
  refine ⟨fun h => ?_, words_of_blank⟩
  have none := flatten_words s
  rw [h, List.flatten_nil, eq_comm, List.filter_eq_nil_iff] at none
  simpa using none

theorem trim_eq_nil_iff : trim s = [] ↔ ∀ c ∈ s, isBlank c = true := by
  constructor
  case mp =>
    intro h
    rw [← words_eq_nil_iff, ← words_trim, h]
    rfl
  case mpr =>
    intro h
    have := trim_within (s := []) h (List.forall_mem_nil _)
    rwa [List.append_nil, List.append_nil] at this

structure IsWord (word : Text) : Prop where
  given : word ≠ []
  solid : ∀ c ∈ word, isBlank c = false

instance : Decidable (IsWord word) :=
  decidable_of_iff (word ≠ [] ∧ (word.all fun c => !isBlank c) = true)
    ⟨fun ⟨given, solid⟩ => ⟨given, by simpa using solid⟩, fun h => ⟨h.given, by simpa using h.solid⟩⟩

theorem words_of_isWord (h : IsWord word) : words word = [word] := by
  rw [words, splitWhere_of_free h.solid]
  simp [h.given]

theorem isTrimmed_of_solid (h : ∀ c ∈ s, isBlank c = false) : IsTrimmed s where
  first := fun c hc => h c (List.mem_of_mem_head? hc)
  last  := fun c hc => h c (List.mem_of_mem_getLast? hc)

theorem isWord_of_mem_words (h : word ∈ words s) : IsWord word where
  given := of_decide_eq_true (List.mem_filter.mp h).2
  solid := free_of_mem_splitWhere (List.mem_filter.mp h).1

theorem subset_of_mem_words (h : piece ∈ words s) : piece ⊆ s :=
  subset_of_mem_splitWhere (List.mem_filter.mp h).1

theorem words_join (h : ∀ word ∈ ws, IsWord word) : words (join [' '] ws) = ws := by
  induction ws using join.induct
  case case1 => rfl
  case case2 word => exact words_of_isWord (h word List.mem_cons_self)
  case case3 first second rest hi =>
    obtain ⟨hf, h⟩ := List.forall_mem_cons.mp h
    have blank : isBlank ' ' = true := rfl
    rw [join_cons_cons, List.append_assoc, List.singleton_append, words_append blank, words_of_isWord hf, hi h,
      List.singleton_append]

theorem exists_of_words_cons (h : words s = word :: ws) : ∃ before rest, s = before ++ (word ++ rest) ∧
    (∀ c ∈ before, isBlank c = true) ∧ (∀ c ∈ rest.head?, isBlank c = true) ∧ words rest = ws := by
  let start := s.dropWhile isBlank
  have parts : s.takeWhile isBlank ++ (start.takeWhile (!isBlank ·) ++ start.dropWhile (!isBlank ·)) = s := by
    rw [List.takeWhile_append_dropWhile, List.takeWhile_append_dropWhile]
  have front : ∀ c ∈ s.takeWhile isBlank, isBlank c = true := fun _ => List.mem_takeWhile_imp
  have solid : ∀ c ∈ start.takeWhile (!isBlank ·), isBlank c = false := by
    intro c hc
    simpa using List.mem_takeWhile_imp hc
  have behind : ∀ c ∈ (start.dropWhile (!isBlank ·)).head?, isBlank c = true := by
    intro c hc
    have := List.head?_dropWhile_not (!isBlank ·) start
    rw [Option.mem_def.mp hc] at this
    simpa using this
  have first : start.takeWhile (!isBlank ·) ≠ [] := by
    intro hn
    have none : start = [] := by
      cases hs : start
      case nil => rfl
      case cons c rest =>
        have hc : isBlank c = false := first_dropWhile_isBlank s c (by rw [show s.dropWhile isBlank = _ from hs]; rfl)
        rw [hs, List.takeWhile_cons_of_pos (by simp [hc])] at hn
        cases hn
    have all : ∀ c ∈ s, isBlank c = true := List.dropWhile_eq_nil_iff.mp none
    rw [words_of_blank all] at h
    cases h
  generalize s.takeWhile isBlank = before at parts front
  generalize start.takeWhile (!isBlank ·) = read at parts solid first
  generalize start.dropWhile (!isBlank ·) = rest at parts behind
  have cut : words (read ++ rest) = read :: words rest := by
    cases rest
    case nil => rw [List.append_nil, words_of_isWord ⟨first, solid⟩]; rfl
    case cons c rest =>
      have hc := behind c rfl
      rw [words_append hc, words_of_isWord ⟨first, solid⟩, words_cons hc]
      rfl
  rw [← parts, words_append_blank front, cut] at h
  cases h
  exact ⟨before, rest, parts.symm, front, behind, rfl⟩

end WikiPages.Text
