import WikiPages.Proofs.Specification.Trailing

namespace WikiPages

open Text

variable {body front gap inner kind name rest run s : Text} {c : Char}

namespace Override

theorem exists_words_splitTitle (s : Text) : ∃ dropped, words s = words (splitTitle s).1 ++ dropped ∧
    (∀ word ∈ dropped, isWord word = true) ∧ (∀ word ∈ (words (splitTitle s).1).getLast?, isWord word = false) ∧
    (dropped = [] → (splitTitle s).1 = s) := by
  have ⟨title, pairs, split, trailing, last⟩ := exists_trailing s
  have kept : (splitTitle s).1 = if pairs = [] then s else join [' '] title := by
    rw [splitTitle_of_words split trailing last]
  have words : words (splitTitle s).1 = title := by
    rw [kept]
    split
    case isTrue none => rw [split, none, List.map_nil, List.append_nil]
    case isFalse => exact words_join fun word hw => isWord_of_mem_words (split ▸ List.mem_append_left _ hw)
  rw [words]
  have shape : ∀ word ∈ pairs.map written, isWord word = true :=
    List.forall_mem_map.mpr fun pair hp => (trailing pair hp).shape
  refine ⟨pairs.map written, split, shape, last, fun none => ?_⟩
  rw [kept, if_pos (List.map_eq_nil_iff.mp none)]

theorem splitTitle_ne_of_solid (hc : c ∈ front) (solid : isBlank c = false) (rest : Text) :
    (splitTitle (trim rest)).1 ≠ front ++ rest := by
  intro he
  have ⟨dropped, words, _⟩ := exists_words_splitTitle (trim rest)
  have lengths := congrArg (·.flatten.length) words
  have lost : 0 < (front.filter (!isBlank ·)).length :=
    List.length_pos_of_mem (List.mem_filter.mpr ⟨hc, by simp [solid]⟩)
  rw [he, words_trim] at lengths
  simp only [List.flatten_append, flatten_words, List.filter_append, List.length_append] at lengths
  omega

theorem splitTitle_behind_iff (hn : IsTrimmed name) (given : name ≠ []) (hg : gap ≠ [])
    (blank : ∀ c ∈ gap, isBlank c = true) :
    (splitTitle (trim (rest ++ (gap ++ name)))).1 = name ↔
      (∀ c ∈ rest, isBlank c = true) ∧ ∀ word ∈ (words name).getLast?, isWord word = false := by
  have both : words (rest ++ (gap ++ name)) = words rest ++ words name := by
    cases gap
    case nil => exact absurd rfl hg
    case cons c gap =>
      have ⟨hc, blank⟩ := List.forall_mem_cons.mp blank
      rw [List.cons_append, words_append hc, words_append_blank blank]
  constructor
  case mpr =>
    rintro ⟨none, last⟩
    have alone : trim (rest ++ (gap ++ name)) = name := by
      have := trim_within (s := name) (b := []) (List.forall_mem_append.mpr ⟨none, blank⟩) (List.forall_mem_nil _)
      rwa [List.append_nil, hn.trim_eq, List.append_assoc] at this
    rw [alone, splitTitle_eq_self last]
  case mp =>
    intro he
    have ⟨dropped, words, override, last, _⟩ := exists_words_splitTitle (trim (rest ++ (gap ++ name)))
    rw [he] at words last
    rw [words_trim, both] at words
    refine ⟨words_eq_nil_iff.mp ?_, last⟩
    have some : Text.words name ≠ [] := by
      intro none
      have ⟨c, hc⟩ := List.exists_mem_of_ne_nil name given
      have first := hn.first (name.head given) (List.head?_eq_some_head given)
      rw [words_eq_nil_iff.mp none _ (List.head_mem given)] at first
      cases first
    -- the last word is the last of the name on both sides, so no word has been dropped
    have kept : dropped = [] := by
      by_contra lost
      have ends := congrArg List.getLast? words
      rw [List.getLast?_append_of_ne_nil _ some, List.getLast?_append_of_ne_nil _ lost,
        List.getLast?_eq_some_getLast lost] at ends
      cases (last _ ends).symm.trans (override _ (List.getLast_mem lost))
    rw [kept, List.append_nil] at words
    exact List.append_left_eq_self.mp words

theorem IsClosed.exists_isRun_opened {closed : Text} (h : IsClosed closed) (free : ')' ∉ inner) (hn : IsTrimmed name)
    (given : name ≠ []) : ∃ front rest, name = front ++ rest ∧ IsRun (closed ++ '(' :: (inner ++ front)) rest ∧
      ∃ c ∈ front, isBlank c = false := by
  by_cases closing : ')' ∈ name
  case neg =>
    have opened : IsRun (closed ++ '(' :: (inner ++ name)) [] :=
      .inr ⟨rfl, closed, inner ++ name, rfl, h, List.not_mem_append free closing⟩
    have solid := hn.first _ (List.head?_eq_some_head given)
    exact ⟨name, [], (List.append_nil _).symm, opened, name.head given, List.head_mem given, solid⟩
  case pos =>
    have ⟨front, behind, parts, first⟩ := List.eq_append_cons_of_mem closing
    have ⟨run, rest, split, hr⟩ := exists_isRun behind
    refine ⟨front ++ ')' :: run, rest, by rw [parts, split]; simp, ?_, ')', by simp, rfl⟩
    have group : IsClosed ('(' :: (inner ++ front ++ ')' :: [])) := .group (List.not_mem_append free first) .nil
    have := (h.append group).isRun_append hr
    simpa using this

end Override

namespace Directive

theorem Head.Parts.exists_solid (h : Head.Parts s kind run rest) (hs : IsTrimmed s) (given : s ≠ []) :
    ∃ c ∈ kind ++ run, isBlank c = false := by
  have first := hs.first _ (List.head?_eq_some_head given)
  cases hk : kind ++ run
  case cons c front =>
    refine ⟨c, List.mem_cons_self, hs.first c ?_⟩
    rw [h.whole, ← List.append_assoc, hk]
    rfl
  case nil =>
    have ⟨noKind, noRun⟩ := List.append_eq_nil_iff.mp hk
    have whole := h.whole
    have stop := h.stop
    have hr := h.run
    rw [noKind, noRun, List.nil_append, List.nil_append] at whole
    rw [noRun, List.nil_append, ← whole] at stop
    rw [noRun, ← whole] at hr
    have opening := (stop _ (List.head?_eq_some_head given)).resolve_left (by simp [first])
    rcases hr with ⟨_, other⟩ | ⟨none, _⟩
    · exact absurd (opening ▸ List.head?_eq_some_head given) other
    · exact absurd none given

theorem title_ofParts (body trailing : Text) : (ofParts body trailing).title =
    (Override.splitTitle (Head.read (trim (body.takeWhile (· ≠ '|')))).title).1 := by
  rw [ofParts, takeWhile_of_splitOnce?]

-- A body of a kind and of groups that are closed.
def IsBare (body : Text) : Prop :=
  ∃ kind run, trim body ≠ [] ∧ Head.Parts (trim body) kind run [] ∧ Override.IsClosed run

-- The bodies behind which a name is the title. Otherwise they have to have it for their own title.
inductive Shows (body name : Text) : Prop
  | behind : name ≠ [] → '|' ∉ body → IsBare body → (∀ word ∈ (words name).getLast?, Override.isWord word = false) →
    Shows body name
  | own : name = [] ∨ '|' ∈ body → (ofParts body []).title = name → Shows body name

theorem title_ofParts_own (h : name = [] ∨ '|' ∈ body) :
    (ofParts (body ++ ' ' :: name) []).title = (ofParts body []).title := by
  have heads : trim ((body ++ ' ' :: name).takeWhile (· ≠ '|')) = trim (body.takeWhile (· ≠ '|')) := by
    by_cases bar : '|' ∈ body
    case pos =>
      have ⟨front, back, parts, free⟩ := List.eq_append_cons_of_mem bar
      have inside : ∀ c ∈ front, decide (c ≠ '|') = true := fun c hc => decide_eq_true fun he => free (he ▸ hc)
      rw [parts, List.append_assoc, List.takeWhile_append_of_pos inside, List.takeWhile_append_of_pos inside]
      rfl
    case neg =>
      have inside : ∀ c ∈ body, decide (c ≠ '|') = true := fun c hc => decide_eq_true fun he => bar (he ▸ hc)
      rw [h.resolve_right bar, List.takeWhile_append_of_pos inside, List.takeWhile_eq_self_iff.mpr inside]
      exact trim_within (a := []) (b := [' ']) (List.forall_mem_nil _) (by simp [isBlank])
  rw [title_ofParts, title_ofParts, heads]

theorem isBare_iff (h : Head.Parts (trim body) kind run rest) (given : trim body ≠ []) :
    IsBare body ↔ Override.IsClosed run ∧ ∀ c ∈ rest, isBlank c = true := by
  constructor
  · rintro ⟨kind', run', _, parts, closed⟩
    have ⟨_, runs, rests⟩ := h.unique parts
    exact ⟨runs ▸ closed, rests ▸ List.forall_mem_nil _⟩
  · rintro ⟨closed, blank⟩
    have none : rest = [] := by
      by_contra more
      have last : (trim body).getLast? = some (rest.getLast more) := by
        rw [h.whole, ← List.append_assoc, List.getLast?_append_of_ne_nil _ more, List.getLast?_eq_some_getLast more]
      cases (blank _ (List.getLast_mem more)).symm.trans ((isTrimmed_trim body).last _ last)
    exact ⟨kind, run, given, none ▸ h, closed⟩

theorem isBare_iff_read : IsBare body ↔
    trim body ≠ [] ∧ Override.IsClosed (Head.read (trim body)).groups ∧ (Head.read (trim body)).title = [] := by
  have ⟨kind, run, rest, parts⟩ := Head.exists_parts (trim body)
  rw [parts.read, trim_eq_nil_iff]
  refine ⟨fun h => ?_, fun ⟨given, h⟩ => (isBare_iff parts given).mpr h⟩
  have ⟨_, _, given, _⟩ := h
  exact ⟨given, (isBare_iff parts given).mp h⟩

instance : Decidable (IsBare body) := decidable_of_iff _ isBare_iff_read.symm

instance : Decidable (Shows body name) :=
  decidable_of_iff ((name ≠ [] ∧ '|' ∉ body ∧ IsBare body ∧
      ∀ word ∈ (words name).getLast?, Override.isWord word = false) ∨
      (name = [] ∨ '|' ∈ body) ∧ (ofParts body []).title = name) <| by
    refine ⟨?_, fun h => ?_⟩
    · rintro (⟨given, bar, bare, last⟩ | ⟨own, title⟩)
      · exact .behind given bar bare last
      · exact .own own title
    · cases h
      case behind given bar bare last => exact .inl ⟨given, bar, bare, last⟩
      case own own title => exact .inr ⟨own, title⟩

theorem exists_trim_behind (hn : IsTrimmed name) (given : name ≠ []) (body : Text) :
    ∃ gap, gap ≠ [] ∧ (∀ c ∈ gap, isBlank c = true) ∧
      trim (body ++ ' ' :: name) = if trim body = [] then name else trim body ++ (gap ++ name) := by
  obtain ⟨before, after, parts, front, back⟩ := exists_blanks_around body
  have blank : ∀ c ∈ after ++ [' '], isBlank c = true := List.forall_mem_append.mpr ⟨back, by simp [isBlank]⟩
  have whole : body ++ ' ' :: name = before ++ (trim body ++ (after ++ [' '] ++ name)) ++ [] := by
    nth_rewrite 1 [parts]
    simp
  refine ⟨after ++ [' '], by simp, blank, ?_⟩
  rw [whole, trim_within front (List.forall_mem_nil _)]
  split
  case isTrue none =>
    have := trim_within (s := name) (b := []) blank (List.forall_mem_nil _)
    rw [List.append_nil, hn.trim_eq] at this
    rw [none, List.nil_append, this]
  case isFalse more =>
    refine IsTrimmed.trim_eq ((isTrimmed_trim body).append more ?_)
    rw [List.getLast?_append_of_ne_nil _ given]
    exact hn.last

theorem title_read_ne (hn : IsTrimmed name) (given : name ≠ []) :
    (Override.splitTitle (Head.read name).title).1 ≠ name := by
  obtain ⟨kind, run, rest, parts⟩ := Head.exists_parts name
  obtain ⟨c, hc, solid⟩ := parts.exists_solid hn given
  have other := Override.splitTitle_ne_of_solid hc solid rest
  rw [List.append_assoc, ← parts.whole] at other
  rwa [parts.read]

section Behind

variable (hn : IsTrimmed name) (given : name ≠ []) (blank : ∀ c ∈ gap, isBlank c = true)

include hn given blank

theorem title_read_append_iff (h : Head.Parts s kind run rest) (closed : Override.IsClosed run) (hg : gap ≠ []) :
    (Override.splitTitle (Head.read (s ++ (gap ++ name))).title).1 = name ↔
      (∀ c ∈ rest, isBlank c = true) ∧ ∀ word ∈ (words name).getLast?, Override.isWord word = false := by
  have behind : ∀ c ∈ (gap ++ name).head?, isBlank c = true := by
    intro c hc
    rw [List.head?_append_of_ne_nil _ hg] at hc
    exact blank c (List.mem_of_mem_head? hc)
  rw [(h.append closed behind).read]
  exact Override.splitTitle_behind_iff hn given hg blank

theorem title_read_opened_ne {closed : Text} (h : Head.Parts s kind (closed ++ '(' :: inner) [])
    (hc : Override.IsClosed closed) (unclosed : ')' ∉ inner) :
    (Override.splitTitle (Head.read (s ++ (gap ++ name))).title).1 ≠ name := by
  have free : ')' ∉ inner ++ gap := List.not_mem_append unclosed fun hm => absurd (blank _ hm) (by decide)
  obtain ⟨front, rest, split, hr, c, mem, solid⟩ := hc.exists_isRun_opened free hn given
  have taken : Head.Parts (s ++ (gap ++ name)) kind (closed ++ '(' :: (inner ++ gap ++ front)) rest := by
    refine ⟨?_, h.kind, ?_, hr⟩
    · rw [h.whole]
      nth_rewrite 1 [split]
      simp
    · have stop := h.stop
      cases closed <;> exact stop
  rw [taken.read, split]
  exact Override.splitTitle_ne_of_solid mem solid rest

end Behind

theorem title_ofParts_behind_iff (hn : IsTrimmed name) (single : '|' ∉ name) (given : name ≠ []) (bar : '|' ∉ body) :
    (ofParts (body ++ ' ' :: name) []).title = name ↔
      IsBare body ∧ ∀ word ∈ (words name).getLast?, Override.isWord word = false := by
  have free : ∀ c ∈ body ++ ' ' :: name, decide (c ≠ '|') = true := by
    have apart : '|' ∉ body ++ ' ' :: name :=
      List.not_mem_append bar (List.not_mem_cons_of_ne_of_not_mem (by decide) single)
    exact fun c hc => decide_eq_true fun he => apart (he ▸ hc)
  obtain ⟨gap, some, blank, head⟩ := exists_trim_behind hn given body
  rw [title_ofParts, List.takeWhile_eq_self_iff.mpr free, head]
  split
  case isTrue none =>
    refine iff_of_false (title_read_ne hn given) ?_
    rintro ⟨⟨_, _, something, _⟩, _⟩
    exact something none
  case isFalse something =>
    obtain ⟨kind, run, rest, parts⟩ := Head.exists_parts (trim body)
    rw [isBare_iff parts something]
    rcases parts.run with ⟨closed, _⟩ | ⟨none, closed, inner, opened, hc, unclosed⟩
    case inl =>
      rw [and_iff_right closed]
      exact title_read_append_iff hn given blank parts closed some
    case inr =>
      subst none opened
      exact iff_of_false (title_read_opened_ne hn given blank parts hc unclosed) fun h => hc.ne_opened unclosed h.1.1

theorem title_ofParts_iff (hn : IsTrimmed name) (single : '|' ∉ name) :
    (ofParts (body ++ ' ' :: name) []).title = name ↔ Shows body name := by
  by_cases own : name = [] ∨ '|' ∈ body
  case pos =>
    rw [title_ofParts_own own]
    refine ⟨.own own, fun h => ?_⟩
    cases h
    case own title => exact title
    case behind given bar _ _ => exact absurd own (not_or.mpr ⟨given, bar⟩)
  case neg =>
    have ⟨given, bar⟩ := not_or.mp own
    rw [title_ofParts_behind_iff hn single given bar]
    refine ⟨fun ⟨bare, last⟩ => .behind given bar bare last, fun h => ?_⟩
    cases h
    case own => contradiction
    case behind bare last => exact ⟨bare, last⟩

end Directive
end WikiPages
