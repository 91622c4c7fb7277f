import WikiPages.Proofs.Cleanup.Brackets

namespace WikiPages.Cleanup

open Text Pattern

variable {s a b u v x y inside start stop start' stop' : Text} {c : Char}

section Values

-- Around empty values in a text stands the empty value of an attribute, which is left when they are dropped.
def Torn (s : Text) : Prop := ∃ x y, '=' :: (x ++ '\x22' :: (y ++ ['\x22'])) <:+: s ∧ x ++ y ≠ [] ∧
  dropEmptyAttributes x = [] ∧ dropEmptyAttributes y = []

theorem dropEmptyAttributes_append_of_nil (ha : dropEmptyAttributes a = []) (b : Text) :
    dropEmptyAttributes (a ++ b) = dropEmptyAttributes b :=
  emptyAttribute_local.replace_append_of_nil ha b

theorem dropEmptyAttributes_quote (b : Text) : dropEmptyAttributes ('\x22' :: b) = '\x22' :: dropEmptyAttributes b :=
  replace_of_miss (emptyAttribute_of_no_value (not_emptyValue_of_ne (by decide)))

theorem not_quote_prefix (hx : dropEmptyAttributes x = []) (hne : x ≠ []) : ¬ ['\x22'] <+: x ++ b := by
  obtain ⟨c, x, rfl⟩ := List.exists_cons_of_ne_nil hne
  intro hp
  obtain rfl := (List.cons_prefix_cons.mp hp).1
  rw [dropEmptyAttributes_quote] at hx
  cases hx

theorem emptyValue_infix_iff : emptyValue <:+: dropEmptyAttributes s ↔ Torn s := by
  constructor
  case mp =>
    rintro ⟨a, b, h⟩
    have h : dropEmptyAttributes s = a ++ '=' :: ([] ++ '\x22' :: ([] ++ '\x22' :: b)) := h.symm.trans (by simp [emptyValue, lit])
    obtain ⟨front, behind, rfl, _, first, miss⟩ := emptyAttribute_local.exists_kept h
    obtain ⟨x, behind, rfl, hx, second, _⟩ := emptyAttribute_local.exists_kept first
    obtain ⟨y, rest, rfl, hy, _, _⟩ := emptyAttribute_local.exists_kept second
    refine ⟨x, y, ⟨front, rest, by simp⟩, fun none => ?_, hx, hy⟩
    -- with nothing in it the value would have been found
    obtain ⟨rfl, rfl⟩ := List.append_eq_nil_iff.mp none
    have found : emptyAttribute ([] ++ ([] ++ emptyValue) ++ rest) = some ((), 3) := emptyAttribute_hit (List.forall_mem_nil _) (List.forall_mem_nil _)
    cases miss.symm.trans found
  case mpr =>
    rintro ⟨x, y, ⟨a, b, rfl⟩, full, hx, hy⟩
    have open' : ¬ emptyValue <+: '=' :: (x ++ '\x22' :: (y ++ '\x22' :: b)) := by
      intro hp
      have hp : ['\x22'] ++ ['\x22'] <+: x ++ '\x22' :: (y ++ '\x22' :: b) := (List.cons_prefix_cons.mp hp).2
      rcases eq_or_ne x [] with rfl | hne
      · exact not_quote_prefix hy (by simpa using full) (List.cons_prefix_cons.mp hp).2
      · exact not_quote_prefix hx hne ((List.prefix_append _ _).trans hp)
    have whole : a ++ '=' :: (x ++ '\x22' :: (y ++ ['\x22'])) ++ b = a ++ '=' :: (x ++ '\x22' :: (y ++ '\x22' :: b)) := by
      simp
    rw [whole, dropEmptyAttributes_append (by decide) (by decide) open', dropEmptyAttributes_append_of_nil hx,
      dropEmptyAttributes_quote, dropEmptyAttributes_append_of_nil hy, dropEmptyAttributes_quote]
    exact ⟨dropEmptyAttributes a, dropEmptyAttributes b, by simp [emptyValue, lit]⟩

end Values

section Elements

-- An element that titles something becomes empty in a text: its tags are bare once their empty attributes are gone, and
-- what stands in it is cleaned away. It is not one that is dropped at once.
def Hollow (s : Text) : Prop := ∃ a inside b, tag a ++ (inside ++ tag b) <:+: s ∧
  TitleTags (dropEmptyAttributes (tag a)) (dropEmptyAttributes (tag b)) ∧ clean inside = [] ∧
  ¬ (TitleTags (tag a) (tag b) ∧ inside = [])

theorem clean_eq_nil_iff : clean s = [] ↔ dropEmptyAttributes (dropEmptyWrappers s) = [] := mergeHeads_eq_nil_iff

namespace TitleTags

theorem not_mem_tag (tags : TitleTags (dropEmptyAttributes (tag a)) (dropEmptyAttributes (tag b))) : '>' ∉ a ∧ '>' ∉ b := by
  obtain ⟨x, y, hx, hy, one, two, _⟩ := tags.shape
  rw [dropEmptyAttributes_of_tag, tag] at hx hy
  have first : dropEmptyAttributes a = x := List.append_cancel_right (List.cons.inj hx).2
  have second : dropEmptyAttributes b = '/' :: y := List.append_cancel_right (List.cons.inj hy).2
  have ends {s : Text} := bracket_mem_dropEmptyAttributes (s := s) (.inr rfl : '>' = '<' ∨ '>' = '>')
  exact ⟨mt ends.mpr (first ▸ one), mt ends.mpr (second ▸ two)⟩

theorem dropEmptyAttributes_start (tags : TitleTags start stop) :
    ∃ c rest, dropEmptyAttributes start = '<' :: c :: rest ∧ c ≠ '/' := by
  cases tags
  case legend => exact ⟨'l', lit "egend>", by decide +kernel, by decide⟩
  case caption => exact ⟨'c', lit "aption>", by decide +kernel, by decide⟩
  case heading inside _ =>
    have miss {c d : Char} {rest : Text} (h : '=' ≠ d) (hb : behindName (c :: rest) = d :: (behindName (c :: rest)).tail) :
        dropEmptyAttributes (c :: rest) = c :: dropEmptyAttributes rest :=
      replace_of_miss (emptyAttribute_of_no_value (hb ▸ not_emptyValue_of_ne h))
    refine ⟨'h', dropEmptyAttributes ('2' :: (inside ++ ['>'])), ?_, by decide⟩
    change dropEmptyAttributes ('<' :: 'h' :: '2' :: (inside ++ ['>'])) = _
    rw [miss (d := '<') (by decide) rfl, miss (d := '2') (by decide) rfl]

theorem dropEmptyAttributes_stop (tags : TitleTags start stop) : dropEmptyAttributes stop = stop := by
  cases tags <;> decide +kernel

theorem not_stop_prefix_tag (tags : TitleTags (dropEmptyAttributes (tag a)) stop) (ha : '>' ∉ a)
    (tags' : TitleTags start' stop') : ¬ stop' <+: tag a ++ b := by
  intro hp
  have he := tags'.stop_at_tag ha hp
  rw [← he, tags'.dropEmptyAttributes_stop] at tags
  exact tags.not_stop_prefix tags' (List.prefix_refl stop') (List.prefix_refl stop')

theorem not_prefix_tag (tags : TitleTags start (dropEmptyAttributes (tag b))) (hb : '>' ∉ b)
    (tags' : TitleTags start' stop') : ¬ start' ++ stop' <+: tag b ++ v := by
  intro hp
  obtain ⟨rfl, _⟩ := tags'.at_tag hb hp
  obtain ⟨c, rest, hc, slash⟩ := tags'.dropEmptyAttributes_start
  obtain ⟨_, y, _, hy, _⟩ := tags.shape
  exact slash (List.cons.inj (List.cons.inj (hc.symm.trans hy)).2).1

end TitleTags

theorem exists_title_iff :
    (∃ start stop, TitleTags start stop ∧ start ++ stop <:+: dropEmptyAttributes s) ↔
      ∃ a x b, tag a ++ (x ++ tag b) <:+: s ∧
        TitleTags (dropEmptyAttributes (tag a)) (dropEmptyAttributes (tag b)) ∧ dropEmptyAttributes x = [] := by
  constructor
  case mp =>
    rintro ⟨start, stop, tags, u, v, h⟩
    obtain ⟨x, y, rfl, rfl, _⟩ := tags.shape
    have h : dropEmptyAttributes s = u ++ '<' :: (x ++ '>' :: ([] ++ '<' :: ('/' :: y ++ '>' :: v))) := by
      rw [← h]
      simp [tag]
    obtain ⟨front, behind, rfl, _, first, _⟩ := emptyAttribute_local.exists_kept h
    obtain ⟨a, behind, rfl, ha, second, _⟩ := emptyAttribute_local.exists_kept first
    obtain ⟨inside, behind, rfl, hi, third, _⟩ := emptyAttribute_local.exists_kept second
    obtain ⟨b, rest, rfl, hb, _, _⟩ := emptyAttribute_local.exists_kept third
    have ha : dropEmptyAttributes a = x := ha
    have hb : dropEmptyAttributes b = '/' :: y := hb
    refine ⟨a, inside, b, ⟨front, rest, by simp [tag]⟩, ?_, hi⟩
    rw [dropEmptyAttributes_of_tag, dropEmptyAttributes_of_tag, ha, hb]
    exact tags
  case mpr =>
    rintro ⟨a, x, b, ⟨u, v, rfl⟩, tags, hx⟩
    refine ⟨_, _, tags, dropEmptyAttributes u, dropEmptyAttributes v, ?_⟩
    have whole : u ++ (tag a ++ (x ++ tag b)) ++ v = u ++ (tag a ++ (x ++ (tag b ++ v))) := by simp
    rw [whole, dropEmptyAttributes_tag_append, dropEmptyAttributes_tag_append, hx, dropEmptyAttributes_of_tag,
      dropEmptyAttributes_of_tag]
    simp

theorem not_stop_prefix_of_clean (tags : TitleTags start stop) (hx : clean x = []) (hne : x ≠ []) : ¬ stop <+: x ++ b := by
  intro h
  obtain ⟨_, y, _, rfl, _⟩ := tags.shape
  obtain ⟨c, x, rfl⟩ := List.exists_cons_of_ne_nil hne
  obtain ⟨rfl, behind⟩ := List.cons_prefix_cons.mp h
  rw [clean_eq_nil_iff] at hx
  -- it begins with an element, or else its bracket would be left
  cases hw : emptyWrapper ('<' :: x)
  case none =>
    have left : '<' ∈ dropEmptyAttributes (dropEmptyWrappers ('<' :: x)) := by
      rw [bracket_mem_dropEmptyAttributes (.inl rfl), dropEmptyWrappers, replace_of_miss hw]
      exact List.mem_cons_self
    simp [hx] at left
  case some =>
    obtain ⟨start', stop', tags', hp, _⟩ := exists_of_emptyWrapper hw
    exact tags'.not_stop_prefix tags (((List.prefix_append start' stop').trans hp).trans (List.prefix_append _ b)) h

theorem not_start_suffix_of_clean (tags : TitleTags start stop) (paired : Paired x) (hx : clean x = []) :
    ¬ start <:+ x := by
  rintro ⟨front, rfl⟩
  obtain ⟨inner, _, rfl, _, one, _, _⟩ := tags.shape
  have tag' : Paired ('<' :: (inner ++ ['>'])) := paired.right
  have alone : dropEmptyWrappers (tag inner) = tag inner := by
    have free : '<' ∉ inner ++ ['>'] := by simp [tag'.not_mem one]
    exact dropEmptyWrappers_eq_self_iff.mpr fun _ _ tags => tags.not_infix_tag free
  have front' : Paired front := paired.left
  rw [clean_eq_nil_iff, dropEmptyWrappers_append front', alone] at hx
  · have left : '<' ∈ dropEmptyAttributes (dropEmptyWrappers front ++ tag inner) := by
      rw [bracket_mem_dropEmptyAttributes (.inl rfl)]
      simp [tag]
    simp [hx] at left
  · exact fun _ _ tags' _ hp => tags.not_stop_prefix tags' (List.prefix_refl _) hp

theorem dropEmptyWrappers_around (paired : Paired (u ++ (tag a ++ (inside ++ (tag b ++ v)))))
    (tags : TitleTags (dropEmptyAttributes (tag a)) (dropEmptyAttributes (tag b))) (hi : clean inside = [])
    (full : ¬ (TitleTags (tag a) (tag b) ∧ inside = [])) :
    dropEmptyWrappers (u ++ (tag a ++ (inside ++ (tag b ++ v)))) =
      dropEmptyWrappers u ++ (tag a ++ (dropEmptyWrappers inside ++ (tag b ++ dropEmptyWrappers v))) := by
  obtain ⟨ha, hb⟩ := tags.not_mem_tag
  have before : Paired u := paired.left
  have first : Paired ('<' :: (a ++ '>' :: (inside ++ (tag b ++ v)))) := tag_append a _ ▸ paired.right
  have within : Paired inside := paired.right.right.left
  have second : Paired ('<' :: (b ++ '>' :: v)) := tag_append b v ▸ paired.right.right.right
  have start : ∀ start stop, TitleTags start stop → ¬ start ++ stop <+: tag a ++ (inside ++ (tag b ++ v)) := by
    intro start stop tags' hp
    obtain ⟨rfl, behind⟩ := tags'.at_tag ha hp
    rcases eq_or_ne inside [] with rfl | hne
    · obtain rfl := tags'.stop_at_tag hb behind
      exact full ⟨tags', rfl⟩
    · exact not_stop_prefix_of_clean tags' hi hne behind
  have border : ∀ start stop, TitleTags start stop → start <:+ inside → ¬ stop <+: tag b ++ v :=
    fun _ _ tags' hs => absurd hs (not_start_suffix_of_clean tags' within hi)
  rw [dropEmptyWrappers_append before fun _ _ tags' _ => tags.not_stop_prefix_tag ha tags',
    dropEmptyWrappers_tag (first.not_mem ha) start, dropEmptyWrappers_append within border,
    dropEmptyWrappers_tag (second.not_mem hb) fun _ _ tags' => tags.not_prefix_tag hb tags']

theorem hollow_iff (paired : Paired s) :
    (∃ a x b, tag a ++ (x ++ tag b) <:+: dropEmptyWrappers s ∧
      TitleTags (dropEmptyAttributes (tag a)) (dropEmptyAttributes (tag b)) ∧ dropEmptyAttributes x = []) ↔ Hollow s := by
  constructor
  case mp =>
    rintro ⟨a, x, b, ⟨u, v, h⟩, tags, hx⟩
    obtain ⟨ha, hb⟩ := tags.not_mem_tag
    have h : dropEmptyWrappers s = u ++ (tag a ++ (x ++ (tag b ++ v))) := h.symm.trans (by simp)
    obtain ⟨front, behind, rfl, _, hr, miss⟩ := exists_of_dropEmptyWrappers_append paired ha h
    obtain ⟨inside, rest, rfl, rfl, _, _⟩ := exists_of_dropEmptyWrappers_append paired.right.right hb hr
    refine ⟨a, inside, b, ⟨front, rest, by simp⟩, tags, clean_eq_nil_iff.mpr hx, ?_⟩
    rintro ⟨found, rfl⟩
    exact emptyWrapper_eq_none_iff.mp miss _ _ found ⟨rest, by simp⟩
  case mpr =>
    rintro ⟨a, inside, b, ⟨u, v, rfl⟩, tags, hi, full⟩
    have whole : u ++ (tag a ++ (inside ++ tag b)) ++ v = u ++ (tag a ++ (inside ++ (tag b ++ v))) := by simp
    rw [whole] at paired ⊢
    have dropped := dropEmptyWrappers_around paired tags hi full
    exact ⟨a, dropEmptyWrappers inside, b, ⟨dropEmptyWrappers u, dropEmptyWrappers v, by simp [dropped]⟩, tags,
      clean_eq_nil_iff.mp hi⟩

end Elements

-- What is left behind both passes for another run.
theorem leftover_iff (paired : Paired s) :
    (∀ w, Leftover w → ¬ w <:+: dropEmptyAttributes (dropEmptyWrappers s)) ↔ ¬ Hollow s ∧ ¬ Torn (dropEmptyWrappers s) := by
  rw [← hollow_iff paired, ← exists_title_iff, ← emptyValue_infix_iff]
  constructor
  case mp =>
    intro none
    exact ⟨fun ⟨_, _, tags, hi⟩ => none _ (.wrapper tags) hi, none _ .value⟩
  case mpr =>
    rintro ⟨wrapper, value⟩ _ (tags | _) hi
    · exact wrapper ⟨_, _, tags, hi⟩
    · exact value hi

end WikiPages.Cleanup
