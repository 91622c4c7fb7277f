import WikiPages.Proofs.Cleanup.Attributes
import WikiPages.Proofs.Cleanup.Finished

namespace WikiPages.Cleanup

open Text Pattern

variable {s a b u v x start stop start' stop' : Text} {c : Char}

def tag (inner : Text) : Text := '<' :: (inner ++ ['>'])

theorem tag_append (inner rest : Text) : tag inner ++ rest = '<' :: (inner ++ '>' :: rest) := by
  simp [tag]

theorem tag_append_inj {s' : Text} (ha : '>' ∉ a) (hb : '>' ∉ b) (h : tag a ++ s = tag b ++ s') : a = b ∧ s = s' := by
  rw [tag_append, tag_append] at h
  exact append_cons_inj_of_free ha hb (List.cons.inj h).2

section Titles

namespace TitleTags

theorem shape (tags : TitleTags start stop) :
    ∃ x y, start = tag x ∧ stop = tag ('/' :: y) ∧ '>' ∉ x ∧ '>' ∉ '/' :: y ∧ x.head? ≠ some '/' := by
  cases tags
  case legend => exact ⟨lit "legend", lit "legend", rfl, rfl, by decide, by decide, by decide⟩
  case caption => exact ⟨lit "caption", lit "caption", rfl, rfl, by decide, by decide, by decide⟩
  case heading inside one =>
    refine ⟨lit "h2" ++ inside, lit "h2", by simp [tag, lit], rfl, ?_, by decide, nofun⟩
    rw [List.mem_append, not_or]
    exact ⟨by decide, one⟩

theorem found (tags : TitleTags start stop) (b : Text) :
    emptyWrapper (start ++ stop ++ b) = some ((), (start ++ stop).length) := by
  cases tags
  case legend =>
    have hit : lit "<legend></legend>" <+: lit "<legend>" ++ lit "</legend>" ++ b := List.prefix_append _ _
    rw [emptyWrapper, exactly_of_hit hit]
    rfl
  case caption =>
    have miss : ¬ lit "<legend></legend>" <+: lit "<caption>" ++ lit "</caption>" ++ b :=
      (show Clash _ (lit "<caption></caption>") by decide).misses
    have hit : lit "<caption></caption>" <+: lit "<caption>" ++ lit "</caption>" ++ b := List.prefix_append _ _
    rw [emptyWrapper, exactly_of_miss miss, exactly_of_hit hit]
    rfl
  case heading inside one =>
    have parts : lit "<h2" ++ (inside ++ ['>']) ++ lit "</h2>" ++ b =
        lit "<h2" ++ (inside ++ '>' :: (lit "</h2>" ++ b)) := by simp
    have miss {old : Text} (h : Clash old (lit "<h2")) :
        exactly old (lit "<h2" ++ (inside ++ '>' :: (lit "</h2>" ++ b))) = none := exactly_of_miss h.misses
    rw [parts, emptyWrapper, miss (by decide), miss (by decide), emptyHeading_start, headingFrom_append one,
      if_pos (List.prefix_append _ _)]
    simp [lit]

theorem not_stop_prefix (tags : TitleTags start stop) (tags' : TitleTags start' stop') (h : start <+: s) :
    ¬ stop' <+: s := by
  obtain ⟨x, _, rfl, _, hx, _, slash⟩ := tags.shape
  obtain ⟨_, y, _, rfl, _, hy, _⟩ := tags'.shape
  rintro ⟨rest', hr'⟩
  obtain ⟨rest, rfl⟩ := h
  obtain ⟨rfl, _⟩ := tag_append_inj hy hx hr'
  exact slash rfl

theorem at_tag (tags : TitleTags start stop) (ha : '>' ∉ a) (h : start ++ stop <+: tag a ++ b) :
    start = tag a ∧ stop <+: b := by
  obtain ⟨x, y, rfl, _, hx, _⟩ := tags.shape
  obtain ⟨rest, hr⟩ := h
  rw [List.append_assoc] at hr
  obtain ⟨rfl, rfl⟩ := tag_append_inj hx ha hr
  exact ⟨rfl, List.prefix_append _ _⟩

theorem stop_at_tag (tags : TitleTags start stop) (ha : '>' ∉ a) (h : stop <+: tag a ++ b) : stop = tag a := by
  obtain ⟨_, y, _, rfl, _, hy, _⟩ := tags.shape
  obtain ⟨rest, hr⟩ := h
  obtain ⟨rfl, _⟩ := tag_append_inj hy ha hr
  rfl

theorem not_infix_tag (tags : TitleTags start stop) (h : '<' ∉ s) : ¬ start ++ stop <:+: '<' :: s := by
  intro hi
  obtain ⟨x, y, rfl, rfl, _⟩ := tags.shape
  have more := hi.sublist.count_le '<'
  have one : ('<' :: s).count '<' = 1 := by simp [List.count_eq_zero_of_not_mem h]
  simp only [tag, one, List.count_append, List.count_cons_self] at more
  omega

end TitleTags

theorem exists_of_emptyWrapper {found : Unit} {width : Nat} (h : emptyWrapper s = some (found, width)) :
    ∃ start stop, TitleTags start stop ∧ start ++ stop <+: s ∧ width = (start ++ stop).length := by
  by_contra none
  have : emptyWrapper s = Option.none := by
    refine emptyWrapper_eq_none_iff.mpr fun start stop tags ⟨rest, hr⟩ => none ⟨start, stop, tags, ⟨rest, hr⟩, ?_⟩
    rw [← hr, tags.found] at h
    exact (congrArg Prod.snd (Option.some.inj h)).symm
  rw [this] at h
  cases h

theorem emptyWrapper_local : emptyWrapper.Local where
  bounded := emptyWrapper_bounded
  takes   := Html.emptyWrapper_pos
  alike taken a b _ h := by
    obtain ⟨start, stop, tags, ⟨rest, hr⟩, width⟩ := exists_of_emptyWrapper h
    have whole := (List.append_inj hr width.symm).1
    rw [← whole]
    exact tags.found b

end Titles

section Brackets

-- No tag begins in another one: behind each opening bracket stands a closing one, in front of any other opening one.
def Paired (s : Text) : Prop := ∀ a b, s = a ++ '<' :: b → ∃ inner rest, b = inner ++ '>' :: rest ∧ '<' ∉ inner

theorem paired_of_free (h : '<' ∉ s) : Paired s := by
  rintro a b rfl
  simp at h

theorem paired_tag (h : '<' ∉ s) : Paired (tag s) := by
  intro a b he
  cases a
  case nil => exact ⟨s, [], (List.cons.inj he).2.symm, h⟩
  case cons c a =>
    have : '<' ∈ s ++ ['>'] := (List.cons.inj he).2 ▸ (by simp)
    simp [h] at this

namespace Paired

theorem append (ha : Paired a) (hb : Paired b) : Paired (a ++ b) := by
  intro c d he
  rcases List.append_eq_append_iff.mp he with ⟨more, _, hd⟩ | ⟨more, hc, hd⟩
  · exact hb more d hd
  rcases more with _ | ⟨e, more⟩
  · exact hb [] d hd.symm
  · obtain ⟨rfl, rfl⟩ := List.cons.inj hd
    obtain ⟨inner, rest, rfl, free⟩ := ha c more hc
    exact ⟨inner, rest ++ b, by simp, free⟩

theorem right (h : Paired (a ++ b)) : Paired b := by
  rintro c d rfl
  exact h (a ++ c) d (by simp)

theorem left (h : Paired (a ++ '<' :: b)) : Paired a := by
  rintro c d rfl
  obtain ⟨inner, rest, he, free⟩ := h c (d ++ '<' :: b) (by simp)
  rcases List.append_eq_append_iff.mp he with ⟨more, rfl, hm⟩ | ⟨more, rfl, hm⟩
  · rcases more with _ | ⟨e, more⟩
    · cases hm
    · obtain ⟨rfl, _⟩ := List.cons.inj hm
      simp at free
  · rcases more with _ | ⟨e, more⟩
    · cases hm
    · obtain ⟨rfl, _⟩ := List.cons.inj hm
      exact ⟨inner, more, rfl, free⟩

theorem not_mem (h : Paired ('<' :: (a ++ b))) (ha : '>' ∉ a) : '<' ∉ a := by
  obtain ⟨inner, rest, he, free⟩ := h [] (a ++ b) rfl
  rcases List.append_eq_append_iff.mp he with ⟨more, rfl, _⟩ | ⟨more, rfl, hm⟩
  · exact fun hm => free (List.mem_append_left more hm)
  · rcases more with _ | ⟨c, more⟩
    · rwa [List.append_nil]
    · obtain ⟨rfl, _⟩ := List.cons.inj hm
      simp at ha

theorem closed (h : Paired a) (hs : '<' :: s <:+ a) : '>' ∈ s := by
  obtain ⟨front, rfl⟩ := hs
  obtain ⟨inner, rest, rfl, _⟩ := h front s rfl
  simp

theorem not_cut (h : Paired a) (hs : '>' ∉ s) (hu : u ≠ []) (hv : v ≠ []) (he : tag s = u ++ v) : ¬ u <:+ a := by
  intro hend
  obtain ⟨c, u, rfl⟩ := List.exists_cons_of_ne_nil hu
  obtain ⟨v, d, rfl⟩ := (List.eq_nil_or_concat' v).resolve_left hv
  rw [tag, List.cons_append, ← List.append_assoc] at he
  obtain ⟨rfl, inner⟩ := List.cons.inj he
  obtain ⟨rfl, _⟩ := List.append_inj' inner rfl
  exact hs (List.mem_append_left v (h.closed hend))

end Paired

-- An element goes beyond the end of a text with paired brackets only if one of its tags stands on either side.
theorem TitleTags.cut (tags : TitleTags start stop) (paired : Paired a) (hu : u ≠ []) (hv : v ≠ [])
    (he : start ++ stop = u ++ v) (hs : u <:+ a) : u = start ∧ v = stop := by
  obtain ⟨x, y, rfl, rfl, one, two, _⟩ := tags.shape
  rcases List.append_eq_append_iff.mp he with ⟨more, hm, hm'⟩ | ⟨more, hm, hm'⟩
  all_goals rcases eq_or_ne more [] with rfl | hne
  case inl.inl => exact ⟨by simpa using hm, by simpa using hm'.symm⟩
  case inr.inl => exact ⟨by simpa using hm.symm, by simpa using hm'⟩
  -- the end of the element is cut
  case inl.inr => exact absurd ((List.suffix_append _ more).trans (hm ▸ hs)) (paired.not_cut two hne hv hm')
  -- its start is cut
  case inr.inr => exact absurd hs (paired.not_cut one hu hne hm)

end Brackets

section Passes

theorem dropEmptyWrappers_append (paired : Paired a)
    (apart : ∀ start stop, TitleTags start stop → start <:+ a → ¬ stop <+: b) :
    dropEmptyWrappers (a ++ b) = dropEmptyWrappers a ++ dropEmptyWrappers b := by
  refine replace_append emptyWrapper_bounded (emptyWrapper_local.apart fun t hne ht _ width h => ?_)
  obtain ⟨start, stop, tags, ⟨rest, hr⟩, rfl⟩ := exists_of_emptyWrapper h
  by_contra! longer
  rcases List.append_eq_append_iff.mp hr with ⟨more, rfl, _⟩ | ⟨more, parts, hb⟩
  · simp at longer
  have beyond : more ≠ [] := by
    rintro rfl
    simp [parts] at longer
  obtain ⟨rfl, rfl⟩ := tags.cut paired hne beyond parts ht
  exact apart _ _ tags ht ⟨rest, hb.symm⟩

theorem dropEmptyWrappers_past_tag (free : '<' ∉ a) :
    dropEmptyWrappers (a ++ '>' :: b) = a ++ '>' :: dropEmptyWrappers b := by
  have free : '<' ∉ a ++ ['>'] := by simp [free]
  simpa using dropEmptyWrappers_of_free (b := b) free

theorem dropEmptyWrappers_tag (free : '<' ∉ a)
    (miss : ∀ start stop, TitleTags start stop → ¬ start ++ stop <+: tag a ++ b) :
    dropEmptyWrappers (tag a ++ b) = tag a ++ dropEmptyWrappers b := by
  have miss := emptyWrapper_eq_none_iff.mpr miss
  rw [tag_append] at miss ⊢
  rw [dropEmptyWrappers, replace_of_miss miss, tag_append]
  exact congrArg _ (dropEmptyWrappers_past_tag free)

theorem dropEmptyAttributes_tag_append (inner a b : Text) :
    dropEmptyAttributes (a ++ (tag inner ++ b)) =
      dropEmptyAttributes a ++ (tag (dropEmptyAttributes inner) ++ dropEmptyAttributes b) := by
  rw [tag_append, dropEmptyAttributes_bracket (.inl rfl), dropEmptyAttributes_bracket (.inr rfl), tag_append]

theorem dropEmptyAttributes_of_tag (inner : Text) :
    dropEmptyAttributes (tag inner) = tag (dropEmptyAttributes inner) := by
  have := dropEmptyAttributes_tag_append inner [] []
  simpa [show dropEmptyAttributes [] = [] from rfl] using this

theorem bracket_mem_dropEmptyAttributes (hc : c = '<' ∨ c = '>') : c ∈ dropEmptyAttributes s ↔ c ∈ s := by
  constructor
  case mp => exact fun h => (replace_sublist _ _).subset h
  case mpr =>
    intro h
    obtain ⟨a, b, rfl⟩ := List.append_of_mem h
    rw [dropEmptyAttributes_bracket hc]
    simp

theorem exists_of_dropEmptyWrappers_append (paired : Paired s) (ha : '>' ∉ a)
    (h : dropEmptyWrappers s = u ++ (tag a ++ v)) :
    ∃ front rest, s = front ++ (tag a ++ rest) ∧ dropEmptyWrappers front = u ∧ dropEmptyWrappers rest = v ∧
      emptyWrapper (tag a ++ rest) = none := by
  rw [tag_append] at h
  obtain ⟨front, behind, rfl, hu, hb, miss⟩ := emptyWrapper_local.exists_kept h
  have here : Paired ('<' :: behind) := paired.right
  obtain ⟨_, _, he, _⟩ := here [] behind rfl
  obtain ⟨inner, rest, rfl, one⟩ := List.eq_append_cons_of_mem (he ▸ by simp : '>' ∈ behind)
  have kept := dropEmptyWrappers_past_tag (b := rest) (here.not_mem one)
  obtain ⟨rfl, rfl⟩ := append_cons_inj_of_free one ha (kept.symm.trans hb)
  exact ⟨front, rest, by rw [tag_append], hu, rfl, by rwa [tag_append]⟩

theorem Paired.dropEmptyWrappers (paired : Paired s) : Paired (dropEmptyWrappers s) := by
  intro a b he
  obtain ⟨front, behind, rfl, _, rfl, _⟩ := emptyWrapper_local.exists_kept he
  obtain ⟨inner, rest, rfl, free⟩ := paired front behind rfl
  exact ⟨inner, Cleanup.dropEmptyWrappers rest, dropEmptyWrappers_past_tag free, free⟩

theorem Paired.dropEmptyAttributes (paired : Paired s) : Paired (dropEmptyAttributes s) := by
  intro a b he
  obtain ⟨front, behind, rfl, _, rfl, _⟩ := emptyAttribute_local.exists_kept he
  obtain ⟨inner, rest, rfl, free⟩ := paired front behind rfl
  refine ⟨Cleanup.dropEmptyAttributes inner, Cleanup.dropEmptyAttributes rest, ?_, ?_⟩
  · exact dropEmptyAttributes_bracket (.inr rfl) _ _
  · rwa [bracket_mem_dropEmptyAttributes (.inl rfl)]

end Passes

end WikiPages.Cleanup
