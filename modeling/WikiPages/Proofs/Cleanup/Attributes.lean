import Mathlib
import WikiPages.Proofs.Cleanup.Passes
import WikiPages.Proofs.Text.Trimming

namespace WikiPages.Text.Pattern

variable {α : Type} {m : Pattern α} {a b s : Text}

theorem Quiet.append (ha : m.Quiet a (b ++ s)) (hb : m.Quiet b s) : m.Quiet (a ++ b) s := by
  intro t hne ⟨front, hf⟩
  rcases List.append_eq_append_iff.mp hf with ⟨back, hb', ht⟩ | ⟨back, hf', hb'⟩
  · rw [ht, List.append_assoc]
    cases back
    case nil =>
      rw [List.nil_append] at ht ⊢
      exact hb b (ht ▸ hne) (List.suffix_refl b)
    case cons c back => exact ha (c :: back) (List.cons_ne_nil c back) ⟨front, hb'.symm⟩
  · exact hb t hne ⟨back, hb'.symm⟩

end WikiPages.Text.Pattern

namespace WikiPages.Cleanup

open Text Pattern

variable {a b s v : Text} {c : Char}

section Tags

def InWord (c : Char) : Prop := isBlank c = false ∧ c ≠ '\x22' ∧ c ≠ '<' ∧ c ≠ '>'

instance : DecidablePred InWord := fun _ => inferInstanceAs (Decidable (_ ∧ _))

def InValue (c : Char) : Prop := c ≠ '\x22' ∧ c ≠ '<' ∧ c ≠ '>'

instance : DecidablePred InValue := fun _ => inferInstanceAs (Decidable (_ ∧ _))

-- An attribute of a tag with the blank characters in front of it: a name, or any word without quotes, and what stands
-- in quotes behind it.
structure Attribute where
  blanks : Text
  name   : Text
  value  : Option Text
  spaced : blanks ≠ [] ∧ ∀ c ∈ blanks, isBlank c = true
  named  : name ≠ [] ∧ ∀ c ∈ name, InWord c
  quoted : ∀ v ∈ value, ∀ c ∈ v, InValue c

def quotedValue : Option Text → Text
  | none   => []
  | some v => '=' :: '\x22' :: (v ++ ['\x22'])

namespace Attribute

def text (a : Attribute) : Text := a.blanks ++ (a.name ++ quotedValue a.value)

def Empty (a : Attribute) : Prop := a.value = some []

instance (a : Attribute) : Decidable a.Empty := inferInstanceAs (Decidable (_ = _))

def whole? (a : Attribute) : Option Attribute := if a.Empty then none else some a

-- Of an empty attribute only the end of its name goes, from the last character on that is not a name character.
def cut? (a : Attribute) : Option Attribute :=
  if a.Empty then
    if hr : a.name.rdropWhile isNameChar = [] then none
    else some { a with
      name := a.name.rdropWhile isNameChar
      value := none
      named := ⟨hr, fun c hc => a.named.2 c ((List.rdropWhile_prefix _ _).subset hc)⟩
      quoted := nofun }
  else some a

end Attribute

structure Tag where
  name       : Text
  attributes : List Attribute
  ending     : Text
  named      : name ≠ [] ∧ ∀ c ∈ name, InWord c ∧ c ≠ '/'
  ended      : ∀ c ∈ ending, isBlank c = true ∨ c = '/'

namespace Tag

def inner (t : Tag) : Text := t.name ++ (t.attributes.flatMap Attribute.text ++ t.ending)

def text (t : Tag) : Text := '<' :: (t.inner ++ ['>'])

theorem text_append (t : Tag) (b : Text) : t.text ++ b = '<' :: (t.inner ++ '>' :: b) := by
  simp [text]

def change (f : Attribute → Option Attribute) (t : Tag) : Tag :=
  { t with attributes := t.attributes.filterMap f }

end Tag

structure Tagged where
  tags  : List (Text × Tag)
  rest  : Text
  plain : '\x22' ∉ rest ∧ ∀ entry ∈ tags, '\x22' ∉ entry.1

namespace Tagged

def text (s : Tagged) : Text := s.tags.flatMap (fun (front, tag) => front ++ tag.text) ++ s.rest

def attributes (s : Tagged) : List Attribute := s.tags.flatMap (·.2.attributes)

def change (f : Attribute → Option Attribute) (s : Tagged) : Tagged where
  tags  := s.tags.map fun (front, tag) => (front, tag.change f)
  rest  := s.rest
  plain := ⟨s.plain.1, List.forall_mem_map.mpr s.plain.2⟩

end Tagged
end Tags

section Quiet

def Ends (b : Text) : Prop := ∀ c ∈ b.head?, isNameChar c = false ∧ c ≠ '=' ∧ c ≠ '\x22'

theorem behindName_front (s : Text) :
    ∃ blanks name, s = blanks ++ (name ++ behindName s) ∧ (∀ c ∈ blanks, isBlank c = true) ∧
      ∀ c ∈ name, isNameChar c = true := by
  refine ⟨s.takeWhile isBlank, (s.dropWhile isBlank).takeWhile isNameChar, ?_, ?_, ?_⟩
  · rw [behindName, List.takeWhile_append_dropWhile, List.takeWhile_append_dropWhile]
  · exact fun c hc => List.mem_takeWhile_imp hc
  · exact fun c hc => List.mem_takeWhile_imp hc

theorem emptyAttribute_quiet (hv : (exactly emptyValue).Quiet a b)
    (hl : ∀ c ∈ a.getLast?, isBlank c = false ∧ (isNameChar c = true → Ends b)) : emptyAttribute.Quiet a b := by
  intro t hne ht
  refine emptyAttribute_of_no_value fun ⟨rest, hr⟩ => ?_
  obtain ⟨blanks, name, parts, isBlanks, isName⟩ := behindName_front (t ++ b)
  rw [← hr] at parts
  obtain ⟨u, c, rfl⟩ := (List.eq_nil_or_concat' t).resolve_left hne
  have last : a.getLast? = some c := by
    obtain ⟨front, rfl⟩ := ht
    simp
  obtain ⟨notBlank, ends⟩ := hl c last
  rcases List.append_eq_append_iff.mp parts with ⟨more, hb, _⟩ | ⟨more, hm, hn⟩
  -- the part ends among the blanks
  · exact absurd (isBlanks c (by simp [hb])) (by simp [notBlank])
  -- or the value begins behind the part, which ends in the name
  have behind (back : Text) (hn : name = more ++ back) (hb : b = back ++ (emptyValue ++ rest)) : False := by
    have here : c ∈ blanks ∨ c ∈ more := List.mem_append.mp (hm ▸ List.mem_append_right u (List.mem_singleton_self c))
    have here : c ∈ more := here.resolve_left fun h => by simp [isBlanks c h] at notBlank
    have ends := ends (isName c (hn ▸ List.mem_append_left back here))
    cases back
    case nil => exact absurd (ends '=' (by simp [hb, emptyValue, lit])) (by decide)
    case cons d back =>
      have : isNameChar d = true := isName d (by simp [hn])
      exact absurd (ends d (by simp [hb])).1 (by simp [this])
  rcases List.append_eq_append_iff.mp hn with ⟨back, hm', hv'⟩ | ⟨back, hm', hb⟩
  · cases back
    case nil => exact behind [] (by simpa using hm'.symm) hv'.symm
    -- or in the part
    case cons d back =>
      have within : d :: back <:+ a := by
        refine List.IsSuffix.trans ⟨blanks ++ name, ?_⟩ ht
        rw [hm, hm', List.append_assoc]
      have := hv (d :: back) (List.cons_ne_nil d back) within
      rw [← hv', exactly_of_hit (List.prefix_append _ _)] at this
      cases this
  · exact behind back hm' hb

theorem Ends.quoteless (hb : Ends b) : ∀ c ∈ b.head?, c ≠ '\x22' := fun c hc => (hb c hc).2.2

theorem emptyValue_quiet (ha : '\x22' ∉ a) (hb : ∀ c ∈ b.head?, c ≠ '\x22') : (exactly emptyValue).Quiet a b := by
  intro t hne ht
  refine exactly_of_miss fun hp => ?_
  rcases t with _ | ⟨c, _ | ⟨d, t⟩⟩
  · contradiction
  · obtain ⟨rest, rfl : '\x22' :: '\x22' :: rest = b⟩ := (List.cons_prefix_cons.mp hp).2
    exact hb '\x22' rfl rfl
  · obtain rfl : '\x22' = d := (List.cons_prefix_cons.mp (List.cons_prefix_cons.mp hp).2).1
    exact ha (ht.subset (by simp))

theorem value_quiet (hne : v ≠ []) (hv : ∀ c ∈ v, InValue c) (hb : Ends b) :
    (exactly emptyValue).Quiet (quotedValue (some v)) b := by
  have inside : (exactly emptyValue).Quiet (v ++ ['\x22']) b := by
    intro t hne ht
    refine exactly_of_miss fun hp => ?_
    obtain rfl | ⟨w, rfl, hw⟩ := List.suffix_concat_iff.mp ht
    · contradiction
    rcases w with _ | ⟨c, _ | ⟨d, w⟩⟩
    · exact absurd (List.cons_prefix_cons.mp hp).1 (by decide)
    · obtain ⟨rest, rfl : '\x22' :: rest = b⟩ := (List.cons_prefix_cons.mp (List.cons_prefix_cons.mp hp).2).2
      exact absurd (hb '\x22' rfl) (by decide)
    · have := (List.cons_prefix_cons.mp (List.cons_prefix_cons.mp hp).2).1
      exact absurd this.symm (hv d (hw.subset (by simp))).1
  obtain ⟨c, w, rfl⟩ := List.exists_cons_of_ne_nil hne
  have front : (exactly emptyValue).Quiet ['=', '\x22'] ((c :: w ++ ['\x22']) ++ b) := by
    intro t hne ht
    refine exactly_of_miss ?_
    rcases List.suffix_cons_iff.mp ht with rfl | ht
    · exact not_emptyValue (hv c List.mem_cons_self).1.symm
    · rcases List.suffix_cons_iff.mp ht with rfl | ht
      · exact not_emptyValue_of_ne (by decide)
      · exact absurd (List.suffix_nil.mp ht) hne
  exact front.append inside

end Quiet

section Cutting

variable {blanks name : Text}

def written (a : Option Attribute) : Text := a.elim [] Attribute.text

theorem isBlank_of_isNameChar (h : isNameChar c = true) : isBlank c = false := by
  have code : (97 ≤ c.toNat ∧ c.toNat ≤ 122) ∨ c.toNat = 45 ∨ c.toNat = 95 := by
    rw [isNameChar, Bool.or_eq_true, Bool.or_eq_true, beq_iff_eq, beq_iff_eq] at h
    rcases h with (h | rfl) | rfl
    · exact .inl (by simpa [Char.isLower, UInt32.le_iff_toNat_le] using h)
    · exact .inr (.inl rfl)
    · exact .inr (.inr rfl)
  simp [isBlank]
  omega

theorem emptyAttribute_hit (hs : ∀ c ∈ blanks, isBlank c = true) (hn : ∀ c ∈ name, isNameChar c = true) :
    emptyAttribute (blanks ++ (name ++ emptyValue) ++ b) = some ((), (blanks ++ (name ++ emptyValue)).length) := by
  have start {p : Char → Bool} (h : p '=' = false) :
      (emptyValue ++ b).takeWhile p = [] ∧ (emptyValue ++ b).dropWhile p = emptyValue ++ b := by
    simp [emptyValue, lit, h]
  have blankless : (name ++ (emptyValue ++ b)).takeWhile isBlank = [] ∧
      (name ++ (emptyValue ++ b)).dropWhile isBlank = name ++ (emptyValue ++ b) := by
    cases name
    case nil => exact start (by decide)
    case cons c name => simp [isBlank_of_isNameChar (hn c List.mem_cons_self)]
  have behind : behindName (blanks ++ (name ++ (emptyValue ++ b))) = emptyValue ++ b := by
    rw [behindName, List.dropWhile_append_of_pos hs, blankless.2, List.dropWhile_append_of_pos hn]
    exact (start (by decide)).2
  have hit := emptyAttribute_of_value (s := blanks ++ (name ++ (emptyValue ++ b)))
    (by rw [behind]; exact List.prefix_append _ _)
  rw [List.takeWhile_append_of_pos hs, List.dropWhile_append_of_pos hs, blankless.1, blankless.2,
    List.takeWhile_append_of_pos hn, (start (by decide)).1, List.append_nil, List.append_nil] at hit
  have whole : blanks ++ (name ++ emptyValue) ++ b = blanks ++ (name ++ (emptyValue ++ b)) := by simp
  rw [whole, hit]
  simp [emptyValue, lit, Nat.add_assoc]

theorem emptyAttribute_local : emptyAttribute.Local where
  bounded := emptyAttribute_bounded
  takes s _ width h := by
    by_cases hv : emptyValue <+: behindName s
    · rw [emptyAttribute_of_value hv] at h
      cases h
      exact Nat.succ_pos _
    · rw [emptyAttribute_of_no_value hv] at h
      cases h
  alike taken a b _ h := by
    by_cases hv : emptyValue <+: behindName (taken ++ a)
    case neg =>
      rw [emptyAttribute_of_no_value hv] at h
      cases h
    case pos =>
      obtain ⟨rest, hr⟩ := hv
      obtain ⟨blanks, name, parts, hs, hn⟩ := behindName_front (taken ++ a)
      have parts : taken ++ a = blanks ++ (name ++ emptyValue) ++ rest := by
        rw [parts, ← hr]
        simp
      rw [parts, emptyAttribute_hit hs hn] at h
      have whole : taken = blanks ++ (name ++ emptyValue) :=
        (List.append_inj parts (congrArg Prod.snd (Option.some.inj h)).symm).1
      rw [whole, emptyAttribute_hit hs hn]

theorem dropEmptyAttributes_hit (hs : ∀ c ∈ blanks, isBlank c = true) (hn : ∀ c ∈ name, isNameChar c = true) :
    dropEmptyAttributes (blanks ++ (name ++ emptyValue) ++ b) = dropEmptyAttributes b :=
  replace_of_hit (by simp [emptyValue, lit]) (emptyAttribute_hit hs hn)

theorem quoteless_name (hs : ∀ c ∈ blanks, isBlank c = true) (hn : ∀ c ∈ name, InWord c) : '\x22' ∉ blanks ++ name := by
  rw [List.mem_append, not_or]
  exact ⟨fun hm => absurd (hs _ hm) (by decide), fun hm => (hn _ hm).2.1 rfl⟩

theorem emptyAttribute_name (hs : ∀ c ∈ blanks, isBlank c = true) (hne : name ≠ []) (hn : ∀ c ∈ name, InWord c)
    (hl : isNameChar (name.getLast hne) = true → Ends b) (hb : ∀ c ∈ b.head?, c ≠ '\x22') :
    emptyAttribute.Quiet (blanks ++ name) b := by
  refine emptyAttribute_quiet (emptyValue_quiet (quoteless_name hs hn) hb) ?_
  · rw [List.getLast?_append_of_ne_nil _ hne, List.getLast?_eq_some_getLast hne]
    rintro c ⟨⟩
    exact ⟨(hn _ (List.getLast_mem hne)).1, hl⟩

theorem emptyAttribute_attribute {a : Attribute} (he : ¬ a.Empty) (hb : Ends b) : emptyAttribute.Quiet a.text b := by
  rw [Attribute.text, ← List.append_assoc]
  cases hv : a.value
  case none =>
    rw [quotedValue, List.append_nil]
    exact emptyAttribute_name a.spaced.2 a.named.1 a.named.2 (fun _ => hb) hb.quoteless
  case some v =>
    have hne : v ≠ [] := by
      rintro rfl
      exact he hv
    have front := emptyValue_quiet (b := quotedValue (some v) ++ b) (quoteless_name a.spaced.2 a.named.2)
      (by rintro _ ⟨⟩; decide)
    refine emptyAttribute_quiet (front.append (value_quiet hne (a.quoted v hv) hb)) ?_
    · rw [quotedValue, ← List.cons_append, ← List.cons_append, ← List.append_assoc, List.getLast?_concat]
      rintro c ⟨⟩
      exact ⟨by decide, fun h => absurd h (by decide)⟩

theorem dropEmptyAttributes_attribute (a : Attribute) (hb : Ends b) :
    dropEmptyAttributes (a.text ++ b) = written a.cut? ++ dropEmptyAttributes b := by
  rw [Attribute.cut?]
  split
  case isFalse he => exact replace_of_quiet (emptyAttribute_attribute he hb)
  case isTrue he =>
    have name := (List.rdropWhile_append_rtakeWhile (p := isNameChar) (l := a.name)).symm
    have ending : ∀ c ∈ a.name.rtakeWhile isNameChar, isNameChar c = true := fun c hc => List.mem_rtakeWhile_imp hc
    have parts : a.text = a.blanks ++ (a.name ++ emptyValue) := by rw [Attribute.text, he]; rfl
    split
    case isTrue hr =>
      rw [hr, List.nil_append] at name
      rw [parts]
      exact dropEmptyAttributes_hit a.spaced.2 (name ▸ ending)
    case isFalse hr =>
      have stop : ¬ isNameChar ((a.name.rdropWhile isNameChar).getLast hr) = true := List.rdropWhile_last_not _ _ hr
      have quoteless : ∀ c ∈ ([] ++ (a.name.rtakeWhile isNameChar ++ emptyValue) ++ b).head?, c ≠ '\x22' := by
        cases hm : a.name.rtakeWhile isNameChar
        case nil =>
          rintro _ ⟨⟩
          decide
        case cons d m =>
          rintro _ ⟨⟩ rfl
          exact absurd (ending '\x22' (hm ▸ List.mem_cons_self)) (by decide)
      have quiet := emptyAttribute_name (b := [] ++ (a.name.rtakeWhile isNameChar ++ emptyValue) ++ b) a.spaced.2 hr
        (fun c hc => a.named.2 c ((List.rdropWhile_prefix _ _).subset hc)) (fun h => absurd h stop) quoteless
      have cut := dropEmptyAttributes_hit (b := b) (List.forall_mem_nil _) ending
      calc dropEmptyAttributes (a.text ++ b)
        _ = dropEmptyAttributes ((a.blanks ++ a.name.rdropWhile isNameChar) ++
              ([] ++ (a.name.rtakeWhile isNameChar ++ emptyValue) ++ b)) := by
          rw [parts]
          nth_rewrite 1 [name]
          simp only [List.append_assoc, List.nil_append]
        _ = (a.blanks ++ a.name.rdropWhile isNameChar) ++ dropEmptyAttributes b := by
          rw [dropEmptyAttributes, replace_of_quiet quiet]
          exact congrArg _ cut
        _ = _ := by simp [written, Attribute.text, quotedValue]

theorem ends_blank (h : isBlank c = true) : Ends (c :: b) := by
  rintro _ ⟨⟩
  refine ⟨Bool.eq_false_iff.mpr fun hn => ?_, ?_, ?_⟩
  · simp [isBlank_of_isNameChar hn] at h
  all_goals
    rintro rfl
    exact absurd h (by decide)

theorem ends_attributes (hb : Ends b) (attributes : List Attribute) :
    Ends (attributes.flatMap Attribute.text ++ b) := by
  cases attributes
  case nil => exact hb
  case cons a attributes =>
    obtain ⟨c, blanks, he⟩ := List.exists_cons_of_ne_nil a.spaced.1
    rw [List.flatMap_cons, Attribute.text, he]
    exact ends_blank (a.spaced.2 c (he ▸ List.mem_cons_self))

theorem dropEmptyAttributes_of_quiet (h : emptyAttribute.Quiet a b) :
    dropEmptyAttributes (a ++ b) = a ++ dropEmptyAttributes b :=
  replace_of_quiet h

theorem dropEmptyAttributes_attributes (hb : Ends b) (attributes : List Attribute) :
    dropEmptyAttributes (attributes.flatMap Attribute.text ++ b) =
      (attributes.filterMap Attribute.cut?).flatMap Attribute.text ++ dropEmptyAttributes b := by
  induction attributes
  case nil => rfl
  case cons a attributes hi =>
    rw [List.flatMap_cons, List.append_assoc, dropEmptyAttributes_attribute a (ends_attributes hb attributes), hi,
      List.filterMap_cons]
    cases a.cut? <;> simp [written]

theorem dropEmptyAttributes_append (h : Stops c) (hc : Cuts [c] emptyValue) (hv : ¬ emptyValue <+: c :: b) (a : Text) :
    dropEmptyAttributes (a ++ c :: b) = dropEmptyAttributes a ++ c :: dropEmptyAttributes b := by
  have apart : emptyAttribute.Apart a (c :: b) := fun _ _ _ => emptyAttribute_append h hc hv
  have miss : emptyAttribute (c :: b) = none := (emptyAttribute_append (s := []) h hc hv).trans rfl
  rw [dropEmptyAttributes, replace_append emptyAttribute_bounded apart, replace_of_miss miss]
  rfl

theorem dropEmptyAttributes_bracket (hc : c = '<' ∨ c = '>') (a b : Text) :
    dropEmptyAttributes (a ++ c :: b) = dropEmptyAttributes a ++ c :: dropEmptyAttributes b := by
  rcases hc with rfl | rfl <;>
    exact dropEmptyAttributes_append (by decide) (by decide) (not_emptyValue_of_ne (by decide)) a

theorem dropEmptyAttributes_of_quoteless (h : '\x22' ∉ a) : dropEmptyAttributes a = a := by
  have quiet : emptyAttribute.Quiet a [] := by
    intro s _ hs
    rw [List.append_nil]
    refine emptyAttribute_of_no_value fun hp => h (hs.subset (behindName_suffix.subset (hp.subset ?_)))
    decide
  have := dropEmptyAttributes_of_quiet quiet
  rwa [List.append_nil, show dropEmptyAttributes [] = [] from rfl, List.append_nil] at this

theorem dropEmptyAttributes_inner (t : Tag) : dropEmptyAttributes t.inner = (t.change Attribute.cut?).inner := by
  have ends : Ends t.ending := by
    cases he : t.ending
    case nil => exact nofun
    case cons c ending =>
      rcases t.ended c (he ▸ List.mem_cons_self) with blank | rfl
      · exact ends_blank blank
      · rintro _ ⟨⟩
        decide
  have quoteless : '\x22' ∉ t.ending := fun h => absurd (t.ended _ h) (by decide)
  have behind : Ends (t.attributes.flatMap Attribute.text ++ t.ending) := ends_attributes ends _
  have name : emptyAttribute.Quiet ([] ++ t.name) (t.attributes.flatMap Attribute.text ++ t.ending) :=
    emptyAttribute_name (List.forall_mem_nil _) t.named.1 (fun c hc => (t.named.2 c hc).1) (fun _ => behind)
      behind.quoteless
  rw [List.nil_append] at name
  rw [Tag.inner, dropEmptyAttributes_of_quiet name, dropEmptyAttributes_attributes ends,
    dropEmptyAttributes_of_quoteless quoteless]
  rfl

theorem dropEmptyAttributes_tag (t : Tag) (a b : Text) :
    dropEmptyAttributes (a ++ (t.text ++ b)) =
      dropEmptyAttributes a ++ ((t.change Attribute.cut?).text ++ dropEmptyAttributes b) := by
  rw [t.text_append, dropEmptyAttributes_bracket (.inl rfl), dropEmptyAttributes_bracket (.inr rfl),
    dropEmptyAttributes_inner, Tag.text_append]

theorem dropEmptyAttributes_tagged (s : Tagged) : dropEmptyAttributes s.text = (s.change Attribute.cut?).text := by
  obtain ⟨tags, rest, plain⟩ := s
  have run : dropEmptyAttributes (tags.flatMap (fun (front, tag) => front ++ tag.text) ++ rest) =
      (tags.map fun (front, tag) => (front, tag.change Attribute.cut?)).flatMap
        (fun (front, tag) => front ++ tag.text) ++ rest := by
    have ⟨last, fronts⟩ := plain
    clear plain
    induction tags
    case nil => exact dropEmptyAttributes_of_quoteless last
    case cons entry tags hi =>
      have ⟨first, fronts⟩ := List.forall_mem_cons.mp fronts
      have hi := hi fronts
      rw [List.flatMap_cons, List.append_assoc, List.append_assoc, dropEmptyAttributes_tag,
        dropEmptyAttributes_of_quoteless first, hi, List.map_cons, List.flatMap_cons]
      simp only [List.append_assoc]
  exact run

end Cutting

section Whole

namespace Attribute

variable {a : Attribute}

def Plain (a : Attribute) : Prop := ∀ c ∈ a.name, isNameChar c = true

instance (a : Attribute) : Decidable a.Plain := inferInstanceAs (Decidable (∀ c ∈ a.name, _))

theorem cut?_eq_whole? (h : a.Empty → a.Plain) : a.cut? = a.whole? := by
  rw [cut?, whole?]
  split
  case isTrue he => exact dif_pos (List.rdropWhile_eq_nil_iff.mpr (h he))
  case isFalse => rfl

theorem length_written_lt (he : a.Empty) (hp : ¬ a.Plain) : (written a.whole?).length < (written a.cut?).length := by
  have hr : a.name.rdropWhile isNameChar ≠ [] := mt List.rdropWhile_eq_nil_iff.mp hp
  have left : 0 < (a.name.rdropWhile isNameChar).length := List.length_pos_iff.mpr hr
  simp [whole?, cut?, he, hr, written, text]
  omega

theorem length_written_le (a : Attribute) : (written a.whole?).length ≤ (written a.cut?).length := by
  by_cases h : a.Empty → a.Plain
  case pos => rw [cut?_eq_whole? h]
  case neg =>
    obtain ⟨he, hp⟩ := Classical.not_imp.mp h
    exact Nat.le_of_lt (length_written_lt he hp)

end Attribute

theorem length_text_change (f : Attribute → Option Attribute) (s : Tagged) :
    (s.change f).text.length =
      (s.change fun _ => none).text.length + (s.attributes.map fun a => (written (f a)).length).sum := by
  have attributes (all : List Attribute) :
      ((all.filterMap f).flatMap Attribute.text).length = (all.map fun a => (written (f a)).length).sum := by
    induction all
    case nil => rfl
    case cons a all hi =>
      rw [List.filterMap_cons, List.map_cons, List.sum_cons, ← hi]
      cases f a <;> simp [written]
  have tag (t : Tag) : (t.change f).text.length =
      (t.change fun _ => none).text.length + (t.attributes.map fun a => (written (f a)).length).sum := by
    simp only [Tag.text, Tag.inner, Tag.change, List.length_cons, List.length_append, attributes]
    simp
    omega
  obtain ⟨tags, rest, plain⟩ := s
  simp only [Tagged.text, Tagged.change, Tagged.attributes, List.length_append]
  clear plain
  induction tags
  case nil => simp
  case cons entry tags hi =>
    simp only [List.map_cons, List.flatMap_cons, List.length_append, List.map_append, List.sum_append, tag entry.2]
    omega

-- Exactly the empty attributes go, each with the blank characters in front of it, if and only if all of their names are
-- made of lower-case letters, dashes and underscores. Of another empty attribute the name stays up to the last
-- character that is none of these, as a name without a value.
theorem dropEmptyAttributes_whole_iff (s : Tagged) :
    dropEmptyAttributes s.text = (s.change Attribute.cut?).text ∧
      (dropEmptyAttributes s.text = (s.change Attribute.whole?).text ↔ ∀ a ∈ s.attributes, a.Empty → a.Plain) := by
  refine ⟨dropEmptyAttributes_tagged s, ?_⟩
  rw [dropEmptyAttributes_tagged s]
  constructor
  case mp =>
    intro same a ha he
    by_contra hp
    have shorter := List.sum_lt_sum (fun a => (written a.whole?).length) (fun a => (written a.cut?).length)
      (fun a _ => a.length_written_le) ⟨a, ha, Attribute.length_written_lt he hp⟩
    have lengths := congrArg List.length same
    rw [length_text_change, length_text_change Attribute.whole?] at lengths
    omega
  case mpr =>
    intro plain
    have tags : ∀ entry ∈ s.tags, entry.2.change Attribute.cut? = entry.2.change Attribute.whole? := by
      intro entry he
      have : entry.2.attributes.filterMap Attribute.cut? = entry.2.attributes.filterMap Attribute.whole? :=
        List.filterMap_congr fun a ha =>
          Attribute.cut?_eq_whole? (plain a (List.mem_flatMap.mpr ⟨entry, he, ha⟩))
      rw [Tag.change, Tag.change]
      simp [this]
    simp only [Tagged.text, Tagged.change]
    rw [List.map_congr_left fun entry he => by rw [tags entry he]]

def drawing : Tagged where
  tags  := [([], {
    name       := lit "svg"
    attributes := [{
      blanks := [' ']
      name   := lit "viewBox"
      value  := some []
      spaced := by decide
      named  := by decide
      quoted := by decide }]
    ending     := []
    named      := by decide
    ended      := by decide })]
  rest  := []
  plain := by decide

-- The end of its name goes with the value, and the rest stays.
theorem not_dropEmptyAttributes_whole_drawing :
    drawing.text = lit "<svg viewBox=\"\">" ∧ (drawing.change Attribute.whole?).text = lit "<svg>" ∧
      dropEmptyAttributes drawing.text = lit "<svg viewB>" := by
  decide +kernel

end Whole

end WikiPages.Cleanup
