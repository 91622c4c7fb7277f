import WikiPages.Proofs.Expansion.Running
import WikiPages.Proofs.Expansion.Steps
import WikiPages.Proofs.Identifier.Issuing
import WikiPages.Proofs.Specification.Lacking
import WikiPages.Proofs.Template.AtOnce
import WikiPages.Proofs.Template.Bundled
import WikiPages.Proofs.Template.Stripping
import WikiPages.Proofs.Text.Words

namespace WikiPages.Expander

open Text Hole

variable {e : Expander} {block : Block} {p : Parameter} {pageTitle id argument item name s t : Text}

section Reference

def itemRow (argument : Text) : ItemRow where
  item := trim (argument.takeWhile (· ≠ '@'))
  row  := some (trim ((argument.dropWhile (· ≠ '@')).drop 1)) |>.filter (· ≠ [])

-- A text, cut at the first place where the slot stands.
def cutAtSlot (s : Text) : Text × Option Text :=
  match s.tails.findIdx? content.isPrefixOf with
  | some n => (s.take n, some (s.drop (n + content.length)))
  | none   => (s, none)

variable (e : Expander) (block : Block) (pageTitle id : Text)

def templateText (name : Text) : Text := (e.templates.text name Templates.pageExtension).toOption.getD []

def wrapped (row : Option Text) (items : Text) : Text :=
  match row with
  | some row => fillAll (only (lit "content") items) (e.templateText row)
  | none     => items

def headerValue (p : Parameter) (inside : Text) : Option Text :=
  p.overrides.lookup inside
    |>.or (only (lit "style") p.style inside)
    |>.or (only (lit "title") p.name inside)

-- The item with the variant of a parameter, if there is a template for that.
def headerName (item : Text) (p : Parameter) : Text :=
  ((p.variant.map (item ++ '-' :: ·)).filter fun name => e.templates.has name Templates.pageExtension).getD item

def headerItemText (item : Text) (p : Parameter) : Text :=
  fillAll (headerValue p) (e.templateText (e.headerName item p))

def headerText (argument : Text) : Text :=
  e.wrapped (itemRow argument).row
    (block.parameters.map (e.headerItemText (itemRow argument).item)).flatten

def headersValue (inside : Text) : Option Text := (argument? headerKind inside).map (e.headerText block)

def fieldValue (field : Option Xml.Place) (inside : Text) : Option Text :=
  only (lit "title") (Binding.fieldText field) inside
    |>.or ((argument? attributeKind inside).map (Binding.attributeOf field))
    |>.or ((argument? elementKind inside).map (Binding.elementOf field))

def dataItemText (item : Text) (field : Option Xml.Place) : Text :=
  fillAll (fieldValue field) (e.templateText item)

def dataRowText (argument : Text) (place : Xml.Place) : Text :=
  e.wrapped (itemRow argument).row
    ((Binding.fields place block.parameters).map (e.dataItemText (itemRow argument).item)).flatten

def dataText (argument : Text) : Text :=
  join lineBreak ((Binding.rows e.data block pageTitle id).map (e.dataRowText block argument))

def dataValue (inside : Text) : Option Text :=
  only (lit "data") (Binding.scalar e.data block pageTitle id) inside
    |>.or ((argument? dataKind inside).map (e.dataText block pageTitle id))

def nameValue (title inside : Text) : Option Text :=
  only (lit "id") id inside
    |>.or (only (lit "name") (Identifier.normalize title) inside)
    |>.or (only (lit "title") title inside)

def blockValue (inside : Text) : Option Text :=
  nameValue id block.title inside
    |>.or (e.headersValue block inside)
    |>.or (e.dataValue block pageTitle id inside)

-- A template of a block with its overrides filled, cut at its slot. The holes on both sides are filled at once, with
-- some text in front of the slot and a line break at the end. The holes that are left go, each with one blank on either
-- side.
def atOnce (template inner : Text) : Snippet :=
  let filled := fillAll (e.blockValue block pageTitle id)
  let strip s := left none (any.cut s)
  match cutAtSlot (fillAll block.overrides.lookup template) with
  | (whole, none)        => .leaf (strip (filled whole ++ lineBreak))
  | (front, some behind) => .withSlot (strip (filled front ++ inner)) (strip (filled behind ++ lineBreak))

end Reference

theorem parse_eq (argument : Text) : ItemRow.parse argument = itemRow argument := by
  rw [ItemRow.parse, itemRow]
  by_cases h : '@' ∈ argument
  case neg =>
    have all : ∀ c ∈ argument, decide (c ≠ '@') = true := fun c hc => decide_eq_true fun he => h (he ▸ hc)
    rw [splitOnce?_eq_none_iff.mpr fun hs => h (hs.subset List.mem_cons_self), List.takeWhile_eq_self_iff.mpr all,
      List.dropWhile_eq_nil_iff.mpr all]
    rfl
  case pos =>
    have ⟨item, row, parts, free⟩ := List.eq_append_cons_of_mem h
    have inside : ∀ c ∈ item, decide (c ≠ '@') = true := fun c hc => decide_eq_true fun he => free (he ▸ hc)
    rw [parts, splitOnce?_of_free free, List.takeWhile_append_of_pos inside, List.dropWhile_append_of_pos inside]
    simp

theorem headerTemplate_eq (item : Text) (p : Parameter) : e.headerTemplate item p = e.headerName item p := by
  rw [headerTemplate, headerName]
  cases p.variant
  case none => rfl
  case some variant =>
    change (if e.templates.hasPage _ then _ else item) = (Option.filter _ (some (item ++ '-' :: variant))).getD item
    rw [Option.filter_some, Templates.hasPage]
    split <;> rfl

theorem splitOnce?_content (s : Text) :
    splitOnce? content s = (s.tails.findIdx? content.isPrefixOf).map fun n => (s.take n, s.drop (n + content.length)) := by
  induction s
  case nil => rfl
  case cons c s hi =>
    rw [List.tails_cons, List.findIdx?_cons]
    by_cases here : content <+: c :: s
    case pos =>
      have ⟨rest, hr⟩ := here
      rw [← hr, splitOnce?_append, if_pos (List.isPrefixOf_iff_prefix.mpr (List.prefix_append ..))]
      simp
    case neg =>
      rw [splitOnce?_cons (isPrefixOf?_eq_none_iff.mpr here), hi, if_neg (here ∘ List.isPrefixOf_iff_prefix.mp),
        Option.map_map, Option.map_map]
      refine Option.map_congr fun n _ => ?_
      simp only [Function.comp_apply, List.take_succ_cons, Nat.add_right_comm n 1, List.drop_succ_cons]

theorem finishSnippet_leaf (s : Text) :
    finishSnippet (.leaf s) = .leaf (left none (any.cut (s ++ lineBreak))) :=
  congrArg Snippet.leaf (stripUnfilled_eq_left _)

theorem finishSnippet_withSlot (head tail : Text) :
    finishSnippet (.withSlot head tail) = .withSlot (left none (any.cut head)) (left none (any.cut (tail ++ lineBreak))) :=
  congrArg₂ Snippet.withSlot (stripUnfilled_eq_left _) (stripUnfilled_eq_left _)

theorem ofTemplate_eq (s : Text) : Snippet.ofTemplate s = ⟨(cutAtSlot s).1, (cutAtSlot s).2⟩ := by
  rw [Snippet.ofTemplate, splitOnce?_content, cutAtSlot]
  cases s.tails.findIdx? content.isPrefixOf <;> rfl

def IsData (inside : Text) : Prop := inside = lit "data" ∨ argument? dataKind inside ≠ none

instance : DecidablePred IsData := fun _ => inferInstanceAs (Decidable (_ ∨ _))

-- The holes that are filled in a template but must not be in what is filled in.
def IsDriving (inside : Text) : Prop :=
  inside = lit "id" ∨ argument? headerKind inside ≠ none ∨ IsData inside

instance : DecidablePred IsDriving := fun _ => inferInstanceAs (Decidable (_ ∨ _))

section

variable {inside : Text} (h : ¬ IsDriving inside)

include h

theorem headersValue_eq_none : e.headersValue block inside = none :=
  Option.map_eq_none_iff.mpr (not_not.mp fun hn => h (.inr (.inl hn)))

theorem map_data_eq_none (value : Text → Text) : (argument? dataKind inside).map value = none :=
  Option.map_eq_none_iff.mpr (not_not.mp fun hn => h (.inr (.inr (.inr hn))))

theorem dataValue_eq_none : e.dataValue block pageTitle id inside = none := by
  rw [dataValue, only_of_ne fun he => h (.inr (.inr (.inl he))), map_data_eq_none h]
  rfl

end

abbrev Bare (s : Text) : Prop := Without IsDriving s

-- The items and rows that the holes of a text name are bare.
structure Separate (e : Expander) (block : Block) (s : Text) : Prop where
  headers : ∀ argument ∈ arguments headerKind s,
    (∀ p ∈ block.parameters, Bare (e.templateText (e.headerName (itemRow argument).item p))) ∧
      ∀ row ∈ (itemRow argument).row, Bare (e.templateText row)
  data    : ∀ argument ∈ arguments dataKind s,
    Bare (e.templateText (itemRow argument).item) ∧
      ∀ row ∈ (itemRow argument).row, Bare (e.templateText row)

theorem Separate.of_subset (h : e.Separate block s) (hs : Clean s) (ht : Clean t)
    (hi : ∀ inside ∈ insides t, IsDriving inside → inside ∈ insides s) : e.Separate block t where
  headers := fun argument ha => by
    have ⟨inside, hm, he⟩ := (mem_arguments ht).mp ha
    have driving : IsDriving inside := .inr (.inl (he ▸ Option.some_ne_none argument))
    exact h.headers argument ((mem_arguments hs).mpr ⟨inside, hi inside hm driving, he⟩)
  data    := fun argument ha => by
    have ⟨inside, hm, he⟩ := (mem_arguments ht).mp ha
    have driving : IsDriving inside := .inr (.inr (.inr (he ▸ Option.some_ne_none argument)))
    exact h.data argument ((mem_arguments hs).mpr ⟨inside, hi inside hm driving, he⟩)

-- The overrides of the header items that a text names might as well be applied at once.
def Immediate (e : Expander) (block : Block) (s : Text) : Prop :=
  ∀ argument ∈ arguments headerKind s, ∀ p ∈ block.parameters,
    p.overrides.apply (e.templateText (e.headerName (itemRow argument).item p)) =
      fillAll p.overrides.lookup (e.templateText (e.headerName (itemRow argument).item p))

theorem immediate_of_lacks (h : e.Separate block s) (hb : block.Lacks '$') (hk : ∀ p ∈ block.parameters, p.Lacks '}') :
    e.Immediate block s := by
  intro argument ha p hp
  have bare := (h.headers argument ha).1 p hp
  refine Substitution.apply_eq_fillAll bare.clean fun entry he => ?_
  exact ⟨((hk p hp).overrides entry he).1, ((hb.parameters p hp).overrides entry he).2⟩

theorem templateText_eq {t : Text} (h : e.templates.text name Templates.pageExtension = .ok t) :
    e.templateText name = t := by
  rw [templateText, h]
  rfl

theorem eq_apply_of_page {values : Substitution} (h : e.templates.page name values = .ok s) :
    s = values.apply (e.templateText name) := by
  have ⟨_, known, applied⟩ := exists_of_map h
  rw [templateText_eq known, applied]

theorem exists_of_run_page {values : Substitution} {l l' : Ledger}
    (h : (e.page name values).run.run l = (.ok s, l')) :
    e.templates.text name Templates.pageExtension = .ok (e.templateText name) ∧
      s = values.apply (e.templateText name) := by
  have ⟨t, ht, hs⟩ := exists_of_map (of_run_page h)
  rw [templateText_eq ht]
  exact ⟨ht, hs.symm⟩

theorem yields_page (name : Text) (values : Substitution) :
    Yields (e.page name values) (values.apply (e.templateText name)) :=
  fun _ _ _ h => ⟨(exists_of_run_page h).2, congrArg Ledger.ids (Prod.mk.inj h).2.symm⟩

theorem plain_lookup {σ : Substitution} (h : σ.Lacks '$') : Plain σ.lookup := by
  intro inside v hv
  exact (h (inside, v) (mem_of_lookup hv)).2

section Items

variable {row : Option Text}

theorem bare_wrapped (hr : ∀ name ∈ row, Bare (e.templateText name)) (h : Bare s) : Bare (e.wrapped row s) := by
  cases row
  case none => exact h
  case some row => exact (hr row rfl).fillAll fun inside v hv => (eq_of_mem_only hv).2 ▸ h

theorem yields_wrapRow (hr : ∀ name ∈ row, Bare (e.templateText name)) (items : Text) :
    Yields (e.wrapRow row items) (e.wrapped row items) := by
  cases row
  case none => exact .pure items
  case some row =>
    have filled : replaceAll content items (e.templateText row) = e.wrapped (some row) items :=
      replaceAll_eq_fillAll (hr row rfl).clean (by decide)
    exact (yields_page row {}).bind (filled ▸ .pure _)

theorem yields_nameItem (h : Bare s) (title : Text) :
    Yields (nameItem title s) (fillAll (only (lit "title") title) s) := by
  have unnamed : contains idHole s = false := by
    rw [← Bool.not_eq_true, idHole, contains_iff h.clean (by decide)]
    exact fun hi => h.absent _ hi (.inl rfl)
  have filled : replaceAll titleHole title s = _ := replaceAll_eq_fillAll h.clean (by decide)
  rw [nameItem_eq_pure unnamed, filled]
  exact .pure _

theorem Plain.bare {f : Text → Option Text} (hf : Plain f) (h : Bare s) : Bare (fillAll f s) :=
  h.fillAll fun inside v hv => .of_free (hf inside v hv)

variable (hp : p.Lacks '$')

include hp

theorem plain_style : Plain fun inside => (p.overrides.lookup inside).or (only (lit "style") p.style inside) :=
  (plain_lookup hp.overrides).or (.only hp.style)

theorem bare_headerItemText (h : Bare (e.templateText (e.headerName item p))) :
    Bare (e.headerItemText item p) :=
  Plain.bare ((plain_style hp).or (.only hp.name)) h

theorem yields_headerItem (h : Bare (e.templateText (e.headerName item p)))
    (applied : p.overrides.apply (e.templateText (e.headerName item p)) =
      fillAll p.overrides.lookup (e.templateText (e.headerName item p))) :
    Yields (e.headerItem item p) (e.headerItemText item p) := by
  have overrides : Plain p.overrides.lookup := plain_lookup hp.overrides
  have style : replaceAll styleHole p.style (fillAll p.overrides.lookup _) = _ :=
    replaceAll_eq_fillAll (overrides.clean h.clean) (by decide)
  rw [headerItem, headerTemplate_eq]
  refine (yields_page _ _).bind ?_
  rw [applied, style, overrides.fillAll_fillAll h.clean]
  have titled : fillAll (only (lit "title") p.name) (fillAll _ _) = e.headerItemText item p :=
    (plain_style hp).fillAll_fillAll h.clean
  exact titled ▸ yields_nameItem (Plain.bare (plain_style hp) h) p.name

end Items

section Rows

variable {field : Option Xml.Place} (hf : ∀ p ∈ field, p.Lacks '$')

include hf

theorem plain_attribute : Plain fun inside =>
    (only (lit "title") (Binding.fieldText field) inside).or
      ((argument? attributeKind inside).map (Binding.attributeOf field)) := by
  refine (Plain.only (Binding.not_mem_fieldText hf)).or fun inside v hv => ?_
  have ⟨name, _, he⟩ := Option.map_eq_some_iff.mp hv
  exact he ▸ Binding.not_mem_attributeOf hf

theorem bare_dataItemText (h : Bare (e.templateText item)) : Bare (e.dataItemText item field) := by
  refine Plain.bare ((plain_attribute hf).or fun inside v hv => ?_) h
  have ⟨name, _, he⟩ := Option.map_eq_some_iff.mp hv
  exact he ▸ Binding.not_mem_elementOf hf

theorem yields_dataItem (h : Bare (e.templateText item)) :
    Yields (dataItem (e.templateText item) field) (e.dataItemText item field) := by
  have titled : Plain (only (lit "title") (Binding.fieldText field)) := .only (Binding.not_mem_fieldText hf)
  rw [dataItem]
  refine (yields_nameItem h _).bind ?_
  dsimp only
  rw [replace_named_eq_fillAll (titled.clean h.clean), titled.fillAll_fillAll h.clean,
    replace_named_eq_fillAll ((plain_attribute hf).clean h.clean), (plain_attribute hf).fillAll_fillAll h.clean]
  exact .pure _

end Rows

theorem yields_countOutputs (n : Nat) : Yields (countOutputs n) () := by
  intro l b l' h
  cases h
  exact ⟨rfl, rfl⟩

theorem yields_fillValue (hs : Clean s) :
    Yields (e.fillValue pageTitle id block s)
      (fillAll (only (lit "data") (Binding.scalar e.data block pageTitle id)) s) := by
  rw [fillValue]
  split
  case isTrue =>
    have counted : Yields (countOutputs 1) () := yields_countOutputs 1
    have filled : replaceAll dataHole (Binding.scalar e.data block pageTitle id) s = _ :=
      replaceAll_eq_fillAll hs (by decide)
    rw [filled]
    exact counted.bind (.pure _)
  case isFalse hc =>
    rw [dataHole, contains_iff hs (by decide)] at hc
    have unfilled : Unfilled (only (lit "data") (Binding.scalar e.data block pageTitle id)) s :=
      ⟨hs, fun inside hi => only_of_ne (ne_of_mem_of_not_mem hi hc) _⟩
    rw [unfilled.fillAll_eq]
    exact .pure s

section Fill

variable (hb : block.Lacks '$')

include hb

theorem bare_headerText (h : e.Separate block s) (ha : argument ∈ arguments headerKind s) :
    Bare (e.headerText block argument) := by
  have ⟨items, row⟩ := h.headers argument ha
  refine bare_wrapped row (.flatten fun item hi => ?_)
  have ⟨p, hp, he⟩ := List.mem_map.mp hi
  exact he ▸ bare_headerItemText (hb.parameters p hp) (items p hp)

theorem yields_fillHeaders (hk : e.Immediate block s) (hs : Clean s) (h : e.Separate block s) :
    Yields (e.fillHeaders block s) (fillAll (e.headersValue block) s) := by
  have unfilled : ∀ argument ∈ arguments headerKind s,
      Unfilled (e.headersValue block) (e.headerText block argument) :=
    fun argument ha => (bare_headerText hb h ha).unfilled fun _ hi => headersValue_eq_none hi
  have filled : _ = fillAll (e.headersValue block) s := foldl_arguments_eq_fillAll hs unfilled
  rw [← filled]
  refine .foldlM (fun s' argument ha => ?_) s
  have ⟨items, row⟩ := h.headers argument ha
  rw [fillHeader, parse_eq]
  refine (Yields.mapM fun p hp => yields_headerItem (hb.parameters p hp) (items p hp) (hk argument ha p hp)).bind ?_
  exact (yields_wrapRow row _).bind (.pure _)

variable (hd : ∀ d ∈ e.data, d.Lacks '$')

include hd

theorem bare_dataText (h : e.Separate block s) (ha : argument ∈ arguments dataKind s) :
    Bare (e.dataText block pageTitle id argument) := by
  have ⟨item, row⟩ := h.data argument ha
  refine .join (by decide) fun text ht => ?_
  have ⟨place, hp, he⟩ := List.mem_map.mp ht
  refine he ▸ bare_wrapped row (.flatten fun cell hc => ?_)
  have ⟨field, hf, hc⟩ := List.mem_map.mp hc
  have lacks := Binding.lacks_fields (Binding.lacks_rows hb.data hd place hp) block.parameters field hf
  exact hc ▸ bare_dataItemText lacks item

theorem yields_fillRows (h : e.Separate block s) (ha : argument ∈ arguments dataKind s) (t : Text) :
    Yields (e.fillRows pageTitle id block t argument)
      (replaceAll (ofNamed dataKind argument) (e.dataText block pageTitle id argument) t) := by
  have ⟨item, row⟩ := h.data argument ha
  have counted := yields_countOutputs (max block.parameters.length 1)
  have rows : Yields (e.rowTexts argument block.parameters (Binding.rows e.data block pageTitle id))
      ((Binding.rows e.data block pageTitle id).map (e.dataRowText block argument)) := by
    have lacks : ∀ place ∈ Binding.rows e.data block pageTitle id, place.Lacks '$' :=
      Binding.lacks_rows hb.data hd
    cases hp : Binding.rows e.data block pageTitle id
    case nil => exact .pure []
    case cons place places =>
      rw [hp] at lacks
      rw [rowTexts, parse_eq]
      refine (yields_page _ {}).bind (.mapM fun place hp => ?_)
      refine (Yields.mapM fun field hf => ?_).bind (yields_wrapRow row _)
      exact yields_dataItem (Binding.lacks_fields (lacks place hp) _ field hf) item
  rw [fillRows_eq]
  exact counted.bind (rows.bind (.pure _))

theorem yields_fillData (hs : Clean s) (h : e.Separate block s) :
    Yields (e.fillData pageTitle id block s) (fillAll (e.dataValue block pageTitle id) s) := by
  have plain : Plain (only (lit "data") (Binding.scalar e.data block pageTitle id)) :=
    .only (Binding.not_mem_scalar hb.data hd)
  have clean := plain.clean hs
  have separate := h.of_subset hs clean fun inside hi _ => plain.insides_subset hs hi
  rw [fillData]
  refine (yields_fillValue hs).bind ?_
  have filled : fillAll _ (fillAll _ s) = fillAll (e.dataValue block pageTitle id) s := plain.fillAll_fillAll hs
  have unfilled : ∀ argument ∈ arguments dataKind _,
      Unfilled (fun inside => (argument? dataKind inside).map (e.dataText block pageTitle id))
        (e.dataText block pageTitle id argument) :=
    fun argument ha => (bare_dataText hb hd separate ha).unfilled fun _ hi => map_data_eq_none hi _
  rw [← filled, ← foldl_arguments_eq_fillAll clean unfilled]
  exact .foldlM (fun t argument ha => yields_fillRows hb hd separate ha t) _

omit hd

theorem fillAll_headers (hs : Clean s) (h : e.Separate block s) :
    Clean (fillAll (e.headersValue block) s) ∧ e.Separate block (fillAll (e.headersValue block) s) := by
  have bare : ∀ inside ∈ insides s, ∀ v ∈ e.headersValue block inside, Bare v := by
    intro inside hi v hv
    have ⟨argument, ha, he⟩ := Option.map_eq_some_iff.mp hv
    exact he ▸ bare_headerText hb h ((mem_arguments hs).mpr ⟨inside, hi, ha⟩)
  have clean := hs.fillAll fun inside hi v hv => (bare inside hi v hv).clean
  refine ⟨clean, h.of_subset hs clean fun inside hi driving => ?_⟩
  rw [insides_fillAll hs fun inside hi v hv => (bare inside hi v hv).clean] at hi
  have ⟨outer, ho, hi⟩ := List.mem_flatMap.mp hi
  cases hv : e.headersValue block outer
  case none =>
    rw [hv] at hi
    exact List.mem_singleton.mp hi ▸ ho
  case some v =>
    rw [hv] at hi
    exact absurd driving ((bare outer ho v hv).absent inside hi)

end Fill

theorem not_mem_normalize (title : Text) : '$' ∉ Identifier.normalize title :=
  fun h => Bool.false_ne_true (Identifier.normalize_token title '$' h)

theorem not_mem_issue (l : Ledger) (context : Text) : '$' ∉ (l.issue context).1 :=
  fun h => Bool.false_ne_true
    ((IdPool.firstFree_freeId l.ids _).token (Identifier.normalize_token context) '$' h)

section Names

variable (hid : '$' ∉ id) {title : Text} (ht : '$' ∉ title)

include hid ht

theorem plain_nameValue : Plain (nameValue id title) :=
  ((Plain.only hid).or (.only (not_mem_normalize title))).or (.only ht)

omit ht in
theorem nameBlock_eq_fillAll (hs : Clean s) : nameBlock id title s = fillAll (nameValue id title) s := by
  have first : Plain (only (lit "id") id) := .only hid
  have second : Plain fun inside =>
      (only (lit "id") id inside).or (only (lit "name") (Identifier.normalize title) inside) :=
    first.or (.only (not_mem_normalize title))
  rw [nameBlock, idHole, nameHole, titleHole, replaceAll_eq_fillAll hs (by decide),
    replaceAll_eq_fillAll (first.clean hs) (by decide), first.fillAll_fillAll hs,
    replaceAll_eq_fillAll (second.clean hs) (by decide), second.fillAll_fillAll hs]
  rfl

end Names

theorem yields_fill (hb : block.Lacks '$') (hk : e.Immediate block s) (hd : ∀ d ∈ e.data, d.Lacks '$')
    (hid : '$' ∉ id) (hs : Clean s) (h : e.Separate block s) :
    Yields (e.fill pageTitle id block s) (fillAll (e.blockValue block pageTitle id) s) := by
  have names := plain_nameValue hid hb.title
  have named := names.clean hs
  have separate := h.of_subset hs named fun inside hi _ => names.insides_subset hs hi
  have ⟨headed, separate'⟩ := fillAll_headers hb named separate
  have immediate : e.Immediate block (fillAll (nameValue id block.title) s) :=
    fun argument ha => hk argument (arguments_subset named hs (names.insides_subset hs) ha)
  rw [fill, nameBlock_eq_fillAll hid hs]
  refine (yields_fillHeaders hb immediate named separate).bind ?_
  have filled : fillAll (e.dataValue block pageTitle id)
      (fillAll (e.headersValue block) (fillAll (nameValue id block.title) s)) =
        fillAll (e.blockValue block pageTitle id) s := by
    rw [names.fillAll_fillAll hs]
    refine fillAll_fillAll hs fun inside hi v hv => ?_
    rcases Option.or_eq_some_iff.mp hv with hv | ⟨_, hv⟩
    · exact .of_free (names inside v hv)
    · have ⟨argument, ha, he⟩ := Option.map_eq_some_iff.mp hv
      have bare := bare_headerText hb h ((mem_arguments hs).mpr ⟨inside, hi, ha⟩)
      exact he ▸ bare.unfilled fun _ hi => dataValue_eq_none hi
  exact filled ▸ yields_fillData hb hd headed separate'

theorem gives_fill (hb : block.Lacks '$') (hk : ∀ p ∈ block.parameters, p.Lacks '}') (hd : ∀ d ∈ e.data, d.Lacks '$')
    (hid : '$' ∉ id) (hs : Clean s) (h : e.Separate block s) :
    Gives (e.fill pageTitle id block s) (fillAll (e.blockValue block pageTitle id) s) :=
  (yields_fill hb (immediate_of_lacks h hb hk) hd hid hs h).gives

-- Where all templates are clean, items and rows are bare, and neither blocks nor data have holes, filling hole after
-- hole is filling all of them at once.
theorem expand_eq_atOnce {f : Snippet} {l l' : Ledger}
    (clean : ∀ name t, e.templates.text name Templates.pageExtension = .ok t → Clean t)
    (separate : e.Separate block (e.templateText block.kind))
    (hb : block.Lacks '$') (hk : block.Lacks '}') (hd : ∀ d ∈ e.data, d.Lacks '$')
    (h : (e.expand pageTitle block).run.run l = (.ok f, l')) :
    e.templates.text block.kind Templates.pageExtension = .ok (e.templateText block.kind) ∧
      ∃ inner,
        (e.policy.isForm (fillAll block.overrides.lookup (e.templateText block.kind)) = false →
          inner = freeLines block.parameters) ∧
        f = e.atOnce block pageTitle (l.issue (IdPool.lineContext block.kind block.title)).1
          (e.templateText block.kind) inner := by
  obtain ⟨id, _, hi, h⟩ := exists_of_run_bind h
  have issued : (l.issue (IdPool.lineContext block.kind block.title)).1 = id := Except.ok.inj (Prod.mk.inj hi).1
  have free : '$' ∉ id := issued ▸ not_mem_issue l _
  obtain ⟨t, _, ht, h⟩ := exists_of_run_bind h
  have ⟨known, ht⟩ := exists_of_run_page ht
  have whole := clean _ _ known
  have overrides := plain_lookup hb.overrides
  have applied : t = fillAll block.overrides.lookup (e.templateText block.kind) := by
    rw [ht]
    exact Substitution.apply_eq_fillAll whole
      fun entry he => ⟨(hk.overrides entry he).1, (hb.overrides entry he).2⟩
  have fewer : insides t ⊆ insides (e.templateText block.kind) := applied ▸ overrides.insides_subset whole
  have ⟨⟨headClean, headFewer⟩, tails⟩ := Clean.ofTemplate (t := t) (applied ▸ overrides.clean whole)
  have gives {side : Text} (hs : Clean side) (hi : insides side ⊆ insides t) :
      Gives (e.fill pageTitle id block side) (fillAll (e.blockValue block pageTitle id) side) :=
    gives_fill hb hk.parameters hd free hs (separate.of_subset whole hs fun inside hm _ => fewer (hi hm))
  refine ⟨known, ?_⟩
  simp only [issued, atOnce, ← applied]
  obtain ⟨head, _, hh, h⟩ := exists_of_run_bind h
  have front := gives headClean headFewer _ _ _ hh
  rw [ofTemplate_eq] at *
  generalize cutAtSlot t = cut at *
  obtain ⟨side, _ | side'⟩ := cut
  case none =>
    cases h
    exact ⟨freeLines block.parameters, fun _ => rfl, by rw [front]; exact finishSnippet_leaf _⟩
  case some =>
    obtain ⟨tail, _, ht, h⟩ := exists_of_run_bind h
    obtain ⟨inner, _, hs, h⟩ := exists_of_run_bind h
    cases h
    have ⟨tailClean, tailFewer⟩ := tails side' rfl
    have back := gives tailClean tailFewer _ _ _ ht
    refine ⟨inner, fun form => ?_, by rw [front, back]; exact finishSnippet_withSlot _ _⟩
    rw [slotText, form] at hs
    cases hs
    rfl

def gridTexts : List (Text × Text) :=
  [(lit "x.html",
      lit "<x id=$\x7bid\x7d>$\x7bnote\x7d $\x7blost\x7d $\x7bheader:h@r\x7d$\x7bdata:d@r\x7d$\x7bautomenu:m\x7d |" ++
        lit "$\x7bcontent\x7d|$\x7bdata\x7d</x>"),
    (lit "h.html", lit "<h $\x7bstyle\x7d>$\x7btitle\x7d</h>"),
    (lit "h-wide.html", lit "<w $\x7bstyle\x7d>$\x7btitle\x7d</w>"),
    (lit "d.html", lit "<d $\x7battribute:n\x7d>$\x7btitle\x7d</d>"),
    (lit "r.html", lit "<r>$\x7bcontent\x7d</r>")]

def gridData : Xml.Document :=
  .of ⟨{ name := lit "data" }, .element { name := lit "main" }
    (.element { name := lit "sums" } (.text (lit "7") (.element { name := lit "row" }
      (.element { name := lit "a", attributes := [(lit "n", lit "0")] } (.text (lit "3") .nil)
        (.element { name := lit "b" } (.text (lit "4") .nil) .nil)) .nil)) .nil) .nil⟩

def grid : Expander where
  templates := Cabinet.templates {} [.memory gridTexts]
  fetch     := fun _ => .error (.data .malformed)
  policy    := default
  data      := some gridData

def sums : Block where
  kind       := lit "x"
  title      := lit "Sums"
  overrides  := .ofList [(lit "note", lit "!")]
  parameters := [.parse (lit "A::wide"), .parse (lit "B")]

theorem clean_gridTexts (name t : Text) (h : grid.templates.text name Templates.pageExtension = .ok t) : Clean t := by
  have all : ∀ entry ∈ gridTexts, Clean (dropFinalBreak entry.2) := by decide
  have ⟨s, hs, he⟩ := Cabinet.exists_of_find h
  exact he ▸ all _ hs

theorem separate_grid : grid.Separate sums (grid.templateText (lit "x")) where
  headers := by decide
  data    := by decide

def sumsSnippet : Snippet :=
  .withSlot
    (lit "<x id=sums>!<r><w wide>A</w><h >B</h></r><r><d 0>3</d><d >4</d></r>$\x7bautomenu:m\x7d |A::wide\nB\n")
    (lit "|7</x>\n")

theorem expand_grid :
    ((grid.expand (lit "Main") sums).run.run {}).1 = .ok sumsSnippet ∧
      sumsSnippet =
        grid.atOnce sums (lit "Main") (lit "sums") (grid.templateText sums.kind) (freeLines sums.parameters) := by
  have run : ((grid.expand (lit "Main") sums).run.run {}).1 = .ok sumsSnippet := by rfl
  have named : (({} : Ledger).issue (IdPool.lineContext sums.kind sums.title)).1 = lit "sums" := by decide
  have form : grid.policy.isForm (fillAll sums.overrides.lookup (grid.templateText sums.kind)) = false := by decide
  refine ⟨run, ?_⟩
  rcases after : (grid.expand (lit "Main") sums).run.run {} with ⟨_, l⟩
  cases after ▸ run
  have ⟨_, inner, unformed, once⟩ :=
    expand_eq_atOnce clean_gridTexts separate_grid (by decide) (by decide) (by decide) after
  rw [unformed form, named] at once
  exact once

end WikiPages.Expander
