import WikiPages.Proofs.Expansion.AtOnce

namespace WikiPages

open Text Hole

namespace Expander

variable {e : Expander} {block : Block} {d : Directive} {p : Parameter} {pageTitle id name s t u : Text}

-- As many outputs as a text shows for some number of parameters: its value counts once, and each of its tables as
-- often as there are parameters.
def outputsIn (parameters : Nat) (s : Text) : Nat :=
  (if contains dataHole s then 1 else 0) + max parameters 1 * (arguments dataKind s).length

section Reference

variable (e : Expander) (block : Block) (p : Parameter)

def templateOf : Text := block.overrides.apply (e.templateText block.kind)

def fieldsOf : List Parameter :=
  if (Snippet.ofTemplate (e.templateOf block)).hasSlot && e.policy.isForm (e.templateOf block) then block.parameters
  else []

def fieldTemplate : Text :=
  (e.inputValues p ((e.inputDirective p).overrides.insertAll p.overrides.entries)).apply
    (e.templateText (e.inputDirective p).kind)

def fieldOutputs : Nat := outputsIn (e.inputDirective p).parameters.length (e.fieldTemplate p)

def outputsOf : Nat :=
  let cut := Snippet.ofTemplate (e.templateOf block)
  outputsIn block.parameters.length cut.head + cut.tail.elim 0 (outputsIn block.parameters.length) +
    ((e.fieldsOf block).map e.fieldOutputs).sum

end Reference

-- A `$` only begins holes, and only of templates. The items and rows of headers show no data.
structure Orderly (e : Expander) : Prop where
  templates  : ∀ name t, e.templates.text name Templates.pageExtension = .ok t → Clean t
  items      : ∀ name, ∀ argument ∈ arguments headerKind (e.templateText name), ∀ p : Parameter,
                 Without IsData (e.templateText (e.headerTemplate (ItemRow.parse argument).item p))
  rows       : ∀ name, ∀ argument ∈ arguments headerKind (e.templateText name),
                 ∀ row ∈ (ItemRow.parse argument).row, Without IsData (e.templateText row)
  dictionary : e.dictionary.Lacks '$'
  data       : ∀ document ∈ e.data, document.Lacks '$'

-- No `$` is in the data that a directive names.
def PlainData (e : Expander) (d : Directive) : Prop :=
  ∀ locator ∈ d.locator, ∀ document, e.fetch locator = .ok document → document.Lacks '$'

structure Keeps (sort : Text → Prop) [DecidablePred sort] (s t : Text) : Prop where
  clean : Clean t
  same  : (insides t).filter sort = (insides s).filter sort

abbrev KeepsData : Text → Text → Prop := Keeps IsData

namespace Keeps

variable {sort : Text → Prop} [DecidablePred sort] {f : Text → Option Text}

theorem trans (hs : Keeps sort s t) (ht : Keeps sort t u) : Keeps sort s u where
  clean := ht.clean
  same  := ht.same.trans hs.same

theorem fillAll (h : Clean s) (hv : ∀ inside ∈ insides s, ∀ v ∈ f inside, ¬ sort inside ∧ Without sort v) :
    Keeps sort s (fillAll f s) where
  clean := h.fillAll fun inside hi v hf => (hv inside hi v hf).2.clean
  same  := filter_insides_fillAll h hv

theorem arguments_eq {kind : Text} (h : Keeps sort s t) (hs : Clean s)
    (covers : ∀ inside, argument? kind inside ≠ none → sort inside) : arguments kind t = arguments kind s := by
  have named (all : List Text) : all.filter (argument? kind · ≠ none) =
      (all.filter sort).filter (argument? kind · ≠ none) := by
    rw [List.filter_filter]
    refine List.filter_congr fun inside _ => ?_
    rw [Bool.eq_iff_iff, Bool.and_eq_true, decide_eq_true_iff, decide_eq_true_iff]
    exact (and_iff_left_of_imp (covers inside)).symm
  refine arguments_congr h.clean hs ?_
  rw [named, h.same, ← named]

theorem contains_eq {key : Text} (h : Keeps sort s t) (hs : Clean s) (hk : '}' ∉ key) (covers : sort key) :
    contains (of key) t = contains (of key) s := by
  have shown {s : Text} : key ∈ insides s ↔ key ∈ (insides s).filter sort := by simp [covers]
  rw [Bool.eq_iff_iff, contains_iff hs hk, contains_iff h.clean hk, shown, h.same, ← shown]

theorem nameBlock {title : Text} (hs : Clean s) (hid : '$' ∉ id) (ht : '$' ∉ title)
    (other : ∀ inside ∈ [lit "id", lit "name", lit "title"], ¬ sort inside) :
    Keeps sort s (nameBlock id title s) := by
  have names := plain_nameValue hid ht
  rw [nameBlock_eq_fillAll hid hs]
  refine .fillAll hs fun inside _ v hv => ⟨other inside ?_, .of_free (names inside v hv)⟩
  rcases Option.or_eq_some_iff.mp hv with h | ⟨_, h⟩
  · rcases Option.or_eq_some_iff.mp h with h | ⟨_, h⟩
    · simp [(eq_of_mem_only h).1]
    · simp [(eq_of_mem_only h).1]
  · simp [(eq_of_mem_only h).1]

theorem outputsIn_eq (h : KeepsData s t) (hs : Clean s) (parameters : Nat) :
    outputsIn parameters t = outputsIn parameters s := by
  have value : contains dataHole t = contains dataHole s := h.contains_eq hs (by decide) (.inl rfl)
  have tables : arguments dataKind t = arguments dataKind s := h.arguments_eq hs fun _ => .inr
  rw [outputsIn, outputsIn, value, tables]

end Keeps

theorem insides_nameBlock {title : Text} (hs : Clean s) (hid : '$' ∉ id) (ht : '$' ∉ title) :
    insides (nameBlock id title s) ⊆ insides s := by
  rw [nameBlock_eq_fillAll hid hs]
  exact (plain_nameValue hid ht).insides_subset hs

theorem counts_page (name : Text) (values : Substitution) :
    Counts (e.page name values) 0 0 (· = values.apply (e.templateText name)) := by
  intro l s l' h
  have same : l = l' := (Prod.mk.inj h).2
  exact ⟨(exists_of_run_page h).2, same ▸ ⟨rfl, rfl⟩⟩

theorem counts_lift {α : Type} (r : Except Fault α) : Counts (ExceptT.mk (pure r)) 0 0 (r = .ok ·) := by
  intro l a l' h
  cases h
  exact ⟨rfl, rfl, rfl⟩

theorem counts_issue (context : Text) : Counts (issue context) 0 0 ('$' ∉ ·) := by
  intro l id l' h
  cases h
  exact ⟨not_mem_issue l context, rfl, rfl⟩

theorem counts_countInput {α : Type} {f : Unit → Expansion α} {holds : α → Prop} {outputs : Nat}
    (h : Counts (f ()) 0 outputs holds) : Counts (countInput >>= f) 1 outputs holds := by
  intro l a l' hr
  have ⟨ha, inputs, outputs⟩ := h l.countInput a l' hr
  exact ⟨ha, inputs, outputs⟩

theorem counts_countOutputs {α : Type} {f : Unit → Expansion α} {holds : α → Prop} {n : Nat}
    (h : Counts (f ()) 0 0 holds) : Counts (countOutputs n >>= f) 0 n holds := by
  intro l a l' hr
  have ⟨ha, inputs, outputs⟩ := h (l.countOutputs n) a l' hr
  exact ⟨ha, inputs, outputs⟩

section Items

variable {holds : Text → Prop} {title items : Text} {row : Option Text}

theorem counts_nameItem (unnamed : holds (replaceAll titleHole title s))
    (named : ∀ id, '$' ∉ id → holds (replaceAll titleHole title (replaceAll idHole id s))) :
    Counts (nameItem title s) 0 0 holds := by
  have titled {t : Text} (h : holds (replaceAll titleHole title t)) :
      Counts (pure (replaceAll titleHole title t)) 0 0 holds := .pure h
  rw [nameItem]
  split
  case isFalse => exact titled unnamed
  case isTrue => exact (counts_issue title).silent_bind fun id hid => titled (named id hid)

theorem counts_wrapRow (bare : row = none → holds items)
    (inside : ∀ name ∈ row, holds (replaceAll Hole.content items (e.templateText name))) :
    Counts (e.wrapRow row items) 0 0 holds := by
  cases row
  case none => exact .pure (bare rfl)
  case some name => exact (counts_page name {}).silent_bind fun s hs => .pure (hs ▸ inside name rfl)

end Items

theorem clean_templateText (h : ∀ name t, e.templates.text name Templates.pageExtension = .ok t → Clean t)
    (name : Text) : Clean (e.templateText name) := by
  cases ht : e.templates.text name Templates.pageExtension
  case error =>
    rw [templateText, ht]
    exact .nil
  case ok t =>
    rw [templateText, ht]
    exact h name t ht

theorem headerTemplate_cases (item : Text) (p : Parameter) :
    e.headerTemplate item p = item ∨ ∃ variant, e.headerTemplate item p = item ++ '-' :: variant := by
  rw [headerTemplate]
  split
  case h_2 => exact .inl rfl
  case h_1 variant _ =>
    dsimp only
    split
    case isTrue => exact .inr ⟨variant, rfl⟩
    case isFalse => exact .inl rfl

theorem not_isData_header (argument : Text) : ¬ IsData (headerKind ++ ':' :: argument) := by
  rintro (h | h)
  · exact absurd (List.cons.inj h).1 (by decide)
  · exact h rfl

section Headers

variable {sort : Text → Prop}

theorem counts_headerItem {item : Text} (hp : p.Lacks '$')
    (h : Without sort (e.templateText (e.headerTemplate item p))) :
    Counts (e.headerItem item p) 0 0 (Without sort) := by
  rw [headerItem]
  refine (counts_page _ _).silent_bind fun s hs => ?_
  have styled : Without sort (replaceAll styleHole p.style s) :=
    (hs ▸ h.apply hp.overrides).replaceAll (by decide) hp.style
  exact counts_nameItem (styled.replaceAll (by decide) hp.name)
    fun id hid => (styled.replaceAll (by decide) hid).replaceAll (by decide) hp.name

variable [DecidablePred sort] (clean : ∀ name t, e.templates.text name Templates.pageExtension = .ok t → Clean t)
variable (items : ∀ name, ∀ argument ∈ arguments headerKind (e.templateText name), ∀ p : Parameter,
  Without sort (e.templateText (e.headerTemplate (ItemRow.parse argument).item p)))
variable (rows : ∀ name, ∀ argument ∈ arguments headerKind (e.templateText name),
  ∀ row ∈ (ItemRow.parse argument).row, Without sort (e.templateText row))
variable (other : ∀ argument, ¬ sort (headerKind ++ ':' :: argument)) (hb : block.Lacks '$')

include clean items rows other hb

theorem counts_fillHeader {argument : Text} (ht : Clean t)
    (named : argument ∈ arguments headerKind (e.templateText name)) :
    Counts (e.fillHeader block t argument) 0 0 (Keeps sort t) := by
  have closing : '}' ∉ headerKind ++ ':' :: argument := by
    have whole := clean_templateText clean name
    obtain ⟨inside, hi, he⟩ := (mem_arguments whole).mp named
    exact (argument?_eq_some_iff.mp he).1 ▸ (isInside_of_mem whole hi).closing
  have item {p : Parameter} (hp : p ∈ block.parameters) :=
    counts_headerItem (hb.parameters p hp) (items name argument named p)
  rw [fillHeader]
  refine (Counts.silent_mapM fun p => item).silent_bind fun items hi => ?_
  have flat : Without sort items.flatten := .flatten hi
  have inRow (row : Text) (hr : row ∈ (ItemRow.parse argument).row) :
      Without sort (replaceAll Hole.content items.flatten (e.templateText row)) := by
    have without := rows name argument named row hr
    rw [Hole.content, replaceAll_eq_fillAll without.clean (by decide)]
    exact without.fillAll fun _ v hv => (eq_of_mem_only hv).2 ▸ flat
  refine (counts_wrapRow (fun _ => flat) inRow).silent_bind fun headers hh => .pure ?_
  rw [ofNamed, replaceAll_eq_fillAll ht closing]
  refine .fillAll ht fun inside _ v hv => ?_
  obtain ⟨hk, hv⟩ := eq_of_mem_only hv
  exact ⟨hk ▸ other argument, hv ▸ hh⟩

theorem counts_fillHeaders (hs : Clean s) (h : insides s ⊆ insides (e.templateText name)) :
    Counts (e.fillHeaders block s) 0 0 (Keeps sort s) := by
  have named : arguments headerKind s ⊆ _ := arguments_subset hs (clean_templateText clean name) h
  refine .silent_foldlM (fun t ht argument ha => ?_) ⟨hs, rfl⟩
  exact (counts_fillHeader clean items rows other hb ht.clean (named ha)).mono fun u => ht.trans

end Headers

theorem counts_fillValue (hv : '$' ∉ Binding.scalar e.data block pageTitle id) (hs : Clean s) :
    Counts (e.fillValue pageTitle id block s) 0 (if contains dataHole s then 1 else 0)
      fun t => arguments dataKind t = arguments dataKind s := by
  rw [fillValue]
  split
  case isFalse => exact .pure rfl
  case isTrue =>
    have filled : arguments dataKind (replaceAll dataHole (Binding.scalar e.data block pageTitle id) s) =
        arguments dataKind s := by
      rw [dataHole, replaceAll_eq_fillAll hs (by decide)]
      have plain : Plain (only (lit "data") (Binding.scalar e.data block pageTitle id)) := .only hv
      refine arguments_congr (plain.clean hs) hs (filter_insides_fillAll hs fun inside _ v hv => ?_)
      exact ⟨(eq_of_mem_only hv).1 ▸ by decide, .of_free (plain inside v hv)⟩
    have given : Counts (pure (replaceAll dataHole (Binding.scalar e.data block pageTitle id) s)) 0 0
        fun t => arguments dataKind t = arguments dataKind s := .pure filled
    exact counts_countOutputs given

theorem counts_fillRows (argument : Text) :
    Counts (e.fillRows pageTitle id block s argument) 0 (max block.parameters.length 1) fun _ => True := by
  have item (template : Text) (field : Option Xml.Place) : Counts (dataItem template field) 0 0 fun _ => True := by
    have named : Counts (nameItem (Binding.fieldText field) template) 0 0 fun _ => True :=
      counts_nameItem trivial fun _ _ => trivial
    rw [dataItem]
    exact named.silent_bind fun _ _ => .pure trivial
  have row (template : Text) (place : Xml.Place) :
      Counts (e.dataRow template (ItemRow.parse argument).row block.parameters place) 0 0 fun _ => True :=
    (Counts.silent_mapM fun field _ => item template field).silent_bind fun _ _ =>
      counts_wrapRow (fun _ => trivial) fun _ _ => trivial
  have rows (places : List Xml.Place) :
      Counts (e.rowTexts argument block.parameters places) 0 0 fun _ => True := by
    cases places
    case nil => exact .pure trivial
    case cons place places =>
      refine (counts_page _ _).silent_bind fun template _ => ?_
      exact (Counts.silent_mapM fun place _ => row template place).mono fun _ _ => trivial
  rw [fillRows_eq]
  exact counts_countOutputs ((rows _).silent_bind fun _ _ => .pure trivial)

theorem counts_fillData (hv : '$' ∉ Binding.scalar e.data block pageTitle id) (hs : Clean s) :
    Counts (e.fillData pageTitle id block s) 0 (outputsIn block.parameters.length s) fun _ => True := by
  rw [fillData]
  refine (counts_fillValue hv hs).output_bind fun t ht => ?_
  rw [← ht]
  exact .foldlM (fun t _ argument _ => counts_fillRows argument) trivial

section Field

variable (dictionary : e.dictionary.Lacks '$') (hp : p.Lacks '$')

include dictionary hp

theorem lacks_inputDirective : (e.inputDirective p).Lacks '$' := by
  refine Directive.lacks_ofParts (fun h => ?_) List.not_mem_nil (by decide)
  rcases List.mem_append.mp h with h | h
  · exact dictionary.not_mem_inputOf (by decide) h
  · rcases List.mem_cons.mp h with h | h
    · exact absurd h (by decide)
    · exact hp.name h

theorem lacks_inputValues : (e.inputValues p
    ((e.inputDirective p).overrides.insertAll p.overrides.entries)).Lacks '$' := by
  have quoted {value : Text} (h : '$' ∉ value) : '$' ∉ quoted value := not_mem_replaceAll h (by decide)
  have described (property : Text) := quoted (dictionary.not_mem_getD_behavior? p.name property)
  refine Substitution.lacks_insertAll (Substitution.lacks_insertAll nofun ?_) ?_
  · simp only [List.forall_mem_cons]
    exact ⟨⟨by decide, described _⟩, ⟨by decide, described _⟩, ⟨by decide, List.not_mem_nil⟩, nofun⟩
  · exact Substitution.lacks_insertAll (lacks_inputDirective dictionary hp).overrides hp.overrides

end Field

section Expand

variable (orderly : e.Orderly)

include orderly

theorem counts_fill (hb : block.Lacks '$') (hid : '$' ∉ id) (hs : Clean s)
    (h : insides s ⊆ insides (e.templateText name)) :
    Counts (e.fill pageTitle id block s) 0 (outputsIn block.parameters.length s) fun _ => True := by
  have named : KeepsData s (nameBlock id block.title s) := .nameBlock hs hid hb.title (by decide)
  have fewer := List.Subset.trans (insides_nameBlock hs hid hb.title) h
  rw [fill]
  have headers :=
    counts_fillHeaders orderly.templates orderly.items orderly.rows not_isData_header hb named.clean fewer
  refine headers.silent_bind fun t ht => ?_
  rw [← (named.trans ht).outputsIn_eq hs]
  exact counts_fillData (Binding.not_mem_scalar hb.data orderly.data) ht.clean

theorem counts_inputField (hp : p.Lacks '$') (named : e.PlainData (e.inputDirective p)) :
    Counts (e.inputField pageTitle p) 1 (e.fieldOutputs p) fun _ => True := by
  have directive := lacks_inputDirective orderly.dictionary hp
  have values := lacks_inputValues orderly.dictionary hp
  rw [inputField, fieldOutputs, fieldTemplate]
  generalize e.inputDirective p = d at directive values named
  have ⟨clean, fewer⟩ := (clean_templateText orderly.templates d.kind).apply values
  refine counts_countInput ((counts_lift _).silent_bind fun block hb => ?_)
  obtain ⟨data, rfl, hd⟩ := Block.exists_withData named hb
  refine (counts_issue _).silent_bind fun id hid => (counts_page _ _).silent_bind fun s hs => ?_
  subst hs
  exact (counts_fill orderly (directive.withData hd) hid clean fewer).bind_silent fun _ _ => .pure trivial

theorem counts_slotText {template : Text} (hb : block.Lacks '$')
    (named : e.policy.isForm template = true → ∀ p ∈ block.parameters, e.PlainData (e.inputDirective p)) :
    Counts (e.slotText pageTitle template block)
      (if e.policy.isForm template then block.parameters else []).length
      ((if e.policy.isForm template then block.parameters else []).map e.fieldOutputs).sum fun _ => True := by
  rw [slotText]
  split
  case isFalse => exact .pure trivial
  case isTrue form =>
    have fields : Counts (block.parameters.mapM (e.inputField pageTitle)) _ _ fun _ => _ :=
      .mapM fun p hp => counts_inputField orderly (hb.parameters p hp) (named form p hp)
    rw [List.map_const', List.sum_replicate_nat, Nat.mul_one] at fields
    exact fields.bind_silent fun _ _ => .pure trivial

-- The counts are those of the templates. There need not be data, and what there is does not matter.
theorem counts_expand (hb : block.Lacks '$') (named : ∀ p ∈ e.fieldsOf block, e.PlainData (e.inputDirective p)) :
    Counts (e.expand pageTitle block) (e.fieldsOf block).length (e.outputsOf block) fun _ => True := by
  have ⟨clean, fewer⟩ := (clean_templateText orderly.templates block.kind).apply hb.overrides
  have ⟨⟨headClean, headFewer⟩, tails⟩ := Clean.ofTemplate clean
  rw [fieldsOf, templateOf] at named
  rw [expand, outputsOf, fieldsOf, templateOf]
  refine (counts_issue _).silent_bind fun id hid => (counts_page _ _).silent_bind fun template ht => ?_
  subst ht
  generalize block.overrides.apply (e.templateText block.kind) = template at *
  have front : Counts (e.fill pageTitle id block _) _ _ _ :=
    counts_fill orderly hb hid headClean (List.Subset.trans headFewer fewer)
  generalize Snippet.ofTemplate template = cut at *
  obtain ⟨head, _ | tail⟩ := cut
  case none => exact front.bind_silent fun _ _ => .pure trivial
  case some =>
    have ⟨tailClean, tailFewer⟩ := tails tail rfl
    have back : Counts (e.fill pageTitle id block _) _ _ _ :=
      counts_fill orderly hb hid tailClean (List.Subset.trans tailFewer fewer)
    have fields : Counts (e.slotText pageTitle template block) _ _ _ :=
      counts_slotText orderly hb fun form p hp => named p (by simpa [Snippet.hasSlot, form] using hp)
    rw [Nat.add_assoc]
    refine front.output_bind fun _ _ => back.output_bind fun _ _ => ?_
    exact fields.bind_silent fun _ _ => .pure trivial

end Expand

section Bundled

variable {tree : FileTree}

theorem templateText_cases {texts : List (Text × Text)}
    (h : e.templates = Cabinet.templates tree [.memory texts]) (name : Text) :
    e.templateText name = [] ∨
      ∃ entry ∈ texts, entry.1 = Cabinet.fileName name Templates.pageExtension ∧
        e.templateText name = dropFinalBreak entry.2 := by
  rw [templateText, h]
  cases ht : (Cabinet.templates tree [.memory texts]).text name Templates.pageExtension
  case error => exact .inl rfl
  case ok t =>
    obtain ⟨text, hm, he⟩ := Cabinet.exists_of_find ht
    exact .inr ⟨_, hm, rfl, he.symm⟩

theorem bundledTexts_orderly : ∀ entry ∈ Shelf.bundledTexts,
    Clean (dropFinalBreak entry.2) ∧
      (∀ argument ∈ arguments headerKind (dropFinalBreak entry.2), argument = lit "th@tr") ∧
      ∀ start ∈ [lit "th", lit "tr"], start <+: entry.1 → Without IsData (dropFinalBreak entry.2) := by
  decide +kernel

variable (h : e.templates = Cabinet.templates tree Cabinet.bundled)

include h

theorem without_data_of_bundled {start : Text} (hs : start ∈ [lit "th", lit "tr"])
    (hn : start <+: Identifier.normalize name) : Without IsData (e.templateText name) := by
  rcases templateText_cases h name with he | ⟨entry, hm, hk, he⟩
  · exact he ▸ .of_free List.not_mem_nil
  · have prefixed : start <+: entry.1 := hk ▸ hn.trans (List.prefix_append _ _)
    exact he ▸ (bundledTexts_orderly entry hm).2.2 start hs prefixed

theorem orderly_of_bundled (dictionary : e.dictionary.Lacks '$') (data : ∀ document ∈ e.data, document.Lacks '$') :
    e.Orderly := by
  have headers {name argument : Text} (ha : argument ∈ arguments headerKind (e.templateText name)) :
      ItemRow.parse argument = ⟨lit "th", some (lit "tr")⟩ := by
    have table : argument = lit "th@tr" := by
      rcases templateText_cases h name with he | ⟨entry, hm, _, he⟩
      · rw [he] at ha
        cases ha
      · exact (bundledTexts_orderly entry hm).2.1 argument (he ▸ ha)
    rw [table]
    decide
  refine ⟨fun name t ht => ?_, fun name argument ha p => ?_, fun name argument ha row hr => ?_, dictionary, data⟩
  · rw [h] at ht
    have ⟨text, hm, he⟩ := Cabinet.exists_of_find ht
    exact he ▸ (bundledTexts_orderly _ hm).1
  · have item : lit "th" <+: Identifier.normalize (e.headerTemplate (lit "th") p) := by
      rcases headerTemplate_cases (lit "th") p with he | ⟨variant, he⟩
      · rw [he]
        exact ⟨_, rfl⟩
      · rw [he]
        exact ⟨_, rfl⟩
    rw [headers ha]
    exact without_data_of_bundled h (by decide) item
  · rw [headers ha] at hr
    cases hr
    exact without_data_of_bundled h (by decide) (by decide : lit "tr" <+: Identifier.normalize (lit "tr"))

end Bundled

end Expander
end WikiPages
