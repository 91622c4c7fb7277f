import WikiPages.Proofs.Expansion.Outcome
import WikiPages.Proofs.Expansion.Steps
import WikiPages.Proofs.Success
import WikiPages.Proofs.Template.Inert
import WikiPages.Proofs.Xml.Shape

namespace WikiPages.Expander

open Text Xml

variable {e : Expander} {block : Block} {pageTitle id : Text} {d d' : Document}

def onData (e : Expander) (d : Document) : Expander := { e with data := some d }

-- Items for fields show no ids. Those would take their names from the data.
def Unnamed (e : Expander) (argument : Text) : Prop :=
  ∀ item, e.templates.page (ItemRow.parse argument).item {} = .ok item → contains idHole item = false

-- A text whose holes for data are calm: the one for the single value stands in no other one, and no items show
-- ids, be there a value or not.
structure Calm (e : Expander) (t : Text) : Prop where
  apart   : ¬ Hole.Nests (lit "data") t
  unnamed : ∀ argument ∈ Hole.arguments dataKind t, e.Unnamed argument
  without : ∀ argument ∈ Hole.arguments dataKind (replaceAll dataHole [] t), e.Unnamed argument

-- The texts in which expanding a block fills the data of the run: the sides of its template, and for a form
-- with a slot the templates of its fields, each with its headers filled.
inductive Reaches (e : Expander) (block : Block) : Text → Prop
  | side {template s t : Text} {issued l l' : Ledger}
    (page : e.templates.page block.kind block.overrides = .ok template)
    (side : s = (Snippet.ofTemplate template).head ∨ (Snippet.ofTemplate template).tail = some s)
    (ambient : block.data = none)
    (filled : (e.fillHeaders block (nameBlock
      (issued.issue (IdPool.lineContext block.kind block.title)).1 block.title s)).run.run l = (.ok t, l')) :
    Reaches e block t
  | field {template s t : Text} {issued l l' : Ledger} {p : Parameter} {field : Block}
    (page : e.templates.page block.kind block.overrides = .ok template)
    (slot : (Snippet.ofTemplate template).hasSlot = true) (form : e.policy.isForm template = true)
    (mem : p ∈ block.parameters)
    (entered : Block.ofDirective e.fetch (e.inputDirective p) = .ok field)
    (input : e.templates.page field.kind
      (e.inputValues p (field.overrides.insertAll p.overrides.entries)) = .ok s)
    (ambient : field.data = none)
    (filled : (e.fillHeaders field (nameBlock
      (issued.issue p.name).1 field.title s)).run.run l = (.ok t, l')) :
    Reaches e block t

theorem wrapRow_outcome (row : Option Text) (items items' : Text) :
    SameOutcome (e.wrapRow row items) (e.wrapRow row items') := by
  cases row
  case none => exact .pure trivial
  case some row => exact Agree.bind_self fun _ _ => .pure trivial

theorem dataItem_eq_pure {item : Text} (h : contains idHole item = false) (field : Option Place) :
    ∃ s, dataItem item field = pure s := by
  rw [dataItem, nameItem_eq_pure h]
  exact ⟨_, rfl⟩

theorem dataRow_outcome {item : Text} (h : contains idHole item = false) (row : Option Text)
    (parameters : List Parameter) (place place' : Place) :
    SameOutcome (e.dataRow item row parameters place) (e.dataRow item row parameters place') := by
  have hm : SameOutcome ((Binding.fields place parameters).mapM (dataItem item))
      ((Binding.fields place' parameters).mapM (dataItem item)) := by
    refine SameOutcome.mapM (List.forall₂_iff_zip.mpr ⟨Binding.length_fields .., fun {field field'} _ => ?_⟩)
    have ⟨s, hs⟩ := dataItem_eq_pure h field
    have ⟨s', hs'⟩ := dataItem_eq_pure h field'
    rw [hs, hs']
    exact .pure trivial
  exact hm.bind fun _ _ _ => wrapRow_outcome row _ _

theorem data_onData : (e.onData d).data = some d := rfl

theorem policy_onData : (e.onData d).policy = e.policy := rfl

theorem fillHeaders_onData : (e.onData d).fillHeaders = e.fillHeaders := rfl

theorem rowTexts_onData : (e.onData d).rowTexts = e.rowTexts := rfl

theorem rowTexts_outcome {argument : Text} (hn : e.Unnamed argument) (parameters : List Parameter)
    {places places' : List Place} (hl : places.length = places'.length) :
    SameOutcome (e.rowTexts argument parameters places) (e.rowTexts argument parameters places') := by
  match places, places', hl with
  | [], [], _ => exact .pure trivial
  | place :: places, place' :: places', hl =>
    refine Agree.bind_self fun item ⟨_, _, hr⟩ => SameOutcome.mapM ?_
    exact List.forall₂_iff_zip.mpr ⟨hl, fun _ => dataRow_outcome (hn item (of_run_page hr)) _ _ _ _⟩

theorem fillRows_outcome {argument : Text} {R : Text → Text → Prop} (hd : d.Alike R d')
    (hn : e.Unnamed argument) (s s' : Text) :
    SameOutcome ((e.onData d).fillRows pageTitle id block s argument)
      ((e.onData d').fillRows pageTitle id block s' argument) := by
  have hr := rowTexts_outcome hn block.parameters (Binding.length_rows hd block pageTitle id)
  rw [fillRows_eq, fillRows_eq, rowTexts_onData, rowTexts_onData]
  exact Agree.bind_self fun _ _ => hr.bind fun _ _ _ => .pure trivial

theorem fillValue_agree {t : Text} (hd : d.Alike (fun v v' => Hole.Inert v ∧ Hole.Inert v') d')
    (hb : block.data = none) (ht : e.Calm t) :
    Agree (fun s s' => Hole.arguments dataKind s = Hole.arguments dataKind s' ∧
        ∀ argument ∈ Hole.arguments dataKind s, e.Unnamed argument)
      ((e.onData d).fillValue pageTitle id block t) ((e.onData d').fillValue pageTitle id block t) := by
  cases hc : contains dataHole t
  case false =>
    rw [fillValue, fillValue, hc]
    exact .pure ⟨rfl, ht.unnamed⟩
  case true =>
    rw [fillValue, fillValue, hc, data_onData, data_onData]
    refine Agree.bind_self fun _ _ => .pure ?_
    rcases Binding.scalar_cases hd hb pageTitle id with ⟨hv, hv'⟩ | ⟨hv, hv'⟩
    · rw [hv, hv']
      exact ⟨rfl, ht.without⟩
    · have kept {v : Text} (hv : Hole.Inert v) :
          Hole.arguments dataKind (replaceAll dataHole v t) = Hole.arguments dataKind t :=
        Hole.arguments_fill (by decide) (by decide) (by decide) hv ht.apart
      rw [kept hv, kept hv']
      exact ⟨rfl, ht.unnamed⟩

theorem fillData_outcome {t : Text} (hd : d.Alike (fun v v' => Hole.Inert v ∧ Hole.Inert v') d')
    (hb : block.data = none) (ht : e.Calm t) :
    SameOutcome ((e.onData d).fillData pageTitle id block t)
      ((e.onData d').fillData pageTitle id block t) := by
  rw [fillData, fillData]
  refine (fillValue_agree hd hb ht).bind fun s s' ⟨he, hn⟩ => ?_
  rw [← he]
  exact SameOutcome.foldlM (fun argument ha => fillRows_outcome hd (hn argument ha)) s s'

theorem fillData_of_data {own : Document} (h : block.data = some own) :
    (e.onData d).fillData pageTitle id block = (e.onData d').fillData pageTitle id block := by
  have value : (e.onData d).fillValue pageTitle id block = (e.onData d').fillValue pageTitle id block := by
    funext s
    rw [fillValue, fillValue, Binding.scalar_of_data h, Binding.scalar_of_data h]
  have rows : (e.onData d).fillRows pageTitle id block = (e.onData d').fillRows pageTitle id block := by
    funext s argument
    rw [fillRows_eq, fillRows_eq, rowTexts_onData, rowTexts_onData, Binding.rows_of_data h,
      Binding.rows_of_data h]
  funext s
  rw [fillData, fillData, value, rows]

theorem fill_outcome {s : Text} (hd : d.Alike (fun v v' => Hole.Inert v ∧ Hole.Inert v') d')
    (hs : block.data = none → ∀ l t l',
      (e.fillHeaders block (nameBlock id block.title s)).run.run l = (.ok t, l') → e.Calm t) :
    SameOutcome ((e.onData d).fill pageTitle id block s) ((e.onData d').fill pageTitle id block s) := by
  rw [fill, fill, fillHeaders_onData, fillHeaders_onData]
  refine Agree.bind_self fun t ⟨l, l', ht⟩ => ?_
  cases hb : block.data
  case none => exact fillData_outcome hd hb (hs hb l t l' ht)
  case some own =>
    have he : (e.onData d).fillData pageTitle id block = (e.onData d').fillData pageTitle id block :=
      fillData_of_data hb
    rw [he]
    exact SameOutcome.self _

section

variable (hd : d.Alike (fun v v' => Hole.Inert v ∧ Hole.Inert v') d')
  (calm : ∀ t, e.Reaches block t → e.Calm t)

include hd calm

theorem inputField_outcome {template : Text}
    (page : e.templates.page block.kind block.overrides = .ok template)
    (slot : (Snippet.ofTemplate template).hasSlot = true) (form : e.policy.isForm template = true)
    {p : Parameter} (mem : p ∈ block.parameters) :
    SameOutcome ((e.onData d).inputField pageTitle p) ((e.onData d').inputField pageTitle p) := by
  rw [inputField, inputField]
  refine Agree.bind_self fun _ _ => Agree.bind_self fun field ⟨_, _, hf⟩ => ?_
  refine Agree.bind_self fun id ⟨issued, _, hi⟩ => Agree.bind_self fun s ⟨_, _, hs⟩ => ?_
  have entered : Block.ofDirective e.fetch (e.inputDirective p) = .ok field := (Prod.mk.inj hf).1
  have he : (issued.issue p.name).1 = id := Except.ok.inj (Prod.mk.inj hi).1
  refine (fill_outcome hd fun ambient l t l' filled => ?_).bind fun _ _ _ => .pure trivial
  exact calm t (.field page slot form mem entered (of_run_page hs) ambient (he ▸ filled))

theorem slotText_outcome {template : Text}
    (page : e.templates.page block.kind block.overrides = .ok template)
    (slot : (Snippet.ofTemplate template).hasSlot = true) :
    SameOutcome ((e.onData d).slotText pageTitle template block)
      ((e.onData d').slotText pageTitle template block) := by
  rw [slotText, slotText, policy_onData, policy_onData]
  cases form : e.policy.isForm template
  case false => exact .pure trivial
  case true =>
    simp only [↓reduceIte, inputFields]
    have fields : List.Forall₂
        (fun p p' => SameOutcome ((e.onData d).inputField pageTitle p) ((e.onData d').inputField pageTitle p'))
        block.parameters block.parameters :=
      List.forall₂_same.mpr fun p mem => inputField_outcome hd calm page slot form mem
    exact (SameOutcome.mapM fields).bind fun _ _ _ => .pure trivial

theorem expand_outcome :
    SameOutcome ((e.onData d).expand pageTitle block) ((e.onData d').expand pageTitle block) := by
  rw [expand, expand]
  refine Agree.bind_self fun id ⟨issued, _, hi⟩ => Agree.bind_self fun template ⟨_, _, hp⟩ => ?_
  have page := of_run_page hp
  have he : (issued.issue (IdPool.lineContext block.kind block.title)).1 = id :=
    Except.ok.inj (Prod.mk.inj hi).1
  have side {s : Text}
      (h : s = (Snippet.ofTemplate template).head ∨ (Snippet.ofTemplate template).tail = some s) :
      SameOutcome ((e.onData d).fill pageTitle id block s) ((e.onData d').fill pageTitle id block s) := by
    refine fill_outcome hd fun ambient l t l' filled => ?_
    exact calm t (.side page h ambient (he ▸ filled))
  refine (side (.inl rfl)).bind fun head head' _ => ?_
  cases ht : (Snippet.ofTemplate template).tail
  case none => exact .pure trivial
  case some tail =>
    refine (side (.inr ht)).bind fun _ _ _ => ?_
    have slot : (Snippet.ofTemplate template).hasSlot = true := by rw [Snippet.hasSlot, ht]; rfl
    exact (slotText_outcome hd calm page slot).bind fun _ _ _ => .pure trivial

end

-- Where values are inert and templates are calm, data of one shape lead to the same outcome: success or the
-- same fault, and the same ids and counts.
theorem outcome_of_sameShape (shape : d.SameShape d') (inert : ∀ v ∈ d.texts, Hole.Inert v)
    (inert' : ∀ v ∈ d'.texts, Hole.Inert v) (calm : ∀ t, e.Reaches block t → e.Calm t) (l : Ledger) :
    let run := ((e.onData d).expand pageTitle block).run.run l
    let run' := ((e.onData d').expand pageTitle block).run.run l
    ((∃ f, run.1 = .ok f) ↔ ∃ f, run'.1 = .ok f) ∧
      (∀ fault, run.1 = .error fault ↔ run'.1 = .error fault) ∧ run.2 = run'.2 :=
  (expand_outcome (shape.and inert inert') calm).run l

def visits (value : String) : Document :=
  .of ⟨{ name := lit "data" }, .element { name := lit "default" }
    (.element { name := lit "visitors" } (.text (lit value) (.element { name := lit "row" } .nil .nil)) .nil)
    .nil⟩

theorem sameShape_visits (value value' : String) : (visits value).SameShape (visits value') :=
  .element rfl rfl (.element rfl rfl
    (.element rfl rfl (.text trivial (.element rfl rfl .nil .nil)) .nil) .nil) .nil

def tallied : Text := lit "<p>$\x7bdata\x7d</p>$\x7bdata:li\x7d"

def tally : Expander := ofText "<p>$\x7bdata\x7d</p>$\x7bdata:li\x7d"

def visitors : Block := { kind := lit "x", title := lit "Visitors" }

theorem page_tally : tally.templates.page (lit "x") {} = .ok tallied := by rfl

theorem nameBlock_tallied (id : Text) : nameBlock id visitors.title tallied = tallied := by
  have : replaceAll idHole id tallied = tallied := replaceAll_of_absent (by decide)
  rw [nameBlock, this]
  rfl

theorem calm_tallied : tally.Calm tallied := by
  have unnamed : tally.Unnamed (lit "li") := fun _ h => nomatch h
  have single : Hole.arguments dataKind tallied = [lit "li"] := by decide
  have without : Hole.arguments dataKind (replaceAll dataHole [] tallied) = [lit "li"] := by decide
  refine ⟨by decide, ?_, ?_⟩
  · rw [single]
    exact List.forall_mem_singleton.mpr unnamed
  · rw [without]
    exact List.forall_mem_singleton.mpr unnamed

theorem calm_of_reaches_tally (t : Text) (ht : tally.Reaches visitors t) : tally.Calm t := by
  cases ht
  case side page side ambient filled =>
    cases page_tally.symm.trans page
    rcases side with rfl | h
    · have hs : (Snippet.ofTemplate tallied).head = tallied := by rfl
      rw [hs, nameBlock_tallied] at filled
      cases Except.ok.inj (Prod.mk.inj filled).1
      exact calm_tallied
    · exact nomatch h
  case field page slot _ _ _ _ _ _ =>
    cases page_tally.symm.trans page
    exact absurd slot (by decide)

theorem outcome_tally :
    let run := ((tally.onData (visits "57")).expand (lit "Main") visitors).run.run {}
    let run' := ((tally.onData (visits "no \x7bvisitors\x7d")).expand (lit "Main") visitors).run.run {}
    run.1 = .error (.missingTemplate (lit "li.html")) ∧
      run'.1 = .error (.missingTemplate (lit "li.html")) ∧ run.2 = run'.2 := by
  intro run run'
  have ⟨_, fault, account⟩ := @outcome_of_sameShape tally visitors (lit "Main") _ _
    (sameShape_visits "57" "no \x7bvisitors\x7d") (by decide) (by decide) calm_of_reaches_tally {}
  have missing : run.1 = .error (.missingTemplate (lit "li.html")) := by rfl
  exact ⟨missing, (fault _).mp missing, account⟩

def shownValue : Expander := ofText "<p>$\x7bdata\x7d</p>"

-- A value that is a hole is filled in turn.
theorem not_outcome_of_sameShape :
    ¬ ∀ (e : Expander) (pageTitle : Text) (block : Block) (d d' : Document) (l : Ledger),
      '$' ∉ block.title → (∀ p ∈ block.parameters, '$' ∉ p.raw) → d.SameShape d' →
        ((∃ f, (((e.onData d).expand pageTitle block).run.run l).1 = .ok f) ↔
          ∃ f, (((e.onData d').expand pageTitle block).run.run l).1 = .ok f) := by
  intro h
  have shown : (((shownValue.onData (visits "57")).expand (lit "Main") visitors).run.run {}).1 =
      .ok (Snippet.leaf (lit "<p>57</p>\n")) := by rfl
  have missing :
      (((shownValue.onData (visits "$\x7bdata:nope\x7d")).expand (lit "Main") visitors).run.run {}).1 =
        .error (.missingTemplate (lit "nope.html")) := by rfl
  have shape := sameShape_visits "$\x7bdata:nope\x7d" "57"
  have agree := h shownValue (lit "Main") visitors _ _ {} (by decide) (by simp [visitors]) shape
  have ⟨f, hf⟩ := agree.mpr ⟨_, shown⟩
  exact nomatch missing.symm.trans hf

end WikiPages.Expander
