import WikiPages.Proofs.Expansion.Counting
import WikiPages.Proofs.Expansion.Sides

namespace WikiPages

open Text Hole
open IdPool (Request serveAll)

namespace Expander

variable {α β : Type} {x : Expansion α} {requests others : List Request}

def Comes (x : Expansion α) (a : α) : Prop := ∃ l l', x.run.run l = (.ok a, l')

theorem Counts.holds {holds : α → Prop} {inputs outputs : Nat} {a : α} (h : Counts x inputs outputs holds)
    (c : Comes x a) : holds a := by
  obtain ⟨l, l', run⟩ := c
  exact (h l a l' run).1

-- If the expansion succeeds, it has asked for some ids one after the other, and for no others.
def Serves (x : Expansion α) (requests : List Request) : Prop :=
  ∀ l a l', x.run.run l = (.ok a, l') → l'.ids = (serveAll l.ids requests).2

namespace Serves

theorem pure (a : α) : Serves (pure a) [] := by
  intro l b l' h
  cases h
  rfl

theorem bind {f : α → Expansion β} (h : Serves x requests) (hn : ∀ a, Comes x a → Serves (f a) others) :
    Serves (x >>= f) (requests ++ others) := by
  intro l b l' hr
  have ⟨a, between, hx, hf⟩ := exists_of_run_bind hr
  rw [hn a ⟨l, between, hx⟩ between b l' hf, h l a between hx, IdPool.serveAll_append]

theorem bind_silent {f : α → Expansion β} (h : Serves x requests) (hn : ∀ a, Serves (f a) []) :
    Serves (x >>= f) requests :=
  List.append_nil requests ▸ h.bind fun a _ => hn a

theorem silent_bind {f : α → Expansion β} (h : Serves x []) (hn : ∀ a, Comes x a → Serves (f a) others) :
    Serves (x >>= f) others :=
  h.bind hn

theorem mapM {f : α → Expansion β} {requests : α → List Request} {as : List α}
    (h : ∀ a ∈ as, Serves (f a) (requests a)) : Serves (as.mapM f) (as.flatMap requests) := by
  induction as
  case nil => exact pure []
  case cons a as hi =>
    have ⟨first, rest⟩ := List.forall_mem_cons.mp h
    rw [List.mapM_cons, List.flatMap_cons]
    exact first.bind fun b _ => (hi rest).bind_silent fun bs => pure _

theorem foldlM {f : β → α → Expansion β} {requests : α → List Request} {as : List α}
    (h : ∀ b, ∀ a ∈ as, Serves (f b a) (requests a)) (b : β) : Serves (as.foldlM f b) (as.flatMap requests) := by
  induction as generalizing b
  case nil => exact pure b
  case cons a as hi =>
    rw [List.foldlM_cons, List.flatMap_cons]
    exact (h b a List.mem_cons_self).bind fun b _ => hi (fun b a ha => h b a (List.mem_cons_of_mem _ ha)) b

end Serves

section Reference

variable (e : Expander) (block : Block) (p : Parameter) (pageTitle id title s : Text)

def cellRequests (template : Text) : List Request := if contains idHole template then [.text title] else []

def headerCell (item : Text) : Text := p.overrides.apply (e.templateText (e.headerTemplate item p))

def headerRequests (parameters : List Parameter) : List Request :=
  (arguments headerKind s).flatMap fun argument =>
    parameters.flatMap fun p => cellRequests p.name (e.headerCell p (ItemRow.parse argument).item)

def dataRequests : List Request :=
  (arguments dataKind s).flatMap fun argument =>
    (Binding.rows e.data block pageTitle id).flatMap fun place =>
      (Binding.fields place block.parameters).flatMap fun field =>
        cellRequests (Binding.fieldText field) (e.templateText (ItemRow.parse argument).item)

def requestsIn : List Request := e.headerRequests s block.parameters ++ e.dataRequests block pageTitle id s

def headerCells (parameters : List Parameter) : Nat :=
  ((arguments headerKind s).map fun argument =>
    parameters.countP fun p => contains idHole (e.headerCell p (ItemRow.parse argument).item)).sum

def dataCells : Nat :=
  ((arguments dataKind s).map fun argument =>
    if contains idHole (e.templateText (ItemRow.parse argument).item) then
      ((Binding.rows e.data block pageTitle id).map fun place => (Binding.fields place block.parameters).length).sum
    else 0).sum

def cellsIn : Nat := e.headerCells s block.parameters + e.dataCells block pageTitle id s

def fieldRequests : List Request :=
  .text p.name ::
    match Block.ofDirective e.fetch (e.inputDirective p) with
    | .ok block => e.requestsIn block pageTitle id (e.fieldTemplate p)
    | .error _  => []

def fieldCells : Nat :=
  match Block.ofDirective e.fetch (e.inputDirective p) with
  | .ok block => e.cellsIn block pageTitle id (e.fieldTemplate p)
  | .error _  => 0

def fieldIds (pool : IdPool) : List Parameter → List (Parameter × Text)
  | []      => []
  | p :: ps =>
    let id := (pool.issue p.name).1
    (p, id) :: fieldIds (serveAll pool (e.fieldRequests p pageTitle id)).2 ps

def ownRequests (pool : IdPool) : List Request :=
  let request := Request.line block.kind block.title
  let id := (request.serve pool).1
  let cut := Snippet.ofTemplate (e.templateOf block)
  request :: (e.requestsIn block pageTitle id cut.head ++ e.requestsIn block pageTitle id (cut.tail.getD []))

def fieldsFrom (pool : IdPool) : List (Parameter × Text) :=
  e.fieldIds pageTitle (serveAll pool (e.ownRequests block pageTitle pool)).2 (e.fieldsOf block)

def requestsOf (pool : IdPool) : List Request :=
  e.ownRequests block pageTitle pool ++
    (e.fieldsFrom block pageTitle pool).flatMap fun field => e.fieldRequests field.1 pageTitle field.2

-- How many ids that are: one for the block, one for each field, and one for each cell that shows one.
def requestCount (pool : IdPool) : Nat :=
  let id := ((Request.line block.kind block.title).serve pool).1
  let cut := Snippet.ofTemplate (e.templateOf block)
  1 + (e.fieldsOf block).length +
    (e.cellsIn block pageTitle id cut.head + e.cellsIn block pageTitle id (cut.tail.getD [])) +
    ((e.fieldsFrom block pageTitle pool).map fun field => e.fieldCells field.1 pageTitle field.2).sum

end Reference

def IsTable (inside : Text) : Prop := argument? dataKind inside ≠ none

instance : DecidablePred IsTable := fun _ => inferInstanceAs (Decidable (_ ≠ _))

-- A `$` only begins holes, and only of templates. The items and rows of headers have no tables, though they may show
-- a value.
structure Tidy (e : Expander) : Prop where
  templates  : ∀ name t, e.templates.text name Templates.pageExtension = .ok t → Clean t
  items      : ∀ name, ∀ argument ∈ arguments headerKind (e.templateText name), ∀ p : Parameter,
                 Without IsTable (e.templateText (e.headerTemplate (ItemRow.parse argument).item p))
  rows       : ∀ name, ∀ argument ∈ arguments headerKind (e.templateText name),
                 ∀ row ∈ (ItemRow.parse argument).row, Without IsTable (e.templateText row)
  dictionary : e.dictionary.Lacks '$'
  data       : ∀ document ∈ e.data, document.Lacks '$'

variable {e : Expander} {block : Block} {p : Parameter} {pageTitle id name s t : Text} {l l' : Ledger}

section Lengths

theorem length_cellRequests (title template : Text) :
    (cellRequests title template).length = if contains idHole template then 1 else 0 := by
  rw [cellRequests]
  split <;> rfl

theorem length_flatMap_cellRequests (ps : List Parameter) (template : Parameter → Text) :
    (ps.flatMap fun p => cellRequests p.name (template p)).length =
      ps.countP fun p => contains idHole (template p) := by
  induction ps
  case nil => rfl
  case cons p ps hi =>
    rw [List.flatMap_cons, List.length_append, hi, length_cellRequests, List.countP_cons, Nat.add_comm]

theorem length_headerRequests (s : Text) (parameters : List Parameter) :
    (e.headerRequests s parameters).length = e.headerCells s parameters := by
  rw [headerRequests, headerCells, List.length_flatMap]
  refine congrArg List.sum (List.map_congr_left fun argument _ => ?_)
  exact length_flatMap_cellRequests parameters _

theorem length_dataRequests (block : Block) (pageTitle id s : Text) :
    (e.dataRequests block pageTitle id s).length = e.dataCells block pageTitle id s := by
  rw [dataRequests, dataCells, List.length_flatMap]
  refine congrArg List.sum (List.map_congr_left fun argument _ => ?_)
  simp only [List.length_flatMap, length_cellRequests]
  split <;> simp

theorem length_requestsIn (block : Block) (pageTitle id s : Text) :
    (e.requestsIn block pageTitle id s).length = e.cellsIn block pageTitle id s := by
  rw [requestsIn, List.length_append, length_headerRequests, length_dataRequests, cellsIn]

theorem length_fieldRequests (p : Parameter) (pageTitle id : Text) :
    (e.fieldRequests p pageTitle id).length = 1 + e.fieldCells p pageTitle id := by
  rw [fieldRequests, fieldCells, List.length_cons, Nat.add_comm]
  cases Block.ofDirective e.fetch (e.inputDirective p)
  case error => rfl
  case ok block => exact congrArg (1 + ·) (length_requestsIn block pageTitle id _)

theorem length_fieldIds (pool : IdPool) (ps : List Parameter) :
    (e.fieldIds pageTitle pool ps).length = ps.length := by
  induction ps generalizing pool
  case nil => rfl
  case cons p ps hi => exact congrArg (· + 1) (hi _)

theorem length_requestsOf (pool : IdPool) :
    (e.requestsOf block pageTitle pool).length = e.requestCount block pageTitle pool := by
  have fields (ids : List (Parameter × Text)) :
      (ids.flatMap fun field => e.fieldRequests field.1 pageTitle field.2).length =
        ids.length + (ids.map fun field => e.fieldCells field.1 pageTitle field.2).sum := by
    induction ids
    case nil => rfl
    case cons field ids hi =>
      rw [List.flatMap_cons, List.length_append, hi, length_fieldRequests, List.length_cons, List.map_cons,
        List.sum_cons]
      omega
  rw [requestsOf, ownRequests, requestCount, List.length_append, fields, fieldsFrom, length_fieldIds, List.length_cons,
    List.length_append, length_requestsIn, length_requestsIn]
  omega

end Lengths

section Steps

theorem serves_page (name : Text) (values : Substitution) : Serves (e.page name values) [] :=
  fun _ _ _ h => congrArg Ledger.ids (Prod.mk.inj h).2.symm

theorem serves_issue (context : Text) : Serves (issue context) [.text context] := by
  intro l id l' h
  cases h
  rfl

theorem serves_nameItem (title s : Text) : Serves (nameItem title s) (cellRequests title s) := by
  rw [nameItem, cellRequests]
  split
  case isTrue => exact (serves_issue title).bind_silent fun id => .pure _
  case isFalse => exact .pure _

theorem serves_wrapRow (row : Option Text) (items : Text) : Serves (e.wrapRow row items) [] := by
  cases row
  case none => exact .pure items
  case some row => exact (serves_page row {}).bind_silent fun s => .pure _

end Steps

section Headers

variable (clean : ∀ name t, e.templates.text name Templates.pageExtension = .ok t → Clean t)

include clean

theorem serves_headerItem (hp : p.Lacks '$') (item : Text) :
    Serves (e.headerItem item p) (cellRequests p.name (e.headerCell p item)) := by
  rw [headerItem]
  refine (serves_page _ _).silent_bind fun s hs => ?_
  have template : s = e.headerCell p item := (counts_page _ _).holds hs
  have whole : Clean (e.headerCell p item) := ((clean_templateText clean _).apply hp.overrides).1
  subst template
  have styled : Keeps (· = lit "id") (e.headerCell p item) (replaceAll styleHole p.style (e.headerCell p item)) := by
    rw [styleHole, replaceAll_eq_fillAll whole (by decide)]
    refine .fillAll whole fun inside _ v hv => ?_
    obtain ⟨rfl, rfl⟩ := eq_of_mem_only hv
    exact ⟨by decide, .of_free hp.style⟩
  have shown : contains idHole (replaceAll styleHole p.style (e.headerCell p item)) =
      contains idHole (e.headerCell p item) := styled.contains_eq whole (by decide) rfl
  have named := serves_nameItem p.name (replaceAll styleHole p.style (e.headerCell p item))
  rw [cellRequests, shown] at named
  exact named

theorem serves_fillHeader (hb : block.Lacks '$') (s argument : Text) :
    Serves (e.fillHeader block s argument)
      (block.parameters.flatMap fun p => cellRequests p.name (e.headerCell p (ItemRow.parse argument).item)) := by
  rw [fillHeader]
  refine (Serves.mapM fun p hp => serves_headerItem clean (hb.parameters p hp) _).bind_silent fun items => ?_
  exact (serves_wrapRow _ _).bind_silent fun headers => .pure _

theorem serves_fillHeaders (hb : block.Lacks '$') (s : Text) :
    Serves (e.fillHeaders block s) (e.headerRequests s block.parameters) :=
  .foldlM (fun s argument _ => serves_fillHeader clean hb s argument) s

end Headers

section Tables

theorem serves_dataItem (template : Text) (field : Option Xml.Place) :
    Serves (dataItem template field) (cellRequests (Binding.fieldText field) template) :=
  (serves_nameItem _ _).bind_silent fun _ => .pure _

theorem serves_dataRow (template : Text) (row : Option Text) (parameters : List Parameter) (place : Xml.Place) :
    Serves (e.dataRow template row parameters place)
      ((Binding.fields place parameters).flatMap fun field => cellRequests (Binding.fieldText field) template) :=
  (Serves.mapM fun field _ => serves_dataItem template field).bind_silent fun _ => serves_wrapRow _ _

theorem serves_rowTexts (argument : Text) (parameters : List Parameter) (places : List Xml.Place) :
    Serves (e.rowTexts argument parameters places)
      (places.flatMap fun place => (Binding.fields place parameters).flatMap fun field =>
        cellRequests (Binding.fieldText field) (e.templateText (ItemRow.parse argument).item)) := by
  cases places
  case nil => exact .pure []
  case cons place places =>
    refine (serves_page _ {}).silent_bind fun template ht => ?_
    rw [(counts_page _ {}).holds ht]
    exact .mapM fun place _ => serves_dataRow _ _ parameters place

theorem serves_fillRows (block : Block) (pageTitle id s argument : Text) :
    Serves (e.fillRows pageTitle id block s argument)
      ((Binding.rows e.data block pageTitle id).flatMap fun place =>
        (Binding.fields place block.parameters).flatMap fun field =>
          cellRequests (Binding.fieldText field) (e.templateText (ItemRow.parse argument).item)) := by
  have counted : Serves (countOutputs (max block.parameters.length 1)) [] := by
    intro l a l' h
    cases h
    rfl
  rw [fillRows_eq]
  exact counted.silent_bind fun _ _ => (serves_rowTexts _ _ _).bind_silent fun rows => .pure _

theorem serves_fillValue (block : Block) (pageTitle id s : Text) : Serves (e.fillValue pageTitle id block s) [] := by
  rw [fillValue]
  split
  case isFalse => exact .pure s
  case isTrue =>
    intro l t l' h
    cases h
    rfl

theorem serves_fillData (hv : '$' ∉ Binding.scalar e.data block pageTitle id) (hs : Clean s) :
    Serves (e.fillData pageTitle id block s) (e.dataRequests block pageTitle id s) := by
  rw [fillData]
  refine (serves_fillValue block pageTitle id s).silent_bind fun t ht => ?_
  have same : arguments dataKind t = arguments dataKind s := (counts_fillValue hv hs).holds ht
  rw [dataRequests, ← same]
  exact .foldlM (fun t argument _ => serves_fillRows block pageTitle id t argument) t

end Tables

section Expand

variable (tidy : e.Tidy)

include tidy

theorem serves_fill (hb : block.Lacks '$') (hid : '$' ∉ id) (hs : Clean s)
    (h : insides s ⊆ insides (e.templateText name)) :
    Serves (e.fill pageTitle id block s) (e.requestsIn block pageTitle id s) := by
  have headed : Keeps (argument? headerKind · ≠ none) s (nameBlock id block.title s) :=
    .nameBlock hs hid hb.title (by decide)
  have named : Keeps IsTable s (nameBlock id block.title s) := .nameBlock hs hid hb.title (by decide)
  have headers : arguments headerKind (nameBlock id block.title s) = arguments headerKind s :=
    headed.arguments_eq hs fun _ h => h
  have first := serves_fillHeaders tidy.templates hb (nameBlock id block.title s)
  rw [headerRequests, headers, ← headerRequests] at first
  rw [fill]
  refine first.bind fun t ht => ?_
  have fewer := List.Subset.trans (insides_nameBlock hs hid hb.title) h
  have other (argument : Text) : ¬ IsTable (headerKind ++ ':' :: argument) := fun h => h rfl
  have kept : Keeps IsTable (nameBlock id block.title s) t :=
    (counts_fillHeaders tidy.templates tidy.items tidy.rows other hb named.clean fewer).holds ht
  have tables : arguments dataKind t = arguments dataKind s := (named.trans kept).arguments_eq hs fun _ h => h
  have second : Serves (e.fillData pageTitle id block t) _ :=
    serves_fillData (Binding.not_mem_scalar hb.data tidy.data) kept.clean
  rw [dataRequests, tables, ← dataRequests] at second
  exact second

theorem run_inputField_serves (hp : p.Lacks '$') (named : e.PlainData (e.inputDirective p))
    (h : (e.inputField pageTitle p).run.run l = (.ok s, l')) :
    l'.ids = (serveAll l.ids (e.fieldRequests p pageTitle (l.ids.issue p.name).1)).2 := by
  have directive := lacks_inputDirective tidy.dictionary hp
  have values := lacks_inputValues tidy.dictionary hp
  obtain ⟨block, t, u, read, page, filled, rfl⟩ := exists_of_run_inputField h
  rw [fieldRequests, fieldTemplate, read]
  generalize e.inputDirective p = d at directive values named read
  obtain ⟨data, rfl, hd⟩ := Block.exists_withData named read
  obtain rfl := eq_apply_of_page page
  obtain ⟨clean, fewer⟩ := (clean_templateText tidy.templates d.kind).apply values
  exact serves_fill tidy (directive.withData hd) (not_mem_issue _ _) clean fewer _ _ _ filled

theorem run_inputFields_serves {ps : List Parameter} {fields : List Text} (hp : ∀ p ∈ ps, p.Lacks '$')
    (named : ∀ p ∈ ps, e.PlainData (e.inputDirective p))
    (h : (ps.mapM (e.inputField pageTitle)).run.run l = (.ok fields, l')) :
    l'.ids = (serveAll l.ids
      ((e.fieldIds pageTitle l.ids ps).flatMap fun field => e.fieldRequests field.1 pageTitle field.2)).2 := by
  induction ps generalizing l fields
  case nil =>
    cases h
    rfl
  case cons p ps hi =>
    obtain ⟨s, rest, between, rfl, first, later⟩ := exists_of_run_mapM_cons h
    have ⟨here, others⟩ := List.forall_mem_cons.mp hp
    have ⟨plain, named⟩ := List.forall_mem_cons.mp named
    rw [fieldIds, List.flatMap_cons, IdPool.serveAll_append, ← run_inputField_serves tidy here plain first]
    exact hi others named later

theorem run_slotText_serves {template inner : Text} (hb : block.Lacks '$')
    (named : e.policy.isForm template = true → ∀ p ∈ block.parameters, e.PlainData (e.inputDirective p))
    (h : (e.slotText pageTitle template block).run.run l = (.ok inner, l')) :
    l'.ids = (serveAll l.ids ((e.fieldIds pageTitle l.ids
      (if e.policy.isForm template then block.parameters else [])).flatMap
        fun field => e.fieldRequests field.1 pageTitle field.2)).2 := by
  rw [slotText] at h
  split at h
  case isFalse form =>
    rw [if_neg form]
    cases h
    rfl
  case isTrue form =>
    rw [if_pos form]
    obtain ⟨fields, _, run, h⟩ := exists_of_run_bind h
    cases h
    exact run_inputFields_serves tidy hb.parameters (named form) run

theorem run_expand_requests {f : Snippet} (hb : block.Lacks '$')
    (named : ∀ p ∈ e.fieldsOf block, e.PlainData (e.inputDirective p))
    (h : (e.expand pageTitle block).run.run l = (.ok f, l')) :
    l'.ids = (serveAll l.ids (e.requestsOf block pageTitle l.ids)).2 := by
  have whole : Clean (e.templateOf block) ∧ insides (e.templateOf block) ⊆ insides (e.templateText block.kind) :=
    (clean_templateText tidy.templates block.kind).apply hb.overrides
  obtain ⟨clean, fewer⟩ := whole
  have ⟨⟨headClean, headFewer⟩, tails⟩ := Clean.ofTemplate clean
  have free := not_mem_issue l (IdPool.lineContext block.kind block.title)
  obtain ⟨t, head, between, page, before, rest⟩ := exists_of_run_expand h
  obtain rfl : t = e.templateOf block := eq_apply_of_page page
  have front := serves_fill tidy hb free headClean (List.Subset.trans headFewer fewer) _ _ _ before
  have own : (serveAll l.ids (e.ownRequests block pageTitle l.ids)).2 = (serveAll between.ids
      (e.requestsIn block pageTitle (l.issueFor block.kind block.title).1
        ((Snippet.ofTemplate (e.templateOf block)).tail.getD []))).2 := by
    rw [front]
    change (serveAll (l.issueFor block.kind block.title).2.ids (_ ++ _)).2 = _
    rw [IdPool.serveAll_append]
    rfl
  rw [requestsOf, IdPool.serveAll_append, fieldsFrom, own, fieldsOf]
  rw [fieldsOf] at named
  generalize Snippet.ofTemplate (e.templateOf block) = cut at *
  obtain ⟨side, side'⟩ := cut
  obtain ⟨rfl, _, rfl⟩ | ⟨side', tail, between', inner, rfl, behind, within, _⟩ := rest
  case inl => rfl
  case inr =>
    obtain ⟨tailClean, tailFewer⟩ := tails side' rfl
    have back := serves_fill tidy hb free tailClean (List.Subset.trans tailFewer fewer) _ _ _ behind
    have fields := run_slotText_serves tidy hb
      (fun form p hp => named p (by simpa [Snippet.hasSlot, form] using hp)) within
    rw [back] at fields
    exact fields

-- The ids that are issued are those that are asked for, in that order: one for the block, one for each of its fields,
-- and one for each cell of theirs that shows one. All of them are new, and none that was there before is lost.
theorem run_expand_serves {f : Snippet} (hb : block.Lacks '$')
    (named : ∀ p ∈ e.fieldsOf block, e.PlainData (e.inputDirective p))
    (h : (e.expand pageTitle block).run.run l = (.ok f, l')) :
    l'.ids = (serveAll l.ids (e.requestsOf block pageTitle l.ids)).2 ∧
    l'.ids.size = l.ids.size + e.requestCount block pageTitle l.ids ∧
    ∃ new, l'.ids.issued = new ++ l.ids.issued ∧ new.Nodup ∧ ∀ id ∈ new, id ∉ l.ids.issued := by
  have served := run_expand_requests tidy hb named h
  have issued := IdPool.issued_serveAll l.ids (e.requestsOf block pageTitle l.ids)
  have ⟨distinct, fresh⟩ := IdPool.fresh_serveAll l.ids (e.requestsOf block pageTitle l.ids)
  rw [← served] at issued
  refine ⟨served, ?_, _, issued, List.nodup_reverse.mpr distinct, fun id h => fresh id (List.mem_reverse.mp h)⟩
  rw [IdPool.size, issued, List.length_append, List.length_reverse, IdPool.length_serveAll, length_requestsOf,
    Nat.add_comm, IdPool.size]

end Expand

def cellTexts : List (Text × Text) :=
  [(lit "f", lit "<form id=$\x7bid\x7d>$\x7bheader:h@r\x7d$\x7bcontent\x7d$\x7bdata:d\x7d</form>"),
    (lit "h", lit "<h id=$\x7bid\x7d>$\x7btitle\x7d</h>"),
    (lit "d", lit "<d id=$\x7bid\x7d>$\x7btitle\x7d</d>"),
    (lit "r", lit "<r>$\x7bcontent\x7d</r>"),
    (lit "text-input", lit "<i id=$\x7bid\x7d>")]

def celled : Expander where
  templates :=
    { text name _ := ((cellTexts.lookup name).map .ok).getD (.error (.missing name))
      has name _  := (cellTexts.lookup name).isSome }
  fetch     := fun _ => .error (.data .malformed)
  policy    := default
  data      := some gridData

def sumsForm : Block := { sums with kind := lit "f" }

theorem templateText_celled (name : Text) : celled.templateText name = (cellTexts.lookup name).getD [] := by
  rw [templateText, celled]
  dsimp only
  cases cellTexts.lookup name <;> rfl

theorem headers_celled {name argument : Text} (h : argument ∈ arguments headerKind (celled.templateText name)) :
    ItemRow.parse argument = ⟨lit "h", some (lit "r")⟩ := by
  have all : ∀ entry ∈ cellTexts, ∀ argument ∈ arguments headerKind entry.2, argument = lit "h@r" := by decide
  rw [templateText_celled] at h
  cases hl : cellTexts.lookup name
  case none =>
    rw [hl] at h
    cases h
  case some t =>
    rw [hl] at h
    rw [all _ (mem_of_lookup hl) argument h]
    decide

theorem tidy_celled : celled.Tidy where
  templates  := by
    intro name t h
    have all : ∀ entry ∈ cellTexts, Clean entry.2 := by decide
    have text := templateText_eq h
    rw [templateText_celled] at text
    cases hl : cellTexts.lookup name
    case none => exact text ▸ hl ▸ .nil
    case some t =>
      rw [hl] at text
      exact text ▸ all _ (mem_of_lookup hl)
  items      := by
    intro name argument ha p
    rw [headers_celled ha]
    rcases headerTemplate_cases (e := celled) (lit "h") p with he | ⟨variant, he⟩
    · rw [he]
      decide
    · have special : celled.templateText (lit "h" ++ '-' :: variant) = [] := templateText_celled _
      rw [he, special]
      exact .of_free List.not_mem_nil
  rows       := by
    intro name argument ha row hr
    rw [headers_celled ha] at hr
    cases hr
    decide
  dictionary := nofun
  data       := by decide

theorem run_expand_sumsForm :
    ∃ f l', (celled.expand (lit "Main") sumsForm).run.run {} = (.ok f, l') ∧ l'.ids.size = 7 ∧
      l'.ids.issued = [lit "b_1", lit "a_1", lit "4", lit "3", lit "b", lit "a", lit "sums"] := by
  have runs : ((celled.expand (lit "Main") sumsForm).run.run {}).1.toOption.isSome = true := by decide +kernel
  rcases after : (celled.expand (lit "Main") sumsForm).run.run {} with ⟨_ | f, l'⟩
  case error =>
    rw [after] at runs
    cases runs
  case ok =>
    have unread : ∀ p ∈ celled.fieldsOf sumsForm, celled.PlainData (celled.inputDirective p) :=
      fun _ _ _ _ _ => nofun
    obtain ⟨ids, size, _⟩ := run_expand_serves tidy_celled (by decide) unread after
    refine ⟨f, l', rfl, size.trans (by decide +kernel), ?_⟩
    rw [ids]
    decide +kernel

end Expander
end WikiPages
