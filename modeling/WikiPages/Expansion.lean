import WikiPages.Binding
import WikiPages.Dictionary
import WikiPages.Page.Draft
import WikiPages.TagPolicy

namespace WikiPages

open Text

-- A computation that keeps account of a page and may fail. What it has entered before it fails
-- stays entered.
abbrev Expansion (α : Type) := ExceptT Fault (StateM Ledger) α

structure Expander where
  templates : Templates
  dictionary : Dictionary := {}
  fetch : Block.Fetch
  policy : TagPolicy
  data : Option Xml.Document := none

namespace Expander

def idHole : Text := Hole.of (lit "id")

def nameHole : Text := Hole.of (lit "name")

def titleHole : Text := Hole.of (lit "title")

def styleHole : Text := Hole.of (lit "style")

def dataHole : Text := Hole.of (lit "data")

def headerKind : Text := lit "header"

def dataKind : Text := lit "data"

def attributeKind : Text := lit "attribute"

def elementKind : Text := lit "element"

structure ItemRow where
  item : Text
  row : Option Text
  deriving DecidableEq

namespace ItemRow

def parse (argument : Text) : ItemRow :=
  match splitOnce? ['@'] argument with
  | some (item, row) => ⟨trim item, (some (trim row)).filter (· ≠ [])⟩
  | none => ⟨trim argument, none⟩

end ItemRow

def quoted (value : Text) : Text := replaceAll ['\x22'] (lit "&quot;") value

def nameBlock (id title s : Text) : Text :=
  replaceAll titleHole title
    (replaceAll nameHole (Identifier.normalize title) (replaceAll idHole id s))

def page (e : Expander) (name : Text) (values : Substitution) : Expansion Text :=
  liftExcept ((e.templates.page name values).mapError Fault.ofTemplate)
where
  liftExcept (r : Except Fault Text) : Expansion Text := ExceptT.mk (pure r)

def issue (context : Text) : Expansion Text := modifyGet fun l => l.issue context

def countInput : Expansion Unit := modify Ledger.countInput

def countOutputs (n : Nat) : Expansion Unit := modify fun l => l.countOutputs n

-- An item with its id and title. An id is issued only when the item shows it.
def nameItem (title s : Text) : Expansion Text := do
  let s ←
    if contains idHole s then do
      let id ← issue title
      pure (replaceAll idHole id s)
    else pure s
  pure (replaceAll titleHole title s)

def wrapRow (e : Expander) (row : Option Text) (items : Text) : Expansion Text :=
  match row with
  | some row => do
    let s ← e.page row {}
    pure (replaceAll Hole.content items s)
  | none => pure items

def headerTemplate (e : Expander) (item : Text) (p : Parameter) : Text :=
  match p.variant with
  | some variant =>
    let special := item ++ '-' :: variant
    if e.templates.hasPage special then special else item
  | none => item

def headerItem (e : Expander) (item : Text) (p : Parameter) : Expansion Text := do
  let s ← e.page (e.headerTemplate item p) p.overrides
  nameItem p.name (replaceAll styleHole p.style s)

def fillHeader (e : Expander) (block : Block) (s argument : Text) : Expansion Text := do
  let spec := ItemRow.parse argument
  let items ← block.parameters.mapM (e.headerItem spec.item)
  let headers ← e.wrapRow spec.row items.flatten
  pure (replaceAll (Hole.ofNamed headerKind argument) headers s)

def fillHeaders (e : Expander) (block : Block) (s : Text) : Expansion Text :=
  (Hole.arguments headerKind s).foldlM (e.fillHeader block) s

def dataItem (template : Text) (field : Option Xml.Place) : Expansion Text := do
  let s ← nameItem (Binding.fieldText field) template
  let s := (Hole.named attributeKind).replace (Binding.attributeOf field) s
  pure ((Hole.named elementKind).replace (Binding.elementOf field) s)

def dataRow (e : Expander) (template : Text) (row : Option Text) (parameters : List Parameter)
    (place : Xml.Place) : Expansion Text := do
  let items ← (Binding.fields place parameters).mapM (dataItem template)
  e.wrapRow row items.flatten

def fillValue (e : Expander) (pageTitle id : Text) (block : Block) (s : Text) : Expansion Text :=
  if contains dataHole s then do
    countOutputs 1
    pure (replaceAll dataHole (Binding.scalar e.data block pageTitle id) s)
  else pure s

-- Fills all data holes of one argument. It counts as many outputs as there are parameters, whether
-- or not there are rows.
def fillRows (e : Expander) (pageTitle id : Text) (block : Block) (s argument : Text) :
    Expansion Text := do
  let spec := ItemRow.parse argument
  countOutputs (max block.parameters.length 1)
  let places := Binding.rows e.data block pageTitle id
  -- without rows the item template need not exist
  let rows ←
    if places.isEmpty then pure []
    else do
      let template ← e.page spec.item {}
      places.mapM (e.dataRow template spec.row block.parameters)
  pure (replaceAll (Hole.ofNamed dataKind argument) (join lineBreak rows) s)

def fillData (e : Expander) (pageTitle id : Text) (block : Block) (s : Text) : Expansion Text := do
  let s ← e.fillValue pageTitle id block s
  (Hole.arguments dataKind s).foldlM (e.fillRows pageTitle id block) s

def fill (e : Expander) (pageTitle id : Text) (block : Block) (s : Text) : Expansion Text := do
  let s ← e.fillHeaders block (nameBlock id block.title s)
  e.fillData pageTitle id block s

def inputDirective (e : Expander) (p : Parameter) : Directive :=
  Directive.ofParts (e.dictionary.inputOf p.name ++ ' ' :: p.name) []

def inputValues (e : Expander) (p : Parameter) (overrides : Substitution) : Substitution :=
  (Substitution.ofList
    [(Dictionary.description, quoted (e.dictionary.descriptionOf p.name)),
      (Dictionary.placeholder, quoted (e.dictionary.placeholderOf p.name)),
      (lit "value", [])]).insertAll overrides.entries

def inputField (e : Expander) (pageTitle : Text) (p : Parameter) : Expansion Text := do
  -- the input is counted even if its directive turns out to name data that cannot be had
  countInput
  let block ← ExceptT.mk (pure (Block.ofDirective e.fetch (e.inputDirective p)))
  let overrides := block.overrides.insertAll p.overrides.entries
  let id ← issue p.name
  let s ← e.page block.kind (e.inputValues p overrides)
  let s ← e.fill pageTitle id block s
  pure (Hole.stripUnfilled s)

def inputFields (e : Expander) (pageTitle : Text) (parameters : List Parameter) :
    Expansion Text := do
  let fields ← parameters.mapM (e.inputField pageTitle)
  pure (fields.flatMap (· ++ lineBreak))

def freeLines (parameters : List Parameter) : Text :=
  parameters.flatMap fun p => p.raw ++ lineBreak

def slotText (e : Expander) (pageTitle template : Text) (block : Block) : Expansion Text :=
  if e.policy.isForm template then e.inputFields pageTitle block.parameters
  else pure (freeLines block.parameters)

def finishSnippet (f : Snippet) : Snippet := (f.push lineBreak).map Hole.stripUnfilled

-- The snippet of a block. The template is cut at its slot before anything is filled in, so that no
-- value can open a slot.
def expand (e : Expander) (pageTitle : Text) (block : Block) : Expansion Snippet := do
  let id ← issue (IdPool.lineContext block.kind block.title)
  let template ← e.page block.kind block.overrides
  let cut := Snippet.ofTemplate template
  -- both sides are filled on their own, the head first, as ids are issued in this order
  let head ← e.fill pageTitle id block cut.head
  match cut.tail with
  | none => pure (finishSnippet (.leaf head))
  | some tail =>
    let tail ← e.fill pageTitle id block tail
    let inner ← e.slotText pageTitle template block
    pure (finishSnippet ((Snippet.withSlot head tail).pushBeforeSlot inner))

@[simp]
theorem hasSlot_finishSnippet (f : Snippet) : (finishSnippet f).hasSlot = f.hasSlot := by
  simp [finishSnippet]

end Expander
end WikiPages
