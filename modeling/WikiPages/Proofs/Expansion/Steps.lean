import WikiPages.Expansion
import WikiPages.Proofs.Success

namespace WikiPages.Expander

open Text

variable {α β : Type} {e : Expander} {block : Block} {pageTitle id : Text}

theorem page_eq_pure {name s : Text} {values : Substitution}
    (h : e.templates.page name values = .ok s) : e.page name values = pure s := by
  rw [page, h]
  rfl

theorem of_run_page {name s : Text} {values : Substitution} {l l' : Ledger}
    (h : (e.page name values).run.run l = (.ok s, l')) : e.templates.page name values = .ok s :=
  eq_ok_of_mapError (Prod.mk.inj h).1

theorem nameItem_eq_pure {title s : Text} (h : contains idHole s = false) :
    nameItem title s = pure (replaceAll titleHole title s) := by
  simp [nameItem, h]

theorem mapM_eq_pure {f : α → Expansion β} {g : α → β} {items : List α}
    (h : ∀ item ∈ items, f item = pure (g item)) : items.mapM f = pure (items.map g) := by
  induction items
  case nil => rfl
  case cons item items hi =>
    have hi := hi fun item hm => h item (List.mem_cons_of_mem _ hm)
    rw [List.mapM_cons, h item List.mem_cons_self, hi]
    rfl

theorem wrapRow_eq_pure {row s items : Text} (h : e.templates.page row {} = .ok s) :
    e.wrapRow (some row) items = pure (replaceAll Hole.content items s) := by
  rw [wrapRow, page_eq_pure h]
  rfl

def rowTexts (e : Expander) (argument : Text) (parameters : List Parameter) (places : List Xml.Place) :
    Expansion (List Text) :=
  match places with
  | [] => pure []
  | place :: places => do
    let item ← e.page (ItemRow.parse argument).item {}
    (place :: places).mapM (e.dataRow item (ItemRow.parse argument).row parameters)

theorem fillRows_eq (s argument : Text) :
    e.fillRows pageTitle id block s argument = (do
      countOutputs (max block.parameters.length 1)
      let rows ← e.rowTexts argument block.parameters (Binding.rows e.data block pageTitle id)
      pure (replaceAll (Hole.ofNamed dataKind argument) (join lineBreak rows) s)) := by
  rw [fillRows]
  cases Binding.rows e.data block pageTitle id
  case nil => rfl
  case cons place places => simp [rowTexts]

theorem run_issue_bind (context : Text) (next : Text → Expansion α) (l : Ledger) :
    (issue context >>= next).run.run l = (next (l.issue context).1).run.run (l.issue context).2 :=
  rfl

theorem run_countOutputs_bind (n : Nat) (next : Unit → Expansion α) (l : Ledger) :
    (countOutputs n >>= next).run.run l = (next ()).run.run (l.countOutputs n) :=
  rfl

theorem run_pure (a : α) (l : Ledger) : (pure a : Expansion α).run.run l = (.ok a, l) :=
  rfl

def ofText (template : String) : Expander where
  templates := Cabinet.templates {} [Shelf.memory [(lit "x.html", lit template)]]
  fetch     := fun _ => .error (.data .malformed)
  policy    := default

end WikiPages.Expander
