import WikiPages.Binding
import WikiPages.Proofs.Xml.Order

namespace WikiPages

open Text Xml

namespace Xml.Document

-- Whether an element of the name, inside one named `context`, has a node of some kind directly inside.
def bears (d : Document) (kind : Place → Bool) (path : Text × Text) : Bool :=
  (d.elementsAt (some path.1) path.2).any fun p => p.children.any kind

theorem bears_iff {d : Document} {kind : Place → Bool} {path : Text × Text} :
    d.bears kind path = true ↔ ∃ p ∈ d.places, kind p = true ∧ isUnder (some path.1) path.2 p = true := by
  simp only [bears, List.any_eq_true]
  constructor
  case mp =>
    rintro ⟨q, hq, p, hp, hk⟩
    have inside := Content.children_subset (mem_elementsAt.mp hq).1 hp
    exact ⟨p, inside, hk, (isUnder_iff inside).mpr ⟨q, hq, hp⟩⟩
  case mpr =>
    rintro ⟨p, hp, hk, hu⟩
    have ⟨q, hq, inside⟩ := (isUnder_iff hp).mp hu
    exact ⟨q, hq, p, inside, hk⟩

end Xml.Document

namespace Binding

variable {d : Document} {block : Block} {pageTitle id title : Text}

-- The full list of paths: the page's own before the shared ones, and among them the id before the title, which is
-- tried whenever there is one.
def allPaths (pageTitle id title : Text) : List (Text × Text) :=
  let names := if title = [] then [id] else [id, Identifier.normalize title]
  names.map (Identifier.normalize pageTitle, ·) ++ names.map (sharedContext, ·)

theorem find?_allPaths (pageTitle id title : Text) (has : Text × Text → Bool) :
    (paths pageTitle id title).find? has = (allPaths pageTitle id title).find? has := by
  by_cases ht : title = []
  case pos => simp [paths, allPaths, ht]
  case neg =>
    by_cases hi : Identifier.normalize title = id
    case neg => simp [paths, allPaths, ht, hi]
    case pos =>
      have twice (context : Text) (rest : List (Text × Text)) :
          ((context, id) :: (context, id) :: rest).find? has = ((context, id) :: rest).find? has := by
        rw [List.find?_cons]
        split
        case h_1 h => exact (List.find?_cons_of_pos h).symm
        case h_2 => rfl
      have short : paths pageTitle id title =
          [(Identifier.normalize pageTitle, id)] ++ [(sharedContext, id)] := by simp [paths, hi]
      have full : allPaths pageTitle id title =
          [(Identifier.normalize pageTitle, id), (Identifier.normalize pageTitle, id)] ++
            [(sharedContext, id), (sharedContext, id)] := by simp [allPaths, ht, hi]
      rw [short, full, List.find?_append, List.find?_append, twice, twice]

theorem findSome?_eq {α β : Type} {f : α → Option β} {has : α → Bool} (h : ∀ a, (f a).isSome = has a) (as : List α) :
    as.findSome? f = (as.find? has).bind f := by
  induction as
  case nil => rfl
  case cons a as hi =>
    rw [List.findSome?_cons, List.find?_cons, ← h a, hi]
    cases ha : f a
    case none => rfl
    case some => exact ha.symm

theorem isSome_textAt? (d : Document) (path : Text × Text) :
    (d.textAt? (some path.1) path.2).isSome = d.bears Place.isText path := by
  rw [Bool.eq_iff_iff, Document.bears_iff, Document.textAt?_eq, Option.isSome_map, List.find?_isSome]
  simp only [Bool.and_eq_true]

theorem isEmpty_rowsAt (d : Document) (path : Text × Text) :
    (d.rowsAt (some path.1) path.2).isEmpty = !d.bears Place.isElement path := by
  rw [Bool.eq_iff_iff, Bool.not_eq_true', ← Bool.not_eq_true, Document.bears_iff, Document.rowsAt_eq, List.isEmpty_iff,
    List.filter_eq_nil_iff]
  simp only [Bool.and_eq_true, not_exists, not_and]

theorem firstRows_eq (d : Document) (paths : List (Text × Text)) :
    firstRows d paths = (paths.find? (d.bears Place.isElement)).elim [] fun path => d.rowsAt (some path.1) path.2 := by
  induction paths
  case nil => rfl
  case cons path paths hi =>
    have rows := isEmpty_rowsAt d path
    rw [firstRows, List.findSome?_cons, List.find?_cons]
    cases hb : d.bears Place.isElement path <;> rw [hb] at rows
    case false =>
      simp only [rows, Bool.not_false, if_true]
      exact hi
    case true => simp [rows]

theorem outermostRows_eq (own : Document) :
    own.outermostRows = own.places.filter fun p => p.isElement && p.around = [own.root] := by
  have places : own.places = own.rootPlace :: (own.root.inner.places [own.root] 2 ++ []) := rfl
  have children : own.rootPlace.children = own.root.inner.siblings [own.root] 2 := rfl
  rw [Document.outermostRows_eq, Place.elementChildren, children, Content.siblings_eq_filter, List.filter_filter, places, List.append_nil]
  exact (List.filter_cons_of_neg (by simp [Document.rootPlace])).symm

-- A document of the block's own is all that counts. Without one, rows and the value are looked for separately along
-- all paths, and a block without a title is found by its id only.
theorem binds_first (block : Block) (pageTitle id : Text) :
    (∀ own, block.data = some own → ∀ data,
      rows data block pageTitle id = (own.places.filter fun p => p.isElement && p.around = [own.root]) ∧
      scalar data block pageTitle id = (own.textAt? none id).getD []) ∧
    (block.data = none →
      (rows none block pageTitle id = [] ∧ scalar none block pageTitle id = []) ∧
      ∀ d : Document,
        rows (some d) block pageTitle id =
          ((allPaths pageTitle id block.title).find? (d.bears Place.isElement)).elim []
            (fun path => d.rowsAt (some path.1) path.2) ∧
        scalar (some d) block pageTitle id =
          ((allPaths pageTitle id block.title).find? (d.bears Place.isText)).elim []
            (fun path => (d.textAt? (some path.1) path.2).getD [])) ∧
    (block.title = [] → ∀ path ∈ paths pageTitle id block.title, path.2 = id) := by
  refine ⟨fun own ho data => ?_, fun hb => ⟨?_, fun d => ?_⟩, fun ht => ?_⟩
  case refine_1 => exact ⟨(rows_of_data ho ..).trans (outermostRows_eq own), scalar_of_data ho ..⟩
  case refine_2 => simp [rows, scalar, hb]
  case refine_3 =>
    simp only [rows, scalar, hb]
    rw [firstRows_eq, find?_allPaths, findSome?_eq (isSome_textAt? d), find?_allPaths]
    refine ⟨rfl, ?_⟩
    cases (allPaths pageTitle id block.title).find? (d.bears Place.isText) <;> rfl
  case refine_4 => simp [paths, ht]

def visits : Document :=
  let row : Content := .element ⟨lit "row", []⟩ .nil .nil
  let own : Content := .element ⟨lit "visitors", []⟩ (.text (lit "57") .nil) .nil
  let shared : Content := .element ⟨lit "visitors", []⟩ row .nil
  .of ⟨⟨lit "data", []⟩, .element ⟨lit "main", []⟩ own (.element ⟨lit "default", []⟩ shared .nil)⟩

def visitors : Block := { kind := lit "x", title := lit "Visitors" }

def ownVisitors : Block := { kind := lit "x", data := some visits }

theorem binds_first_visits :
    (rows (some visits) visitors (lit "Main") (lit "visitors_1")).map (·.number) = [7] ∧
    scalar (some visits) visitors (lit "Main") (lit "visitors_1") = lit "57" ∧
    (rows none ownVisitors (lit "Home") (lit "_x")).map (·.number) = [2, 5] ∧
    paths (lit "Main") (lit "_x") ownVisitors.title = [(lit "main", lit "_x"), (lit "default", lit "_x")] ∧
    ∀ path ∈ paths (lit "Main") (lit "_x") ownVisitors.title, path.2 = lit "_x" := by
  have ⟨_, ambient, _⟩ := binds_first visitors (lit "Main") (lit "visitors_1")
  have ⟨_, found⟩ := ambient rfl
  have ⟨rows, scalar⟩ := found visits
  have ⟨own, _, _⟩ := binds_first ownVisitors (lit "Home") (lit "_x")
  have ⟨ownRows, _⟩ := own visits rfl none
  have ⟨_, _, untitled⟩ := binds_first ownVisitors (lit "Main") (lit "_x")
  exact ⟨by rw [rows]; decide, by rw [scalar]; decide, by rw [ownRows]; decide, by decide, untitled rfl⟩

end Binding
end WikiPages
