import Mathlib.Data.List.DropRight
import WikiPages.Proofs.Page.Walk

namespace WikiPages.PageTree

open Text Visit

inductive Mark where
  | char (c : Char)
  | slot
  deriving DecidableEq

namespace Mark

def slotNext : List Mark → Bool
  | []              => false
  | slot :: _       => true
  | char c :: marks => isBlank c && slotNext marks

-- The text without the slots and the blank characters directly in front of each slot.
def erase : List Mark → Text
  | []              => []
  | slot :: marks   => erase marks
  | char c :: marks => if isBlank c && slotNext marks then erase marks else c :: erase marks

def chars : List Mark → Text :=
  List.filterMap fun | char c => some c | slot => none

def put (output : Text) : Mark → Text
  | char c => c :: output
  | slot   => output.dropWhile isBlank

theorem foldl_put_map_char (s output : Text) :
    (s.map char).foldl put output = s.reverse ++ output := by
  induction s generalizing output
  case nil => rfl
  case cons c s hi => simp [put, hi]

theorem trimEnd_eq_rdropWhile (s : Text) : trimEnd s = s.rdropWhile isBlank := rfl

theorem reverse_foldl_put (marks : List Mark) (output : Text) :
    (marks.foldl put output).reverse =
      (if slotNext marks then trimEnd output.reverse else output.reverse) ++ erase marks := by
  induction marks generalizing output
  case nil => simp [slotNext, erase]
  case cons mark marks hi =>
    rw [List.foldl_cons, hi]
    cases mark
    case slot =>
      have : (put output slot).reverse = trimEnd output.reverse := by simp [put, trimEnd]
      simp [this, slotNext, erase, trimEnd_eq_rdropWhile, List.rdropWhile_idempotent]
    case char c =>
      have : (put output (char c)).reverse = output.reverse ++ [c] := List.reverse_cons
      rw [this, trimEnd_eq_rdropWhile, List.rdropWhile_concat, slotNext, erase]
      cases slotNext marks <;> cases isBlank c <;> simp [trimEnd_eq_rdropWhile]

theorem reverse_foldl_put_nil (marks : List Mark) : (marks.foldl put []).reverse = erase marks := by
  rw [reverse_foldl_put]
  simp [trimEnd]

theorem filter_erase (marks : List Mark) :
    (erase marks).filter (!isBlank ·) = (chars marks).filter (!isBlank ·) := by
  induction marks
  case nil => rfl
  case cons mark marks hi =>
    cases mark
    case slot => simpa [erase, chars] using hi
    case char c =>
      simp only [erase]
      split <;> simp_all [chars, List.filter_cons]

end Mark

-- What a visit writes: entering a node its head, and leaving it, if it has a slot, the slot and the
-- tail.
def marks (t : PageTree) : Visit → List Mark
  | enter node => ((t.snippet? node).map (·.head)).getD [] |>.map .char
  | leave node =>
    match (t.snippet? node).bind (·.tail) with
    | none      => []
    | some tail => .slot :: tail.map .char

def written (t : PageTree) : Visit → Text
  | enter node => ((t.snippet? node).map (·.head)).getD []
  | leave node => ((t.snippet? node).bind (·.tail)).getD []

variable {t : PageTree} {n : Nat} {nodes : List Nat} {visits : List Visit}

theorem chars_flatMap_marks : Mark.chars (visits.flatMap t.marks) = visits.flatMap t.written := by
  have chars_map (s : Text) : Mark.chars (s.map .char) = s := by
    simp [Mark.chars, List.filterMap_map]
  have chars_append (a b : List Mark) : Mark.chars (a ++ b) = Mark.chars a ++ Mark.chars b :=
    List.filterMap_append ..
  induction visits
  case nil => rfl
  case cons visit visits hi =>
    rw [List.flatMap_cons, List.flatMap_cons, chars_append, hi]
    congr 1
    cases visit
    case enter node => exact chars_map _
    case leave node =>
      cases h : (t.snippet? node).bind (·.tail) <;> simp only [marks, written, h]
      case none => rfl
      case some tail => exact chars_map tail

theorem exists_snippet (h : n < t.size) : ∃ f, t.snippet? n = some f :=
  ⟨t.nodes[n].snippet, by rw [snippet?, List.getElem?_eq_getElem h, Option.map_some]⟩

-- The depth is never used up: nodes inside a node have greater numbers, and all of them are below
-- the size.
theorem Linked.foldl_write (l : t.Linked) (ho : t.Ordered) (w : t.Walk nodes visits) (depth : Nat) (output : Text)
    (hn : ∀ n ∈ nodes, n < t.size ∧ t.size ≤ n + depth) :
    nodes.foldl (fun output n => t.write depth n output) output =
      (visits.flatMap t.marks).foldl Mark.put output := by
  induction w generalizing depth output
  case done => rfl
  case node n rest inner after _ _ hi hi' =>
    have ⟨here, deep⟩ := hn n List.mem_cons_self
    have ⟨f, hf⟩ := exists_snippet here
    obtain ⟨depth, rfl⟩ : ∃ d, depth = d + 1 := ⟨depth - 1, by omega⟩
    have hi := hi depth (f.head.reverse ++ output) fun child hc => by
      have := ho (l.mem_children.mp hc)
      exact ⟨l.child_lt_size hc, by omega⟩
    rw [List.foldl_cons, hi' _ _ fun k hk => hn k (List.mem_cons_of_mem _ hk), List.flatMap_append,
      List.foldl_append, List.flatMap_cons, List.flatMap_cons, List.foldl_append, List.foldl_append]
    congr 1
    simp only [write, hf, hi, marks, Option.map_some, Option.getD_some, Option.bind_some,
      Mark.foldl_put_map_char]
    cases f.tail <;> simp [Mark.put, Mark.foldl_put_map_char]

theorem Linked.write_eq_erase_of_walk (l : t.Linked) (ho : t.Ordered) (w : t.Walk [0] visits) {depth : Nat}
    (hd : t.size ≤ depth) : (t.write depth 0 []).reverse = Mark.erase (visits.flatMap t.marks) := by
  have := l.foldl_write ho w depth [] fun n hn => by
    cases List.mem_singleton.mp hn
    exact ⟨t.size_pos, by omega⟩
  rw [List.foldl_cons, List.foldl_nil] at this
  rw [this, Mark.reverse_foldl_put_nil]

theorem Grown.render_eq_erase_of_walk (g : t.Grown) (w : t.Walk [0] visits) :
    t.render = Mark.erase (visits.flatMap t.marks) :=
  g.linked.write_eq_erase_of_walk g.ordered w (Nat.le_refl _)

-- The text of a page is that of the walk over its tree in which a mark stands in front of each tail,
-- once the marks are deleted together with the blank characters directly before them. The walk
-- visits each node once, so that no other character is lost, repeated or moved.
theorem render_eq_erase (g : Grown t) :
    (∃ visits, t.Walk [0] visits) ∧
    ∀ visits, t.Walk [0] visits →
      (entered visits).Perm (List.range t.size) ∧ (left visits).Perm (List.range t.size) ∧
      t.render = Mark.erase (visits.flatMap t.marks) ∧
      t.render.filter (!isBlank ·) = (visits.flatMap t.written).filter (!isBlank ·) := by
  have ⟨visits, w, he, hl⟩ := g.exists_walk
  have render := g.render_eq_erase_of_walk w
  refine ⟨⟨visits, w⟩, fun visits' w' => ?_⟩
  cases w.unique w'
  refine ⟨he, hl, render, ?_⟩
  rw [render, Mark.filter_erase, chars_flatMap_marks]

-- A slot that holds nothing but blanks reaches back over the end of the head around it.
def blankInside : PageTree :=
  ((ofRoot (.withSlot (lit "<a>\n") (lit "\n</a>"))).append 0
    (.withSlot (lit " ") (lit "\t"))).append 1 (.leaf (lit "\u00A0"))

theorem render_blankInside :
    blankInside.Grown ∧
    (∃ visits, blankInside.Walk [0] visits ∧
      blankInside.render = Mark.erase (visits.flatMap blankInside.marks)) ∧
    blankInside.render = lit "<a>\n</a>" := by
  have grown : blankInside.Grown := ((Grown.root _).append _ (by decide)).append _ (by decide)
  have ⟨⟨visits, w⟩, all⟩ := render_eq_erase grown
  exact ⟨grown, ⟨visits, w, (all visits w).2.2.1⟩, by decide⟩

end WikiPages.PageTree
