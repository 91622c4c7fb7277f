import Mathlib
import WikiPages.Xml.Reader
import WikiPages.Xml.Tree

namespace WikiPages.Xml

open Relation Text

variable {s inner next : Source} {c : Content} {t : DataTree} {context : Option Text} {name : Text}
  {parent number n m : Nat}

namespace Content

def heads : (number : Nat) → Content → List Nat
  | _, nil                       => []
  | number, text _ next          => number :: next.heads (number + 1)
  | number, element _ inner next => number :: next.heads (number + 1 + inner.size)

def copied (parent : Nat) : (number : Nat) → Content → List DataNode
  | _, nil => []
  | number, text s next => { kind := .text, text := s, parent } :: next.copied parent (number + 1)
  | number, element tag inner next =>
    { kind := .element, name := tag.name, attributes := tag.attributes, children := inner.heads (number + 1), parent } ::
      (inner.copied number (number + 1) ++ next.copied parent (number + 1 + inner.size))

theorem length_copied (c : Content) (parent number : Nat) : (c.copied parent number).length = c.size := by
  induction c generalizing parent number
  case nil => rfl
  case text hi => rw [copied, List.length_cons, hi, size]
  case element hi hn =>
    rw [copied, List.length_cons, List.length_append, hi, hn, size]
    omega

theorem le_of_mem_heads (h : n ∈ c.heads number) : number ≤ n := by
  induction c generalizing number
  case nil => cases h
  case text hi =>
    rcases List.mem_cons.mp h with rfl | h
    · exact Nat.le_refl _
    · exact Nat.le_of_succ_le (hi h)
  case element hn =>
    rcases List.mem_cons.mp h with rfl | h
    · exact Nat.le_refl _
    · have := hn h
      omega

theorem ascending_heads (c : Content) (number : Nat) : (c.heads number).Pairwise (· < ·) := by
  induction c generalizing number
  case nil => exact .nil
  case text hi => exact .cons (fun _ h => le_of_mem_heads h) (hi _)
  case element hn =>
    refine .cons (fun n h => ?_) (hn _)
    have := le_of_mem_heads h
    omega

end Content

namespace DataTree

theorem modify_behind (front back : List DataNode) (node : DataNode) (f : DataNode → DataNode) :
    (front ++ node :: back).modify front.length f = front ++ f node :: back := by
  induction front
  case nil => rfl
  case cons hi => exact congrArg _ hi

theorem copy_eq (parent : Nat) (s : Source) (t : DataTree) :
    copy parent s t = (s.content.heads t.size, ⟨t.nodes ++ s.content.copied parent t.size⟩) := by
  induction s generalizing parent t
  case nil => simp [copy, Source.content, Content.heads, Content.copied]
  case remark hi => exact hi parent t
  case text s next hi =>
    have size (node : DataNode) : (t.push node).size = t.size + 1 := List.length_append
    rw [copy, hi, size]
    simp [push, Source.content, Content.heads, Content.copied]
  case element tag inner next hi hn =>
    have size (node : DataNode) : (t.push node).size = t.size + 1 := List.length_append
    have filled (node : DataNode) (back : List DataNode) (children : List Nat) :
        setChildren ⟨(t.push node).nodes ++ back⟩ t.size children =
          ⟨t.nodes ++ { node with children } :: back⟩ := by
      rw [setChildren, push, List.append_assoc]
      exact congrArg DataTree.mk (modify_behind ..)
    have behind (node : DataNode) : (DataTree.mk (t.nodes ++ node :: inner.content.copied t.size (t.size + 1))).size =
        t.size + 1 + inner.content.size := by
      rw [DataTree.size, List.length_append, List.length_cons, Content.length_copied, ← DataTree.size]
      omega
    rw [copy, hi, size]
    dsimp only
    rw [filled, hn, behind, List.append_assoc]
    rfl

-- The tree holds some content from a number on, directly inside a node.
def Holds (t : DataTree) (parent : Nat) : (number : Nat) → Content → Prop
  | _, .nil => True
  | number, .text s next =>
    t.nodes[number]? = some { kind := .text, text := s, parent } ∧ t.Holds parent (number + 1) next
  | number, .element tag inner next =>
    t.nodes[number]? = some { kind := .element, name := tag.name, attributes := tag.attributes
                              children := inner.heads (number + 1), parent } ∧
      t.Holds number (number + 1) inner ∧ t.Holds parent (number + 1 + inner.size) next

theorem prefix_drop_append {a b nodes : List DataNode} (h : a ++ b <+: nodes.drop n) :
    a <+: nodes.drop n ∧ b <+: nodes.drop (n + a.length) := by
  refine ⟨(List.prefix_append a b).trans h, ?_⟩
  have := h.drop a.length
  rwa [List.drop_left, List.drop_drop] at this

theorem holds_of_prefix (h : c.copied parent number <+: t.nodes.drop number) : t.Holds parent number c := by
  have first {node : DataNode} {rest : List DataNode} {number : Nat} (h : node :: rest <+: t.nodes.drop number) :
      t.nodes[number]? = some node ∧ rest <+: t.nodes.drop (number + 1) := by
    have ⟨one, rest⟩ := prefix_drop_append (List.singleton_append ▸ h)
    have ⟨_, he⟩ := one
    exact ⟨by rw [← List.head?_drop, ← he]; rfl, rest⟩
  induction c generalizing parent number
  case nil => exact trivial
  case text hi =>
    have ⟨here, behind⟩ := first h
    exact ⟨here, hi behind⟩
  case element hi hn =>
    have ⟨here, h⟩ := first h
    have ⟨inside, behind⟩ := prefix_drop_append h
    rw [Content.length_copied] at behind
    exact ⟨here, hi inside, hn behind⟩

theorem nodes_tree (d : Document) :
    d.tree.nodes = { kind := .root, children := [1] } :: d.content.copied 0 1 := by
  have : (push {} { kind := .root }).size = 1 := rfl
  rw [Document.tree, copy_eq, d.content_source]
  rfl

theorem size_tree (d : Document) : d.tree.size = d.content.size + 1 := by
  rw [size, nodes_tree, List.length_cons, Content.length_copied]

theorem holds_tree (d : Document) : d.tree.Holds 0 1 d.content :=
  holds_of_prefix (by rw [nodes_tree]; exact List.prefix_rfl)

theorem getElem?_tree_zero (d : Document) :
    d.tree.nodes[0]? = some { kind := .root, children := [1] } := by
  rw [nodes_tree]
  rfl

section

variable {node : DataNode} (here : t.nodes[n]? = some node)

include here

theorem children_of_getElem? : t.children n = node.children := by
  rw [children, here, Option.map_some, Option.getD_some]

theorem parent?_of_getElem? : t.parent? n = node.parent := by
  rw [parent?, here, Option.bind_some]

theorem name?_of_getElem? : t.name? n = if node.kind = .element then some node.name else none := by
  rw [name?, here, Option.bind_some]

theorem text_of_getElem? : t.text n = node.text := by
  rw [text, here, Option.map_some, Option.getD_some]

theorem isElement_of_getElem? : t.isElement n = decide (node.kind = .element) := by
  rw [isElement, kind?, here, Option.map_some]
  exact decide_eq_decide.mpr Option.some_inj

theorem isText_of_getElem? : t.isText n = decide (node.kind = .text) := by
  rw [isText, kind?, here, Option.map_some]
  exact decide_eq_decide.mpr Option.some_inj

end

-- Whether a node is inside another one, at some depth, or the same.
def Encloses (t : DataTree) (n m : Nat) : Prop := ReflTransGen (fun n child => child ∈ t.children n) n m

theorem encloses_iff : t.Encloses n m ↔ n = m ∨ ∃ child ∈ t.children n, t.Encloses child m :=
  ReflTransGen.cases_head_iff.trans (or_congr_right (exists_congr fun _ => Iff.rfl))

section

variable (holds : t.Holds parent number c)

include holds

theorem parent?_of_mem_heads (h : n ∈ c.heads number) : t.parent? n = some parent := by
  induction c generalizing number
  case nil => cases h
  case text hi =>
    rcases List.mem_cons.mp h with rfl | h
    · exact parent?_of_getElem? holds.1
    · exact hi holds.2 h
  case element hn =>
    rcases List.mem_cons.mp h with rfl | h
    · exact parent?_of_getElem? holds.1
    · exact hn holds.2.2 h

theorem inside_of_holds (from_ : number ≤ n) (upTo : n < number + c.size) :
    (t.children n).Pairwise (· < ·) ∧ ∀ child ∈ t.children n, n < child ∧ t.parent? child = some n := by
  induction c generalizing parent number
  case nil => exact absurd upTo (Nat.not_lt.mpr from_)
  case text hi =>
    rcases Nat.eq_or_lt_of_le from_ with rfl | behind
    · rw [children_of_getElem? holds.1]
      exact ⟨.nil, nofun⟩
    · exact hi holds.2 behind (by rw [Content.size] at upTo; omega)
  case element tag inner next hi hn =>
    rcases Nat.eq_or_lt_of_le from_ with rfl | behind
    · rw [children_of_getElem? holds.1]
      refine ⟨Content.ascending_heads .., fun child h => ⟨Content.le_of_mem_heads h, parent?_of_mem_heads holds.2.1 h⟩⟩
    · rw [Content.size] at upTo
      by_cases inside : n < number + 1 + inner.size
      · exact hi holds.2.1 behind inside
      · exact hn holds.2.2 (by omega) (by omega)

theorem exists_encloses_iff : (∃ head ∈ c.heads number, t.Encloses head m) ↔ number ≤ m ∧ m < number + c.size := by
  induction c generalizing parent number
  case nil =>
    refine iff_of_false (fun ⟨_, h, _⟩ => nomatch h) ?_
    rw [Content.size]
    omega
  case text next hi =>
    have none : t.children number = [] := children_of_getElem? holds.1
    rw [Content.heads, List.exists_mem_cons_iff, hi holds.2, encloses_iff, none, Content.size]
    simp only [List.not_mem_nil, false_and, exists_false, or_false]
    omega
  case element tag inner next hi hn =>
    rw [Content.heads, List.exists_mem_cons_iff, hn holds.2.2, encloses_iff, children_of_getElem? holds.1, hi holds.2.1,
      Content.size]
    omega

end

def ownText (t : DataTree) (n : Nat) : Text := if t.isText n then t.text n else []

theorem flatMap_textInside (holds : t.Holds parent number c) {levels : Nat} (deep : c.size ≤ levels) :
    (c.heads number).flatMap (fun child => if t.isText child then t.text child else t.textInside levels child) =
      (List.range' number c.size).flatMap t.ownText := by
  induction c generalizing parent number levels
  case nil => rfl
  case text next hi =>
    have own : t.isText number = true := isText_of_getElem? holds.1
    rw [Content.size] at deep ⊢
    rw [Content.heads, List.flatMap_cons, if_pos own, hi holds.2 (Nat.le_of_succ_le deep), List.range'_succ,
      List.flatMap_cons, ownText, if_pos own]
  case element tag inner next hi hn =>
    have own : t.isText number = false := isText_of_getElem? holds.1
    rw [Content.size] at deep ⊢
    obtain ⟨levels, rfl⟩ : ∃ fewer, levels = fewer + 1 := ⟨levels - 1, by omega⟩
    have inside : t.textInside (levels + 1) number = (List.range' (number + 1) inner.size).flatMap t.ownText := by
      rw [textInside, children_of_getElem? holds.1]
      exact hi holds.2.1 (by omega)
    have numbers : List.range' number (inner.size + 1 + next.size) =
        number :: (List.range' (number + 1) inner.size ++ List.range' (number + 1 + inner.size) next.size) := by
      rw [Nat.add_right_comm, List.range'_succ, ← List.range'_append_1]
    rw [Content.heads, List.flatMap_cons, if_neg (Bool.eq_false_iff.mp own), inside, hn holds.2.2 (by omega), numbers,
      List.flatMap_cons, List.flatMap_append, ownText, if_neg (Bool.eq_false_iff.mp own), List.nil_append]

end DataTree

inductive Item where
  | document
  | element (tag : Tag)
  | text (t : Text)
  deriving DecidableEq

def DataNode.item (node : DataNode) : Item :=
  match node.kind with
  | .root    => .document
  | .element => .element ⟨node.name, node.attributes⟩
  | .text    => .text node.text

-- The nodes from left to right as they begin, each with the number of nodes inside it. Remarks are left out.
def Source.listed : Source → List (Item × Nat)
  | nil                    => []
  | text t next            => (.text t, 0) :: next.listed
  | element tag inner next => (.element tag, inner.listed.length) :: (inner.listed ++ next.listed)
  | remark next            => next.listed

def Document.listed (d : Document) : List (Item × Nat) := (.document, d.source.listed.length) :: d.source.listed

namespace Source

variable {item : Item} {i k : Nat}

theorem length_listed (s : Source) : s.listed.length = s.content.size := by
  induction s
  case nil => rfl
  case text hi => exact congrArg Nat.succ hi
  case remark hi => exact hi
  case element hi hn =>
    rw [listed, content, Content.size, List.length_cons, List.length_append, hi, hn]
    omega

theorem map_item_copied (s : Source) (parent number : Nat) :
    (s.content.copied parent number).map DataNode.item = s.listed.map (·.1) := by
  induction s generalizing parent number
  case nil => rfl
  case text hi => exact congrArg _ (hi ..)
  case remark hi => exact hi ..
  case element hi hn =>
    rw [content, Content.copied, listed, List.map_cons, List.map_cons, List.map_append, List.map_append, hi, hn]
    rfl

theorem listed_element_cases {tag : Tag} (h : (element tag inner next).listed[i]? = some (item, k)) :
    (i = 0 ∧ k = inner.content.size) ∨ (∃ j, i = j + 1 ∧ inner.listed[j]? = some (item, k)) ∨
      ∃ j, i = 1 + inner.content.size + j ∧ next.listed[j]? = some (item, k) := by
  rw [listed] at h
  cases i
  case zero =>
    cases h
    exact .inl ⟨rfl, inner.length_listed⟩
  case succ i =>
    rw [List.getElem?_cons_succ, List.getElem?_append] at h
    split at h
    case isTrue => exact .inr (.inl ⟨i, rfl, h⟩)
    case isFalse behind =>
      refine .inr (.inr ⟨i - inner.listed.length, ?_, h⟩)
      have := inner.length_listed
      omega

theorem encloses_of_listed (holds : t.Holds parent number s.content) (h : s.listed[i]? = some (item, k)) :
    t.Encloses (number + i) m ↔ number + i ≤ m ∧ m ≤ number + i + k := by
  induction s generalizing parent number i
  case nil => cases h
  case remark hi => exact hi holds h
  case text hi =>
    cases i
    case zero =>
      cases h
      have none : t.children number = [] := DataTree.children_of_getElem? holds.1
      rw [DataTree.encloses_iff, Nat.add_zero, none]
      simp only [List.not_mem_nil, false_and, exists_false, or_false]
      omega
    case succ i =>
      rw [show number + (i + 1) = number + 1 + i by omega]
      exact hi holds.2 h
  case element hi hn =>
    rcases listed_element_cases h with ⟨rfl, rfl⟩ | ⟨j, rfl, inside⟩ | ⟨j, rfl, behind⟩
    · rw [DataTree.encloses_iff, Nat.add_zero, DataTree.children_of_getElem? holds.1,
        DataTree.exists_encloses_iff holds.2.1]
      omega
    · rw [show number + (j + 1) = number + 1 + j by omega]
      exact hi holds.2.1 inside
    · rw [← Nat.add_assoc, ← Nat.add_assoc]
      exact hn holds.2.2 behind

theorem textContent_of_listed (holds : t.Holds parent number s.content) (deep : s.content.size < t.size)
    (h : s.listed[i]? = some (item, k)) :
    t.textContent (number + i) = (List.range' (number + i) (k + 1)).flatMap t.ownText := by
  induction s generalizing parent number i
  case nil => cases h
  case remark hi => exact hi holds deep h
  case text hi =>
    cases i
    case zero =>
      cases h
      have own : t.isText number = true := DataTree.isText_of_getElem? holds.1
      rw [DataTree.textContent, Nat.add_zero, if_pos own, List.range'_one, List.flatMap_singleton, DataTree.ownText,
        if_pos own]
    case succ i =>
      rw [show number + (i + 1) = number + 1 + i by omega]
      exact hi holds.2 (Nat.lt_of_succ_lt deep) h
  case element inner next hi hn =>
    rw [content, Content.size] at deep
    rcases listed_element_cases h with ⟨rfl, rfl⟩ | ⟨j, rfl, inside⟩ | ⟨j, rfl, behind⟩
    · have own : t.isText number = false := DataTree.isText_of_getElem? holds.1
      obtain ⟨levels, hl⟩ : ∃ levels, t.size = levels + 1 := ⟨t.size - 1, by omega⟩
      rw [DataTree.textContent, Nat.add_zero, if_neg (Bool.eq_false_iff.mp own), hl, DataTree.textInside,
        DataTree.children_of_getElem? holds.1, DataTree.flatMap_textInside holds.2.1 (by omega), List.range'_succ,
        List.flatMap_cons, DataTree.ownText, if_neg (Bool.eq_false_iff.mp own), List.nil_append]
    · rw [show number + (j + 1) = number + 1 + j by omega]
      exact hi holds.2.1 (by omega) inside
    · rw [← Nat.add_assoc, ← Nat.add_assoc]
      exact hn holds.2.2 (by omega) behind

end Source

namespace DataTree

variable {numbers numbers' : List Nat}

theorem mem_insert : m ∈ insert n numbers ↔ m = n ∨ m ∈ numbers := by
  induction numbers
  case nil => exact List.mem_cons
  case cons k numbers hi =>
    rw [insert]
    split
    · exact List.mem_cons
    · split
      case isTrue he => simp [he]
      case isFalse => rw [List.mem_cons, hi, List.mem_cons, or_left_comm]

theorem ascending_insert (h : numbers.Pairwise (· < ·)) : (insert n numbers).Pairwise (· < ·) := by
  induction numbers
  case nil => exact List.pairwise_singleton ..
  case cons m numbers hi =>
    have ⟨behind, h'⟩ := List.pairwise_cons.mp h
    rw [insert]
    split
    case isTrue hlt => exact .cons (List.forall_mem_cons.mpr ⟨hlt, fun k hk => Nat.lt_trans hlt (behind k hk)⟩) h
    case isFalse hle =>
      split
      case isTrue => exact h
      case isFalse hne =>
        refine .cons (fun k hk => ?_) (hi h')
        rcases mem_insert.mp hk with rfl | hk
        · omega
        · exact behind k hk

theorem mem_inOrder : n ∈ inOrder numbers ↔ n ∈ numbers := by
  induction numbers
  case nil => exact Iff.rfl
  case cons hi => rw [inOrder, List.foldr_cons, mem_insert, ← inOrder, hi, List.mem_cons]

theorem ascending_inOrder (numbers : List Nat) : (inOrder numbers).Pairwise (· < ·) := by
  induction numbers
  case nil => exact .nil
  case cons hi => exact ascending_insert hi

theorem eq_of_ascending (h : numbers.Pairwise (· < ·)) (h' : numbers'.Pairwise (· < ·))
    (hm : ∀ n, n ∈ numbers ↔ n ∈ numbers') : numbers = numbers' :=
  List.Perm.eq_of_pairwise (fun _ _ _ _ hlt hgt => absurd hlt (Nat.lt_asymm hgt)) h h'
    ((List.perm_ext_iff_of_nodup (h.imp Nat.ne_of_lt) (h'.imp Nat.ne_of_lt)).mpr hm)

theorem min?_eq_head?_inOrder (numbers : List Nat) : numbers.min? = (inOrder numbers).head? := by
  cases ho : inOrder numbers
  case nil =>
    have none : numbers = [] := List.eq_nil_iff_forall_not_mem.mpr fun n hn => by
      have := mem_inOrder.mpr hn
      rw [ho] at this
      cases this
    rw [none]
    rfl
  case cons n rest =>
    have ascending := ascending_inOrder numbers
    rw [ho] at ascending
    rw [List.head?_cons, List.min?_eq_some_iff]
    refine ⟨mem_inOrder.mp (ho ▸ List.mem_cons_self), fun m hm => ?_⟩
    rcases List.mem_cons.mp (ho ▸ mem_inOrder.mpr hm) with rfl | hm
    · exact Nat.le_refl _
    · exact Nat.le_of_lt (List.rel_of_pairwise_cons ascending hm)

theorem lt_size_of_parent? (h : t.parent? n = some parent) : n < t.size := by
  have ⟨_, here, _⟩ := Option.bind_eq_some_iff.mp h
  exact (List.getElem?_eq_some_iff.mp here).1

theorem isElement_of_name? (h : t.name? n = some name) : n < t.size ∧ t.isElement n = true := by
  have ⟨node, here, hn⟩ := Option.bind_eq_some_iff.mp h
  have ⟨kind, _⟩ := Option.ite_none_right_eq_some.mp hn
  exact ⟨(List.getElem?_eq_some_iff.mp here).1, isElement_of_getElem? here ▸ decide_eq_true kind⟩

-- Whether what a node is directly inside of is an element of a name, which is inside one named `context` if that is
-- given.
def isUnder (t : DataTree) (context : Option Text) (name : Text) (n : Nat) : Bool :=
  (t.parent? n).any fun p =>
    t.name? p = some name && context.all fun context => (t.parent? p).any fun outer => t.name? outer = some context

theorem mem_elementsAt : n ∈ t.elementsAt context name ↔ t.name? n = some name ∧
    context.all (fun context => (t.parent? n).any fun outer => t.name? outer = some context) = true := by
  have named {n : Nat} {name : Text} : (t.isElement n && t.name? n = some name) = decide (t.name? n = some name) := by
    by_cases h : t.name? n = some name
    · rw [(isElement_of_name? h).2, Bool.true_and]
    · rw [decide_eq_false h, Bool.and_false]
  simp only [elementsAt, List.mem_filter, List.mem_range, named, decide_eq_true_eq]
  cases context
  case none => exact ⟨fun h => ⟨h.1.2, rfl⟩, fun h => ⟨⟨(isElement_of_name? h.1).1, h.1⟩, rfl⟩⟩
  case some context =>
    exact ⟨fun h => ⟨h.1.2, h.2⟩, fun h => ⟨⟨(isElement_of_name? h.1).1, h.1⟩, h.2⟩⟩

theorem inOrder_flatMap_elementsAt (linked : ∀ n m, m ∈ t.children n ↔ t.parent? m = some n) (keep : Nat → Bool)
    (context : Option Text) (name : Text) :
    inOrder ((t.elementsAt context name).flatMap fun n => (t.children n).filter keep) =
      (List.range t.size).filter fun n => keep n && t.isUnder context name n := by
  refine eq_of_ascending (ascending_inOrder _) (List.pairwise_lt_range.filter _) fun n => ?_
  simp only [mem_inOrder, List.mem_flatMap, mem_elementsAt, List.mem_filter, linked, List.mem_range, isUnder,
    Bool.and_eq_true, Option.any_eq_true, decide_eq_true_eq]
  constructor
  · rintro ⟨p, hp, hn, hk⟩
    exact ⟨lt_size_of_parent? hn, hk, p, hn, hp⟩
  · rintro ⟨_, hk, p, hn, hp⟩
    exact ⟨p, hp, hn, hk⟩

-- What is said of the numbers of the nodes of a document.
structure InOrder (t : DataTree) (d : Document) : Prop where
  -- The nodes are numbered from left to right as they begin.
  items     : t.nodes.map DataNode.item = d.listed.map (·.1)
  top       : t.parent? 0 = none
  -- Every other node is in the child list of its parent, there once, and in no other.
  placed    : ∀ n, 0 < n → n < t.size → ∃ parent < n, t.parent? n = some parent ∧ (t.children parent).count n = 1 ∧
    ∀ other, n ∈ t.children other → other = parent
  ascending : ∀ n, (t.children n).Pairwise (· < ·)
  -- What a node encloses has the numbers that follow on its own.
  enclosed  : ∀ n item k, d.listed[n]? = some (item, k) → ∀ m, t.Encloses n m ↔ n ≤ m ∧ m ≤ n + k

section

variable (d : Document)

theorem holds_source : d.tree.Holds 0 1 d.source.content :=
  d.content_source ▸ holds_tree d

theorem size_eq : d.tree.size = d.source.content.size + 1 := by
  rw [size_tree, d.content_source]

theorem children_zero : d.tree.children 0 = [1] :=
  children_of_getElem? (getElem?_tree_zero d)

theorem parent?_zero : d.tree.parent? 0 = none :=
  parent?_of_getElem? (getElem?_tree_zero d)

theorem inside_tree (n : Nat) : (d.tree.children n).Pairwise (· < ·) ∧
    ∀ child ∈ d.tree.children n, n < child ∧ d.tree.parent? child = some n := by
  rcases Nat.eq_zero_or_pos n with rfl | pos
  case inl =>
    rw [children_zero]
    refine ⟨List.pairwise_singleton .., List.forall_mem_singleton.mpr ⟨Nat.one_pos, ?_⟩⟩
    exact parent?_of_mem_heads (holds_tree d) List.mem_cons_self
  case inr =>
    by_cases within : n < 1 + d.content.size
    case pos => exact inside_of_holds (holds_tree d) pos within
    case neg =>
      have beyond : d.tree.nodes[n]? = none := by
        rw [List.getElem?_eq_none_iff, ← size, size_tree]
        omega
      rw [children, beyond]
      exact ⟨.nil, nofun⟩

theorem encloses_zero_iff : d.tree.Encloses 0 m ↔ m < d.tree.size := by
  have reached := exists_encloses_iff (m := m) (holds_tree d)
  have top : d.content.heads 1 = [1] := rfl
  rw [top] at reached
  rw [encloses_iff, children_zero, reached, size_tree]
  omega

theorem exists_parent (pos : 0 < n) (within : n < d.tree.size) :
    ∃ parent, n ∈ d.tree.children parent := by
  rcases ReflTransGen.cases_tail ((encloses_zero_iff d).mpr within) with rfl | ⟨parent, _, h⟩
  · exact absurd pos (Nat.lt_irrefl _)
  · exact ⟨parent, h⟩

theorem mem_children_iff : m ∈ d.tree.children n ↔ d.tree.parent? m = some n := by
  refine ⟨fun h => ((inside_tree d n).2 m h).2, fun h => ?_⟩
  have pos : 0 < m := by
    refine Nat.pos_of_ne_zero fun he => ?_
    rw [he, parent?_zero] at h
    cases h
  have ⟨parent, hp⟩ := exists_parent d pos (lt_size_of_parent? h)
  cases h.symm.trans ((inside_tree d parent).2 m hp).2
  exact hp

theorem encloses_of_listed {item : Item} {k : Nat} (h : d.listed[n]? = some (item, k)) :
    d.tree.Encloses n m ↔ n ≤ m ∧ m ≤ n + k := by
  cases n
  case zero =>
    cases h
    rw [encloses_zero_iff, size_eq, Source.length_listed]
    omega
  case succ n =>
    rw [Nat.add_comm n]
    exact Source.encloses_of_listed (holds_source d) h

theorem textContent_of_listed {item : Item} {k : Nat} (h : d.listed[n]? = some (item, k)) :
    d.tree.textContent n = (List.range' n (k + 1)).flatMap d.tree.ownText := by
  cases n
  case zero =>
    cases h
    have own : d.tree.isText 0 = false := isText_of_getElem? (getElem?_tree_zero d)
    have inside := flatMap_textInside (holds_tree d) (Nat.le_refl _)
    have top : d.content.heads 1 = [1] := rfl
    rw [top] at inside
    rw [textContent, if_neg (Bool.eq_false_iff.mp own), size_tree, textInside, children_zero, inside,
      List.range'_succ, List.flatMap_cons, ownText, if_neg (Bool.eq_false_iff.mp own), Source.length_listed,
      d.content_source]
    rfl
  case succ n =>
    rw [Nat.add_comm n]
    exact Source.textContent_of_listed (holds_source d) (size_eq d ▸ Nat.lt_succ_self _) h

theorem map_item : d.tree.nodes.map DataNode.item = d.listed.map (·.1) := by
  rw [nodes_tree, ← d.content_source, List.map_cons, Source.map_item_copied]
  rfl

theorem inOrder_tree : d.tree.InOrder d where
  items     := map_item d
  top       := parent?_zero d
  placed    := by
    intro n pos within
    have ⟨parent, h⟩ := exists_parent d pos within
    have ⟨ascending, behind⟩ := inside_tree d parent
    have ⟨before, hp⟩ := behind n h
    refine ⟨parent, before, hp, List.count_eq_one_of_mem (ascending.imp Nat.ne_of_lt) h, fun other ho => ?_⟩
    exact Option.some.inj (((mem_children_iff d).mp ho).symm.trans hp)
  ascending := fun n => (inside_tree d n).1
  enclosed  := fun _ _ _ h _ => encloses_of_listed d h

theorem rowsAt_tree (context : Option Text) (name : Text) : d.tree.rowsAt context name =
    (List.range d.tree.size).filter fun n =>
      d.tree.isElement n && d.tree.isUnder context name n :=
  inOrder_flatMap_elementsAt (fun _ _ => mem_children_iff d) d.tree.isElement context name

theorem textAt?_tree (context : Option Text) (name : Text) : d.tree.textAt? context name =
    ((List.range d.tree.size).find? fun n =>
      d.tree.isText n && d.tree.isUnder context name n).map d.tree.text := by
  rw [textAt?, min?_eq_head?_inOrder, inOrder_flatMap_elementsAt (fun _ _ => mem_children_iff d), List.head?_filter]
  refine Option.map_congr fun n hn => ?_
  have own := List.find?_some hn
  rw [Bool.and_eq_true] at own
  rw [textContent, if_pos own.1]

end

end DataTree

namespace Document

-- Whatever document a reader gives: the nodes of its tree are numbered as they begin, each is in one child list, and
-- what it encloses follows on it. Rows and texts are found in this order, and the text of a node is that of its range.
theorem tree_inOrder (d : Document) :
    d.tree.InOrder d ∧
    (∀ context name, d.tree.rowsAt context name =
      (List.range d.tree.size).filter fun n => d.tree.isElement n && d.tree.isUnder context name n) ∧
    (∀ context name, d.tree.textAt? context name =
      ((List.range d.tree.size).find? fun n => d.tree.isText n && d.tree.isUnder context name n).map d.tree.text) ∧
    ∀ n item k, d.listed[n]? = some (item, k) →
      d.tree.textContent n = (List.range' n (k + 1)).flatMap d.tree.ownText :=
  ⟨DataTree.inOrder_tree d, DataTree.rowsAt_tree d, DataTree.textAt?_tree d, fun _ _ _ =>
    DataTree.textContent_of_listed d⟩

def nested : Text :=
  lit "<!-- . --><t>a<!-- a -->b<r><t>c<s/></t></r><?d d?><r/>e<![CDATA[f]]></t><?e?>"

def nestedDocument : Document where
  tag    := { name := lit "t" }
  inner  :=
    let inside : Source := .text (lit "c") (.element { name := lit "s" } .nil .nil)
    let row : Source → Source :=
      .element { name := lit "r" } (.element { name := lit "t" } inside .nil)
    .text (lit "a") (.remark (.text (lit "b") (row (.remark (.element { name := lit "r" } .nil
      (.text (lit "ef") .nil))))))
  before := 1
  behind := 1

theorem tree_inOrder_nested : parse? nested = some nestedDocument ∧
    nestedDocument.tree.rowsAt none (lit "t") = [4, 7, 8] ∧
    nestedDocument.tree.textAt? (some (lit "r")) (lit "t") = some (lit "c") ∧
    nestedDocument.tree.textContent 1 = lit "abcef" := by
  have ⟨_, rows, text, content⟩ := tree_inOrder nestedDocument
  have listed : nestedDocument.listed[1]? = some (.element { name := lit "t" }, 8) := by decide
  refine ⟨by decide +kernel, ?_, ?_, ?_⟩
  · rw [rows]
    decide
  · rw [text]
    decide
  · rw [content 1 _ 8 listed]
    decide

end Document
end WikiPages.Xml
