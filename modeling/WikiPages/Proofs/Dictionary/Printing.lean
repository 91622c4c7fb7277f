import Mathlib.Data.List.Find
import WikiPages.Proofs.Dictionary.Aliases
import WikiPages.Proofs.Text.Lines

namespace WikiPages.Dictionary

open Text

structure Field where
  name        : Text
  description : Option Text := none
  properties  : List (Text × Text) := []

namespace Field

def head (f : Field) : Text :=
  match f.description with
  | none      => lit "* " ++ f.name
  | some text => lit "* " ++ f.name ++ lit ": " ++ text

def propertyLine (p : Text × Text) : Text := lit "** " ++ p.1 ++ lit ": " ++ p.2

def lines (f : Field) : List Text := f.head :: f.properties.map propertyLine

def written (f : Field) : List ((Text × Text) × Text) :=
  (f.description.map fun text => ((f.name, Dictionary.description), text)).toList ++
    f.properties.map fun p => ((f.name, p.1), p.2)

-- What can be written so that it can be read.
structure Legible (f : Field) : Prop where
  name        : IsTrimmed f.name
  given       : f.name ≠ []
  noColon     : ':' ∉ f.name
  noEquals    : '=' ∉ f.name
  description : ∀ text ∈ f.description, IsTrimmed text
  keys        : ∀ p ∈ f.properties, IsTrimmed p.1 ∧ ':' ∉ p.1
  values      : ∀ p ∈ f.properties, IsTrimmed p.2

end Field

def isStarred (line : Text) : Bool := (line.dropWhile isBlank).head? == some '*'

def entry (written : (Text × Text) × Text) : (Text × Text) × Text :=
  ((fieldKey written.1.1, lowercase written.1.2), written.2)

def keep (d : Dictionary) (written : List ((Text × Text) × Text)) : Dictionary :=
  { d with values := (written.map entry).reverse ++ d.values }

variable {front text rest : Text} {r : Reading} {f : Field} {fields : List Field}

theorem keep_keep (d : Dictionary) (a b : List ((Text × Text) × Text)) : (d.keep a).keep b = d.keep (a ++ b) := by
  simp [keep]

theorem exists_trim_append (hf : IsTrimmed front) (hne : front ≠ []) (ht : IsTrimmed text) :
    ∃ rest, trim (front ++ ' ' :: text) = front ++ rest ∧ trim rest = text := by
  have blank : ∀ c ∈ [' '], isBlank c = true := by decide
  cases text
  case nil =>
    refine ⟨[], ?_, rfl⟩
    have := trim_within (a := []) (s := front) (fun _ hc => nomatch hc) blank
    rw [List.append_nil]
    exact this.trans hf.trim_eq
  case cons c text =>
    refine ⟨' ' :: c :: text, (hf.append hne ?_).trim_eq, ?_⟩
    · rw [List.getLast?_cons_cons]
      exact ht.last
    · have := trim_within (s := c :: text) (b := []) blank (fun _ hc => nomatch hc)
      rw [List.append_nil] at this
      exact this.trans ht.trim_eq

namespace Field.Legible

variable (l : f.Legible)
include l

theorem isNamePart : ∀ c ∈ ' ' :: f.name, (c != '=' && c != ':') = true := by
  have other {c : Char} (hc : c ∈ f.name) : c ≠ '=' ∧ c ≠ ':' :=
    ⟨fun he => l.noEquals (he ▸ hc), fun he => l.noColon (he ▸ hc)⟩
  refine List.forall_mem_cons.mpr ⟨rfl, fun c hc => ?_⟩
  simp [other hc]

theorem declare_name (d : Dictionary) : d.declare (' ' :: f.name) = (d, fieldKey f.name) := by
  simp only [declare, List.takeWhile_eq_self_iff.mpr l.isNamePart, List.dropWhile_eq_nil_iff.mpr l.isNamePart]
  rfl

theorem declare_described (d : Dictionary) (rest : Text) :
    d.declare (' ' :: f.name ++ ':' :: rest) =
      (d.set (fieldKey f.name) Dictionary.description (trim rest), fieldKey f.name) := by
  have stop : (':' != '=' && ':' != ':') = false := rfl
  simp only [declare, List.takeWhile_append_of_pos l.isNamePart, List.dropWhile_append_of_pos l.isNamePart,
    List.takeWhile_cons, List.dropWhile_cons, stop, Bool.false_eq_true, if_false, List.append_nil]
  rfl

end Field.Legible

namespace Reading

theorem line_of_unstarred (h : isStarred text = false) : r.line text = r := by
  have first : (trim text).head? ≠ some '*' := by
    intro hs
    have ⟨rest, hr⟩ := prefix_trimStart text
    have : (trimStart text).head? = some '*' := by rw [← hr, List.head?_append, hs, Option.some_or]
    rw [isStarred, show text.dropWhile isBlank = trimStart text from rfl, this] at h
    cases h
  rw [line]
  split
  case h_1 ht => exact absurd (congrArg List.head? ht) first
  case h_2 ht => exact absurd (congrArg List.head? ht) first
  case h_3 => rfl

theorem line_of_declaration (h : trim text = '*' :: ' ' :: rest) : r.line text =
    ⟨(r.dictionary.declare (' ' :: rest)).1, some (r.dictionary.declare (' ' :: rest)).2⟩ := by
  simp [line, h]

theorem line_head (l : f.Legible) : r.line f.head =
    ⟨r.dictionary.keep (f.description.map fun text => ((f.name, description), text)).toList,
      some (fieldKey f.name)⟩ := by
  cases hd : f.description
  case none =>
    have trimmed : IsTrimmed (lit "*" ++ ' ' :: f.name) := by
      refine IsTrimmed.append (by decide) (by decide) ?_
      have ⟨c, name, hn⟩ := List.exists_cons_of_ne_nil l.given
      rw [hn, List.getLast?_cons_cons, ← hn]
      exact l.name.last
    have read : trim f.head = '*' :: ' ' :: f.name := by
      rw [Field.head, hd]
      exact trimmed.trim_eq
    rw [line_of_declaration read, l.declare_name]
    rfl
  case some text =>
    have label : IsTrimmed ('*' :: (' ' :: f.name ++ [':'])) := isTrimmed_of_ends rfl rfl _
    have ⟨rest, ht, hr⟩ := exists_trim_append label (List.cons_ne_nil _ _) (l.description text hd)
    have read : trim f.head = '*' :: ' ' :: (f.name ++ ':' :: rest) := by
      have : f.head = '*' :: (' ' :: f.name ++ [':']) ++ ' ' :: text := by simp [Field.head, hd, lit]
      rw [this, ht]
      simp
    rw [line_of_declaration read, ← List.cons_append, l.declare_described, hr, set, fieldKey_fieldKey]
    rfl

theorem line_property {p : Text × Text} (hk : IsTrimmed p.1) (hc : ':' ∉ p.1) (hv : IsTrimmed p.2)
    (h : r.field = some (fieldKey f.name)) : r.line (Field.propertyLine p) =
      ⟨r.dictionary.keep [((f.name, p.1), p.2)], some (fieldKey f.name)⟩ := by
  have label : IsTrimmed ('*' :: ('*' :: ' ' :: p.1 ++ [':'])) := isTrimmed_of_ends rfl rfl _
  have ⟨rest, ht, hr⟩ := exists_trim_append label (List.cons_ne_nil _ _) hv
  have read : trim (Field.propertyLine p) = '*' :: '*' :: (' ' :: p.1 ++ ':' :: rest) := by
    have : Field.propertyLine p = '*' :: ('*' :: ' ' :: p.1 ++ [':']) ++ ' ' :: p.2 := by
      simp [Field.propertyLine, lit]
    rw [this, ht]
    simp
  have key : trim (' ' :: p.1) = p.1 := hk.trim_eq
  have free : ':' ∉ ' ' :: p.1 := List.not_mem_cons_of_ne_of_not_mem (by decide) hc
  rw [line, read]
  simp only [h, splitOnce?_of_free free, key, hr, set, fieldKey_fieldKey]
  rfl

theorem foldl_properties {properties : List (Text × Text)}
    (hk : ∀ p ∈ properties, IsTrimmed p.1 ∧ ':' ∉ p.1) (hv : ∀ p ∈ properties, IsTrimmed p.2)
    (h : r.field = some (fieldKey f.name)) : (properties.map Field.propertyLine).foldl line r =
      ⟨r.dictionary.keep (properties.map fun p => ((f.name, p.1), p.2)), some (fieldKey f.name)⟩ := by
  induction properties generalizing r
  case nil => rw [← h]; rfl
  case cons p properties hi =>
    have ⟨⟨trimmed, free⟩, hk⟩ := List.forall_mem_cons.mp hk
    have ⟨value, hv⟩ := List.forall_mem_cons.mp hv
    rw [List.map_cons, List.foldl_cons, line_property trimmed free value h, hi hk hv rfl, keep_keep]
    rfl

theorem foldl_lines (l : f.Legible) (r : Reading) :
    f.lines.foldl line r = ⟨r.dictionary.keep f.written, some (fieldKey f.name)⟩ := by
  rw [Field.lines, List.foldl_cons, line_head l, foldl_properties l.keys l.values rfl, keep_keep]
  rfl

theorem foldl_fields (l : ∀ f ∈ fields, f.Legible) (r : Reading) :
    ((fields.flatMap Field.lines).foldl line r).dictionary = r.dictionary.keep (fields.flatMap Field.written) := by
  induction fields generalizing r
  case nil => rfl
  case cons f fields hi =>
    have ⟨first, others⟩ := List.forall_mem_cons.mp l
    rw [List.flatMap_cons, List.foldl_append, foldl_lines first, hi others, keep_keep, List.flatMap_cons]

theorem foldl_filter (written : List Text) (r : Reading) :
    (written.filter isStarred).foldl line r = written.foldl line r := by
  rw [List.foldl_filter]
  congr
  funext r text
  cases h : isStarred text
  case true => rfl
  case false => exact (line_of_unstarred h).symm

end Reading

theorem parse_eq_keep (l : ∀ f ∈ fields, f.Legible)
    (h : (lines text).filter isStarred = fields.flatMap Field.lines) :
    parse text = ({} : Dictionary).keep (fields.flatMap Field.written) := by
  rw [parse, ← Reading.foldl_filter, h, Reading.foldl_fields l]

theorem lookup_map_entry (written : List ((Text × Text) × Text)) (key : Text × Text) :
    (written.map entry).lookup key = (written.find? fun w => key == (entry w).1).map Prod.snd := by
  induction written
  case nil => rfl
  case cons w written hi =>
    rw [List.map_cons, List.lookup_cons, List.find?_cons, hi]
    cases key == (entry w).1 <;> rfl

def isFor (field property : Text) (written : (Text × Text) × Text) : Bool :=
  lowercase written.1.1 = lowercase (trim field) ∧ lowercase written.1.2 = lowercase property

theorem isFor_eq {w : (Text × Text) × Text} (l : ∀ f ∈ fields, f.Legible) (hw : w ∈ fields.flatMap Field.written)
    (field property : Text) : ((fieldKey field, lowercase property) == (entry w).1) = isFor field property w := by
  have ⟨f, hf, hm⟩ := List.mem_flatMap.mp hw
  have name : w.1.1 = f.name := by
    rcases List.mem_append.mp hm with hm | hm
    · have ⟨text, _, he⟩ := Option.map_eq_some_iff.mp (Option.mem_toList.mp hm)
      rw [← he]
    · have ⟨p, _, he⟩ := List.mem_map.mp hm
      rw [← he]
  have : fieldKey w.1.1 = lowercase w.1.1 := by rw [fieldKey, name, (l f hf).name.trim_eq]
  rw [entry, this, isFor, fieldKey, Bool.eq_iff_iff, beq_iff_eq, Prod.mk.injEq, decide_eq_true_iff, eq_comm,
    eq_comm (a := lowercase property)]

-- A dictionary that is printed and read again has for each field and property what was written for them last, and
-- makes no field an alias.
theorem behavior_printed (l : ∀ f ∈ fields, f.Legible) (printed : List Text)
    (isLine : ∀ line ∈ printed, IsLine line) (h : printed.filter isStarred = fields.flatMap Field.lines)
    (ending : Text) (ht : ending ∈ breaks) :
    (parse (join ending printed)).aliases = [] ∧
      ∀ field property, (parse (join ending printed)).behavior? field property =
        ((fields.flatMap Field.written).reverse.find? (isFor field property)).map Prod.snd := by
  have read : parse (join ending printed) = ({} : Dictionary).keep (fields.flatMap Field.written) := by
    apply parse_eq_keep l
    rw [← h]
    cases printed
    case nil => rfl
    case cons => rw [lines_join (List.cons_ne_nil _ _) isLine ht]
  rw [read]
  refine ⟨rfl, fun field property => ?_⟩
  have own : (({} : Dictionary).keep (fields.flatMap Field.written)).resolve field = fieldKey field :=
    resolve_of_not_alias rfl
  rw [behavior?, own, Option.or_self, keep, List.append_nil, ← List.map_reverse, lookup_map_entry]
  refine congrArg _ (List.find?_congr fun w hw => ?_)
  exact isFor_eq l (List.mem_reverse.mp hw) field property

def mails : List Field :=
  [{ name := lit "Email", description := some (lit "Where?"), properties := [(lit "Input", lit "text: a")] },
    { name := lit "EMAIL", description := some (lit "a = b") }]

theorem behavior_printed_mails :
    (∀ f ∈ mails, f.Legible) ∧
    (parse (lit "Fields\r\n* Email: Where?\r\n** Input: text: a\r\n\r\n* EMAIL: a = b")).behavior? (lit " eMail ")
      (lit "Description") = some (lit "a = b") := by
  have legible : ∀ f ∈ mails, f.Legible := by
    refine List.forall_mem_cons.mpr ⟨?_, List.forall_mem_singleton.mpr ?_⟩
    · exact ⟨by decide, by decide, by decide, by decide, by decide, by decide, by decide⟩
    · exact ⟨by decide, by decide, by decide, by decide, by decide, by decide, by decide⟩
  have ⟨_, values⟩ := behavior_printed legible
    [lit "Fields", lit "* Email: Where?", lit "** Input: text: a", [], lit "* EMAIL: a = b"]
    (by decide) (by decide) [cr, lf] (by decide)
  exact ⟨legible, (values (lit " eMail ") (lit "Description")).trans (by decide)⟩

end WikiPages.Dictionary
