import WikiPages.Template.Cabinet
import WikiPages.Proofs.Template.Shelf

namespace WikiPages

open Text

namespace Text

variable {old new s : Text}

-- A text less the line break at its end, which may take two characters.
def lessFinalBreak (s : Text) : Text :=
  if [cr, lf] <:+ s then s.take (s.length - 2)
  else if [lf] <:+ s ∨ [cr] <:+ s then s.dropLast
  else s

theorem dropFinalBreak_eq (s : Text) : dropFinalBreak s = lessFinalBreak s := by
  have last (c : Char) : [c] <:+ s ↔ [c] <+: s.reverse := List.reverse_prefix.symm
  have two : [cr, lf] <:+ s ↔ [lf, cr] <+: s.reverse := List.reverse_prefix.symm
  simp only [dropFinalBreak, lessFinalBreak, last, two]
  obtain ⟨r, rfl⟩ : ∃ r, s = r.reverse := ⟨s.reverse, s.reverse_reverse.symm⟩
  rw [List.reverse_reverse]
  split
  case h_1 => simp [cr, lf]
  case h_2 rest other =>
    have one : ¬ [lf, cr] <+: '\n' :: rest := by
      rintro ⟨behind, he⟩
      exact other behind (List.cons.inj he).2.symm
    have feed : [lf] <+: '\n' :: rest := List.prefix_append [lf] rest
    rw [if_neg one, if_pos (.inl feed)]
    simp
  case h_3 => simp [cr, lf]
  case h_4 other feed ret =>
    have feed : ¬ [lf] <+: r := fun ⟨rest, he⟩ => feed rest he.symm
    have ret : ¬ [cr] <+: r := fun ⟨rest, he⟩ => ret rest he.symm
    have both : ¬ [lf, cr] <+: r := fun ⟨rest, he⟩ => feed ⟨cr :: rest, he⟩
    rw [if_neg both, if_neg (not_or.mpr ⟨feed, ret⟩)]

def swapped (old new : Text) : Text → Text
  | []     => []
  | c :: s =>
    if old <+: c :: s then new ++ swapped old new (s.drop (old.length - 1))
    else c :: swapped old new s
termination_by s => s.length

theorem replaceAll_eq_swapped (hne : old ≠ []) (new s : Text) : replaceAll old new s = swapped old new s := by
  fun_induction swapped old new s
  case case1 => rfl
  case case2 c s here hi =>
    obtain ⟨rest, hr⟩ := here
    have behind : s.drop (old.length - 1) = rest := by
      obtain ⟨d, old, rfl⟩ := List.exists_cons_of_ne_nil hne
      rw [← (List.cons.inj hr).2]
      exact List.drop_left
    rw [← hr, replaceAll_append hne, ← hi, behind]
  case case3 c s absent hi => rw [replaceAll_cons new (isPrefixOf?_eq_none_iff.mpr absent), hi]

end Text

-- With each hole whose inside is a key filled, key after key.
def Substitution.filledIn (σ : Substitution) (s : Text) : Text :=
  σ.entries.foldl (fun s entry => swapped ('$' :: '{' :: entry.1 ++ ['}']) entry.2 s) s

theorem Substitution.apply_eq_filledIn (σ : Substitution) (s : Text) : σ.apply s = σ.filledIn s := by
  rw [apply, filledIn]
  congr 1
  funext s entry
  exact replaceAll_eq_swapped (List.cons_ne_nil _ _) _ _

namespace Cabinet

variable {tree : FileTree} {file base : Text} {shelf : Shelf} {shelves more : Cabinet}

def first? (tree : FileTree) (file : Text) (shelves : Cabinet) : Option ByteArray :=
  shelves.findSome? (·.file? tree file)

-- What is answered for a file: the text in it without a line break at its end, or why there is none.
def answer (file : Text) : Option ByteArray → Except TemplateFault Text
  | none => .error (.missing file)
  | some bytes =>
    match FileTree.readEntry (.file bytes) with
    | .ok text => .ok (lessFinalBreak text)
    | .error _ => .error (.unreadable file (.notText file))

theorem has_eq_isSome_first? (tree : FileTree) (file : Text) (shelves : Cabinet) :
    has tree file shelves = (first? tree file shelves).isSome := by
  rw [has, first?, List.isSome_findSome?]
  exact List.any_congr rfl fun shelf => shelf.has_eq_isSome tree file

theorem first?_eq_none_iff : first? tree file shelves = none ↔ ∀ shelf ∈ shelves, shelf.file? tree file = none :=
  List.findSome?_eq_none_iff

theorem first?_append (tree : FileTree) (file : Text) (shelves more : Cabinet) :
    first? tree file (shelves ++ more) = (first? tree file shelves).or (first? tree file more) :=
  List.findSome?_append

theorem first?_cons (tree : FileTree) (file : Text) (shelf : Shelf) (shelves : Cabinet) :
    first? tree file (shelf :: shelves) = (shelf.file? tree file).or (first? tree file shelves) := by
  rw [first?, List.findSome?_cons]
  cases shelf.file? tree file <;> rfl

theorem find_eq_answer (tree : FileTree) (file : Text) (shelves : Cabinet) :
    find tree file shelves = answer file (first? tree file shelves) := by
  induction shelves
  case nil => rfl
  case cons shelf shelves hi =>
    rw [find, first?_cons, shelf.has_eq_isSome]
    cases hf : shelf.file? tree file
    case none => exact hi
    case some bytes =>
      rw [Shelf.load_of_file? hf, Option.some_or, answer]
      cases FileTree.readEntry (.file bytes)
      case error => rfl
      case ok text => exact congrArg Except.ok (dropFinalBreak_eq text)

theorem answer_eq_missing_iff {found : Option ByteArray} {name : Text} :
    answer file found = .error (.missing name) ↔ found = none ∧ file = name := by
  cases found
  case none => simp [answer]
  case some bytes =>
    rw [answer]
    cases FileTree.readEntry (.file bytes) <;> simp

theorem file?_of_directory (h : tree.entryAt (Path.join base file) = .ok .directory) :
    (Shelf.ofDirectory tree base).file? tree file = none := by
  rw [Option.eq_none_iff_forall_ne_some]
  intro bytes hf
  have ⟨_, place, below, _, he⟩ := Shelf.fileBelow_of_file? hf
  have ⟨other, _, leads, hd⟩ := FileTree.exists_of_entryAt h
  cases below.toPlace.unique leads
  cases he.symm.trans hd

variable {name extension : Text} {values : Substitution}

theorem fill_templates (tree : FileTree) (shelves : Cabinet) (name extension : Text) (values : Substitution) :
    (templates tree shelves).fill name extension values =
      (answer (fileName name extension) (first? tree (fileName name extension) shelves)).map values.filledIn := by
  have : (templates tree shelves).text name extension = find tree (fileName name extension) shelves := rfl
  rw [Templates.fill, this, find_eq_answer, funext values.apply_eq_filledIn]

theorem fill_eq_missing_iff {missing : Text} :
    (templates tree shelves).fill name extension values = .error (.missing missing) ↔
      missing = fileName name extension ∧ first? tree (fileName name extension) shelves = none := by
  rw [fill_templates, and_comm, eq_comm (a := missing), ← answer_eq_missing_iff]
  cases answer (fileName name extension) (first? tree (fileName name extension) shelves) <;> simp [Except.map]

-- The first shelf that has the file of a template answers for it, whatever stands behind. It is missing exactly when
-- no shelf has it, so that shelves behind the others matter only then, and one in front of them only with a file.
theorem templates_first_match (tree : FileTree) (shelves : Cabinet) (name extension : Text) (values : Substitution) :
    let file := Identifier.normalize name ++ extension
    let filled (shelves : Cabinet) := (templates tree shelves).fill name extension values
    ((templates tree shelves).text name extension = answer file (first? tree file shelves) ∧
      filled shelves = (answer file (first? tree file shelves)).map values.filledIn) ∧
    (∀ missing, filled shelves = .error (.missing missing) ↔
      missing = file ∧ (templates tree shelves).has name extension = false) ∧
    ((templates tree shelves).has name extension = false ↔ ∀ shelf ∈ shelves, shelf.file? tree file = none) ∧
    (∀ base, tree.entryAt (Path.join base file) = .ok .directory →
      (Shelf.ofDirectory tree base).file? tree file = none) ∧
    (∀ more, filled shelves ≠ .error (.missing file) → filled (shelves ++ more) = filled shelves) ∧
    ∀ shelf : Shelf, shelf.file? tree file = none → filled (shelf :: shelves) = filled shelves := by
  intro file filled
  have has_eq_false : (templates tree shelves).has name extension = false ↔ first? tree file shelves = none := by
    have : (templates tree shelves).has name extension = has tree file shelves := rfl
    rw [this, has_eq_isSome_first?, Option.isSome_eq_false_iff, Option.isNone_iff_eq_none]
  refine ⟨⟨find_eq_answer tree file shelves, fill_templates _ _ _ _ _⟩, ?_, ?_, ?_, ?_, ?_⟩
  · intro missing
    rw [has_eq_false]
    exact fill_eq_missing_iff
  · rw [has_eq_false]
    exact first?_eq_none_iff
  · exact fun base => file?_of_directory
  · intro more h
    have found : first? tree (fileName name extension) shelves ≠ none := fun hn => h (fill_eq_missing_iff.mpr ⟨rfl, hn⟩)
    have ⟨bytes, hb⟩ := Option.ne_none_iff_exists'.mp found
    change (templates tree (shelves ++ more)).fill name extension values = (templates tree shelves).fill _ _ _
    rw [fill_templates, fill_templates, first?_append, hb, Option.some_or]
  · intro shelf hn
    have hn : shelf.file? tree (fileName name extension) = none := hn
    change (templates tree (shelf :: shelves)).fill name extension values = (templates tree shelves).fill _ _ _
    rw [fill_templates, fill_templates, first?_cons, hn, Option.none_or]

def damaged : FileTree where
  entries := [
    ([lit "site"], .directory),
    ([lit "site", lit "th.html"], .file ⟨#[0xff]⟩),
    ([lit "site", lit "td.html"], .directory)]

def noted : Shelf := .memory [(lit "note.html", lit "<p>$\x7ba\x7d$\x7bb\x7d</p>\n\r\n")]

-- The damaged template hides the default one, and the directory does not. A template in memory is filled.
theorem damaged_first_match :
    (templates damaged (withDirectory damaged (lit "site"))).fill (lit "TH") (lit ".html") {} =
      .error (.unreadable (lit "th.html") (.notText (lit "th.html"))) ∧
    (templates damaged (withDirectory damaged (lit "site"))).fill (lit "Td") (lit ".html") {} =
      (templates damaged bundled).fill (lit "Td") (lit ".html") {} ∧
    (templates damaged [noted]).fill (lit "Note") (lit ".html") (.ofList [(lit "a", lit "1$")]) =
      .ok (lit "<p>1$$\x7bb\x7d</p>\n") ∧
    (answer (lit "note.html") (noted.file? damaged (lit "note.html"))).map
      (Substitution.filledIn (.ofList [(lit "a", lit "1$")])) = .ok (lit "<p>1$$\x7bb\x7d</p>\n") := by
  have ⟨⟨_, unreadable⟩, _, _, _, further, _⟩ :=
    templates_first_match damaged [Shelf.ofDirectory damaged (lit "site")] (lit "TH") (lit ".html") {}
  have ⟨_, _, _, uncounted, _, front⟩ := templates_first_match damaged bundled (lit "Td") (lit ".html") {}
  have ⟨⟨_, filled⟩, _⟩ :=
    templates_first_match damaged [noted] (lit "Note") (lit ".html") (.ofList [(lit "a", lit "1$")])
  have given : Except.map (Substitution.filledIn {}) (answer (lit "th.html") (some ⟨#[0xff]⟩)) =
      .error (.unreadable (lit "th.html") (.notText (lit "th.html"))) := rfl
  have shown : (templates damaged [noted]).fill (lit "Note") (lit ".html") (.ofList [(lit "a", lit "1$")]) =
      .ok (lit "<p>1$$\x7bb\x7d</p>\n") := by rfl
  refine ⟨(further bundled ?_).trans (unreadable.trans given), front _ (uncounted (lit "site") rfl), shown, ?_⟩
  · exact fun missing => nomatch (unreadable.trans given).symm.trans missing
  · exact (filled.symm.trans shown :)

end Cabinet
end WikiPages
