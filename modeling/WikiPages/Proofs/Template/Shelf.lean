import WikiPages.Template.Shelf
import WikiPages.Proofs.Files.Writing

namespace WikiPages

open Text

namespace FileTree

-- A name in a directory leads to a place that lies in the directory, compared step by step.
structure Below (tree : FileTree) (base name : Text) (anchor place : Location) : Prop where
  toBase    : tree.Leads base anchor
  directory : tree.get? anchor = some .directory
  toPlace   : tree.Leads (Path.join base name) place
  within    : anchor <+: place

-- A file is never its directory, so that it lies properly below it.
def FileBelow (tree : FileTree) (base name : Text) (bytes : ByteArray) : Prop :=
  ∃ anchor place, tree.Below base name anchor place ∧ anchor ≠ place ∧ tree.get? place = some (.file bytes)

variable {tree : FileTree} {base name : Text} {anchor place : Location} {bytes : ByteArray}

theorem Below.fileBelow (h : tree.Below base name anchor place) (he : tree.get? place = some (.file bytes)) :
    tree.FileBelow base name bytes := by
  refine ⟨anchor, place, h, ?_, he⟩
  rintro rfl
  cases h.directory.symm.trans he

end FileTree

namespace Shelf

variable {tree : FileTree} {base name : Text} {anchor place : Location} {names : List Text} {entry : Entry}
  {bytes : ByteArray} {text : Text}

theorem exists_of_open? (h : open? tree base (tree.canonical? base) name = .ok entry) :
    ∃ anchor place, tree.Below base name anchor place ∧ tree.get? place = some entry := by
  have opened := h
  rw [open?] at opened
  split at opened
  case isTrue => cases opened
  case isFalse ha =>
    have relative := Bool.not_eq_true _ ▸ ha
    dsimp only at opened
    split at opened
    case h_1 place anchor hp hb =>
      have ⟨_, hne, leads, _⟩ := FileTree.canonical?_eq_some_iff.mp hp
      have ⟨_, _, toBase, _⟩ := FileTree.canonical?_eq_some_iff.mp hb
      have ⟨through, hl, isDirectory, _⟩ := FileTree.exists_of_leads_join relative hne leads
      cases hl.unique toBase
      have ⟨within, he⟩ := below_of_open? hp (hb ▸ h)
      exact ⟨anchor, place, ⟨toBase, isDirectory, leads, List.isPrefixOf_iff_prefix.mp within⟩, he⟩
    case h_2 =>
      -- nothing to compare: without a step upwards the way stays below where it enters the directory
      split at opened
      case isTrue => cases opened
      case isFalse hc =>
        have ⟨place, hne, leads, he⟩ := FileTree.exists_of_entryAt (eq_ok_of_mapError opened)
        have ⟨anchor, toBase, isDirectory, hw⟩ := FileTree.exists_of_leads_join relative hne leads
        have never := Path.not_mem_steps (Bool.not_eq_true _ ▸ hc)
        exact ⟨anchor, place, ⟨toBase, isDirectory, leads, FileTree.prefix_of_walk never hw⟩, he⟩

-- What a shelf has under a name, if it is a file. A text in memory is as good as the file that holds it.
def file? (tree : FileTree) (name : Text) : Shelf → Option ByteArray
  | memory texts => (texts.lookup name).map fun text => (String.ofList text).toUTF8
  | directory base anchor =>
    match open? tree base anchor name with
    | .ok (.file bytes) => some bytes
    | _ => none

theorem file?_eq_some_iff {anchor : Option Location} :
    (directory base anchor).file? tree name = some bytes ↔ open? tree base anchor name = .ok (.file bytes) := by
  rw [file?]
  split <;> simp_all

theorem has_eq_isSome (tree : FileTree) (name : Text) (shelf : Shelf) :
    shelf.has tree name = (shelf.file? tree name).isSome := by
  cases shelf
  case memory => rw [has, file?, Option.isSome_map]
  case directory =>
    rw [has, file?]
    split <;> simp_all

theorem load_of_file? {shelf : Shelf} (h : shelf.file? tree name = some bytes) :
    shelf.load tree name = (FileTree.readEntry (.file bytes)).mapError fun _ => .notText name := by
  cases shelf
  case memory =>
    have ⟨text, hl, hb⟩ := Option.map_eq_some_iff.mp h
    rw [← hb, load, hl, FileTree.readEntry_file]
    rfl
  case directory =>
    rw [load, file?_eq_some_iff.mp h]
    change (FileTree.readEntry (.file bytes)).mapError (ShelfFault.ofFileFault name) = _
    rw [FileTree.readEntry]
    cases String.fromUTF8? bytes <;> rfl

theorem exists_of_load {anchor : Option Location} (h : (directory base anchor).load tree name = .ok text) :
    ∃ bytes, (directory base anchor).file? tree name = some bytes ∧
      FileTree.readEntry (.file bytes) = .ok text := by
  have ⟨entry, ho, hr⟩ := exists_of_bind h
  cases entry
  case directory => cases hr
  case file bytes => exact ⟨bytes, file?_eq_some_iff.mpr ho, eq_ok_of_mapError hr⟩

theorem fileBelow_of_file? (h : (ofDirectory tree base).file? tree name = some bytes) :
    tree.FileBelow base name bytes := by
  have ⟨_, _, below, he⟩ := exists_of_open? (file?_eq_some_iff.mp h)
  exact below.fileBelow he

theorem open?_join (s : tree.Sound) (leads : tree.Leads base anchor) (hne : names ≠ [])
    (he : tree.get? (anchor ++ names) = some entry)
    (path : FileTree.checkPath (Path.ofLocation (anchor ++ names)) = .ok ()) :
    open? tree base (tree.canonical? base) (Text.join ['/'] names) = .ok entry := by
  have there : (tree.get? (anchor ++ names)).isSome := Option.isSome_of_eq_some he
  have isName := s.isName there
  have ⟨relative, notEmpty, _⟩ := Path.steps_of_names isName hne
  have toPlace := s.leads_join leads hne there
  have ⟨_, _, fits⟩ := FileTree.checkPath_eq_ok_iff.mp path
  have ⟨anchorFits, namesFit⟩ := Path.byteLength_ofLocation_le anchor hne
  rw [open?, relative]
  by_cases hbase : base = []
  case pos =>
    -- the working directory has no path of its own, so nothing is compared
    subst hbase
    have level : Path.climbs (Text.join ['/'] names) = false := by
      rw [Path.climbs, split_join hne fun name hn => (isName name hn).noSlash]
      refine Bool.eq_false_iff.mpr fun hc => ?_
      exact (isName _ (List.contains_iff_mem.mp hc)).notAbove rfl
    have hj : Path.join [] (Text.join ['/'] names) = Text.join ['/'] names := by simp [Path.join, relative]
    rw [hj] at toPlace ⊢
    have isPath := FileTree.checkPath_eq_ok_iff.mpr
      ⟨s.noNul_of_leads toPlace, notEmpty, Nat.lt_of_le_of_lt namesFit fits⟩
    have found := FileTree.entryAt_eq_ok isPath toPlace he
    have hn : tree.canonical? [] = none := by simp [FileTree.canonical?]
    simp [hn, level, found, Except.mapError]
  case neg =>
    have hc : tree.canonical? base = some anchor :=
      FileTree.canonical?_eq_some_iff.mpr ⟨s.noNul_of_leads leads, hbase, leads, Nat.lt_of_le_of_lt anchorFits fits⟩
    have hp : tree.canonical? (Path.join base (Text.join ['/'] names)) = some (anchor ++ names) := by
      refine FileTree.canonical?_eq_some_iff.mpr ⟨?_, Path.join_ne_nil notEmpty, toPlace, fits⟩
      exact s.noNul_of_leads toPlace
    have within : anchor.isPrefixOf (anchor ++ names) = true :=
      List.isPrefixOf_iff_prefix.mpr (List.prefix_append _ _)
    simp [hc, hp, he]

-- Nothing outside a directory is given out, whatever the name; a file that is there is not missing when it is
-- read; and every text below the directory is given out as it stands. The one condition on its path is the system's own:
-- it takes no path of more than 4095 bytes.
theorem directory_confined (tree : FileTree) (base name : Text) :
    (∀ text, (ofDirectory tree base).load tree name = .ok text →
      ∃ bytes, tree.FileBelow base name bytes ∧ FileTree.readEntry (.file bytes) = .ok text) ∧
    ((ofDirectory tree base).has tree name = true →
      (∃ bytes, tree.FileBelow base name bytes) ∧
      ∀ fault, (ofDirectory tree base).load tree name = .error fault → fault.isAbsence = false) ∧
    (tree.Sound → ∀ anchor names bytes text, tree.Leads base anchor → names ≠ [] →
      tree.get? (anchor ++ names) = some (.file bytes) →
      FileTree.checkPath (Path.ofLocation (anchor ++ names)) = .ok () →
      FileTree.readEntry (.file bytes) = .ok text →
      (ofDirectory tree base).load tree (Text.join ['/'] names) = .ok text ∧
        (ofDirectory tree base).has tree (Text.join ['/'] names) = true) := by
  refine ⟨?_, ?_, ?_⟩
  · intro text h
    have ⟨bytes, hf, hr⟩ := exists_of_load h
    exact ⟨bytes, fileBelow_of_file? hf, hr⟩
  · intro h
    have ⟨bytes, hf⟩ := Option.isSome_iff_exists.mp (has_eq_isSome tree name _ ▸ h)
    refine ⟨⟨bytes, fileBelow_of_file? hf⟩, fun fault hl => ?_⟩
    rw [load_of_file? hf] at hl
    cases hr : FileTree.readEntry (.file bytes) <;> rw [hr] at hl <;> cases hl
    rfl
  · intro s anchor names bytes text leads hne he path hr
    have there : (ofDirectory tree base).file? tree (Text.join ['/'] names) = some bytes :=
      file?_eq_some_iff.mpr (open?_join s leads hne he path)
    rw [load_of_file? there, has_eq_isSome, there, hr]
    exact ⟨rfl, rfl⟩

def siblings : FileTree where
  entries := [
    ([lit "site"], .directory),
    ([lit "site", lit "rows"], .directory),
    ([lit "site", lit "rows", lit "tr.html"], .file (String.ofList (lit "<tr>")).toUTF8),
    ([lit "site-old"], .directory)]

theorem sound_siblings : siblings.Sound := by
  refine FileTree.sound_of_forall_mem fun e he => ?_
  simp only [siblings, List.mem_cons, List.not_mem_nil, or_false] at he
  rcases he with rfl | rfl | rfl | rfl
  · exact ⟨[], lit "site", rfl, rfl, ⟨⟨by decide, by decide, by decide, by decide⟩, by decide, by decide⟩⟩
  · exact ⟨[lit "site"], lit "rows", rfl, rfl,
      ⟨⟨by decide, by decide, by decide, by decide⟩, by decide, by decide⟩⟩
  · exact ⟨[lit "site", lit "rows"], lit "tr.html", rfl, rfl,
      ⟨⟨by decide, by decide, by decide, by decide⟩, by decide, by decide⟩⟩
  · exact ⟨[], lit "site-old", rfl, rfl, ⟨⟨by decide, by decide, by decide, by decide⟩, by decide, by decide⟩⟩

-- The row is found by its own path, and by one that leaves the directory and comes back.
theorem siblings_confined :
    (∃ bytes, siblings.FileBelow (lit "site") (lit "rows/tr.html") bytes ∧
      FileTree.readEntry (.file bytes) = .ok (lit "<tr>")) ∧
    ∃ bytes, siblings.FileBelow (lit "site") (lit "../site-old/../site/rows/tr.html") bytes := by
  have ⟨given, _⟩ := (directory_confined siblings (lit "site") []).2.2 sound_siblings [lit "site"]
    [lit "rows", lit "tr.html"] _ (lit "<tr>") rfl (by decide) rfl rfl (FileTree.readEntry_file _)
  have back : (ofDirectory siblings (lit "site")).has siblings (lit "../site-old/../site/rows/tr.html") = true := by
    decide
  have ⟨below, _⟩ :=
    (directory_confined siblings (lit "site") (lit "../site-old/../site/rows/tr.html")).2.1 back
  exact ⟨(directory_confined siblings (lit "site") (lit "rows/tr.html")).1 _ given, below⟩

end Shelf
end WikiPages
