import WikiPages.Files.Reading
import WikiPages.Proofs.Files.Paths

namespace WikiPages

open Text

namespace Path

variable {directory name : Text}

namespace IsFileName

variable (n : IsFileName name)
include n

theorem not_isAbsolute : isAbsolute name = false := by
  refine beq_false_of_ne fun h => n.noSlash ?_
  exact List.mem_of_mem_head? (Option.mem_def.2 h)

theorem steps_join : steps (join directory name) = directorySteps directory ++ [name] := by
  have named : directorySteps name = [name] := by
    rw [directorySteps, split_of_free n.noSlash]
    simp [n.notEmpty]
  have last : name.getLast? ≠ some '/' := fun h => n.noSlash (List.mem_of_getLast? h)
  rw [Path.steps_join n.not_isAbsolute n.notEmpty, steps_eq name, named, if_neg last, List.append_nil]

end IsFileName

end Path

namespace FileTree

structure Grows (a b : FileTree) : Prop where
  start     : b.workingDirectory = a.workingDirectory
  directory : ∀ place, a.get? place = some .directory → b.get? place = some .directory
  isSome    : ∀ place, (a.get? place).isSome → (b.get? place).isSome

variable {a b c tree tree' : FileTree} {place parent : Location} {entry : Entry}

namespace Grows

theorem put (h : a.get? place ≠ some .directory) : Grows a (a.put place entry) where
  start     := rfl
  directory := by
    intro other hd
    by_cases ho : other = place
    · exact absurd (ho ▸ hd) h
    · rwa [get?_put_of_ne ho]
  isSome    := by
    intro other hs
    by_cases ho : other = place
    · subst ho
      have : other ≠ [] := by
        rintro rfl
        exact h (if_pos rfl)
      rw [get?_put_self this]
      rfl
    · rwa [get?_put_of_ne ho]

theorem walk (h : Grows a b) {steps : List Text} {start : Location}
    (hw : a.walk start steps = .ok place) : b.walk start steps = .ok place := by
  induction steps generalizing start
  case nil => exact hw
  case cons step steps hi =>
    have ⟨hd, hl, there, hw⟩ := walk_cons_eq_ok_iff.mp hw
    exact walk_cons_eq_ok_iff.mpr ⟨h.directory start hd, hl, h.isSome _ there, hi hw⟩

end Grows

structure Home (tree : FileTree) (directory name : Text) (parent : Location) : Prop where
  isPath      : checkPath (Path.join directory name) = .ok ()
  walk        : tree.walk (tree.start directory) (Path.directorySteps directory) = .ok parent
  isDirectory : tree.get? parent = some .directory
  fits        : Path.byteLength name ≤ 255

-- A file of that name in the directory is there, and holds the text.
def Holds (tree : FileTree) (directory name text : Text) : Prop :=
  ∃ parent, Home tree directory name parent ∧
    tree.get? (parent ++ [name]) = some (.file (String.ofList text).toUTF8)

variable {directory name other text text' : Text} (n : Path.IsFileName name)

theorem start_grows (h : Grows a b) (path : Text) : b.start path = a.start path := by
  rw [start, start, h.start]

namespace Home

theorem unique (h : Home tree directory name parent) (h' : Home tree directory other place) :
    place = parent := by
  have := h'.walk.symm.trans h.walk
  exact Except.ok.inj this

theorem grows (h : Home a directory name parent) (g : Grows a b) :
    Home b directory name parent where
  isPath      := h.isPath
  walk        := start_grows g directory ▸ g.walk h.walk
  isDirectory := g.directory parent h.isDirectory
  fits        := h.fits

include n in
theorem of_locateNew {step : Text}
    (h : tree.locateNew (Path.join directory name) = .ok (parent, step)) :
    step = name ∧ Home tree directory name parent := by
  rw [locateNew] at h
  cases hc : checkPath (Path.join directory name)
  case error => simp [hc, bind, Except.bind] at h
  case ok =>
    simp only [hc, n.steps_join, List.reverse_append, List.reverse_singleton, List.singleton_append,
      List.reverse_reverse, start_join n.not_isAbsolute, bind, Except.bind] at h
    cases hw : tree.walk (tree.start directory) (Path.directorySteps directory)
    case error => simp [hw] at h
    case ok place =>
      simp only [hw] at h
      split at h
      case h_1 => cases h
      case h_2 => cases h
      case h_3 hd =>
        split at h
        case isTrue => cases h
        case isFalse hf =>
          cases h
          exact ⟨rfl, hc, hw, hd, Nat.le_of_not_lt hf⟩

end Home

include n in
theorem exists_of_write (h : tree.write (Path.join directory name) text = .ok tree') :
    ∃ parent, Home tree directory name parent ∧
      tree.get? (parent ++ [name]) ≠ some .directory ∧
      tree' = tree.put (parent ++ [name]) (.file (String.ofList text).toUTF8) := by
  rw [write] at h
  cases hl : tree.locateNew (Path.join directory name)
  case error => simp [hl, bind, Except.bind] at h
  case ok found =>
    have ⟨parent, step⟩ := found
    have ⟨hs, hh⟩ := Home.of_locateNew n hl
    subst hs
    simp only [hl, bind, Except.bind, n.follow_eq] at h
    split at h
    case h_1 => cases h
    case h_2 hn =>
      cases h
      exact ⟨parent, hh, hn, rfl⟩

include n in
theorem holds_write (h : tree.write (Path.join directory name) text = .ok tree') :
    Holds tree' directory name text := by
  have ⟨parent, hh, hn, ht⟩ := exists_of_write n h
  subst ht
  exact ⟨parent, hh.grows (.put hn), get?_put_self (by simp)⟩

include n in
theorem Grows.write (h : tree.write (Path.join directory name) text = .ok tree') :
    Grows tree tree' := by
  have ⟨_, _, hn, ht⟩ := exists_of_write n h
  exact ht ▸ .put hn

theorem Holds.write (h : Holds tree directory name text) (n : Path.IsFileName other)
    (hw : tree.write (Path.join directory other) text' = .ok tree') (hne : other ≠ name) :
    Holds tree' directory name text := by
  have ⟨parent, hh, ht⟩ := h
  have ⟨place, ho, hn, he⟩ := exists_of_write n hw
  refine ⟨parent, hh.grows (.write n hw), ?_⟩
  rw [he, get?_put_of_ne, ht]
  rw [hh.unique ho]
  simpa using Ne.symm hne

theorem readEntry_file (text : Text) :
    readEntry (.file (String.ofList text).toUTF8) = .ok text := by
  have hv : (String.ofList text).toByteArray.IsValidUTF8 := (String.ofList text).isValidUTF8
  have hf : String.fromUTF8? (String.ofList text).toUTF8 = some (String.ofList text) := by
    rw [String.toUTF8_eq_toByteArray, String.fromUTF8?, dif_pos hv]
    rfl
  simp only [readEntry, hf, String.toList_ofList]

include n in
theorem Holds.readAll (h : Holds tree directory name text) :
    tree.readAll (Path.join directory name) = .ok text := by
  have ⟨parent, hh, ht⟩ := h
  have leads : tree.Leads (Path.join directory name) (parent ++ [name]) := by
    rw [Leads, start_join n.not_isAbsolute, n.steps_join, walk_append, hh.walk]
    refine walk_cons_eq_ok_iff.mpr ⟨hh.isDirectory, hh.fits, ?_⟩
    rw [n.follow_eq, ht]
    exact ⟨rfl, rfl⟩
  rw [FileTree.readAll, entryAt_eq_ok hh.isPath leads ht]
  exact readEntry_file text

structure Keeps (a b : FileTree) : Prop where
  start : b.workingDirectory = a.workingDirectory
  entry : ∀ place entry, a.get? place = some entry → b.get? place = some entry

namespace Keeps

theorem refl (a : FileTree) : Keeps a a := ⟨rfl, fun _ _ => id⟩

theorem trans (h : Keeps a b) (h' : Keeps b c) : Keeps a c where
  start := h'.start.trans h.start
  entry := fun place entry hp => h'.entry place entry (h.entry place entry hp)

theorem grows (h : Keeps a b) : Grows a b where
  start     := h.start
  directory := fun place => h.entry place _
  isSome    := by
    intro place hs
    have ⟨entry, he⟩ := Option.isSome_iff_exists.1 hs
    rw [h.entry place entry he]
    rfl

theorem put (h : a.get? place = none) : Keeps a (a.put place entry) where
  start := rfl
  entry := by
    intro other e he
    rw [get?_put_of_ne, he]
    rintro rfl
    rw [h] at he
    cases he

theorem makeDirectory {path : Text} (h : tree.makeDirectory path = .ok tree') :
    Keeps tree tree' := by
  rw [FileTree.makeDirectory] at h
  cases hl : tree.locateNew (makeDirectory.dropFinalSlashes path)
  case error => simp [hl, bind, Except.bind] at h
  case ok found =>
    have ⟨parent, step⟩ := found
    simp only [hl, bind, Except.bind] at h
    split at h
    case isTrue => cases h
    case isFalse hn =>
      cases h
      refine .put ?_
      simpa using fun h => hn (.inr (.inr h))

theorem makeLineage {paths : List Text} (h : tree.makeLineage paths = .ok tree') :
    Keeps tree tree' := by
  induction paths generalizing tree tree'
  case nil =>
    cases h
    exact refl _
  case cons path paths hi =>
    rw [FileTree.makeLineage] at h
    split at h
    case h_1 made hm =>
      cases h
      exact makeDirectory hm
    case h_2 =>
      cases hp : tree.makeLineage paths
      case error => simp [hp, bind, Except.bind] at h
      case ok made =>
        simp only [hp, bind, Except.bind] at h
        have := hi hp
        split at h
        case h_1 hm =>
          cases h
          exact this.trans (makeDirectory hm)
        case h_2 =>
          split at h
          case isTrue =>
            cases h
            exact this
          case isFalse => cases h
    case h_3 =>
      split at h
      case isTrue =>
        cases h
        exact refl _
      case isFalse => cases h

theorem makeDirectories {path : Text} (h : tree.makeDirectories path = .ok tree') :
    Keeps tree tree' :=
  makeLineage h

end Keeps

theorem Holds.keeps (h : Holds a directory name text) (k : Keeps a b) :
    Holds b directory name text := by
  have ⟨parent, hh, ht⟩ := h
  exact ⟨parent, hh.grows k.grows, k.entry _ _ ht⟩

end FileTree
end WikiPages
