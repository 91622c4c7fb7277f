import WikiPages.Files.Tree
import WikiPages.Proofs.Success
import WikiPages.Proofs.Text.Cutting

namespace WikiPages

open Text

namespace Path

def directorySteps (directory : Text) : List Text := (split '/' directory).filter (· ≠ [])

variable {base front name path : Text} {names : List Text}

theorem directorySteps_append (front : Text) :
    directorySteps (front ++ '/' :: name) = directorySteps front ++ directorySteps name := by
  rw [directorySteps, split_append, List.filter_append]
  rfl

theorem steps_eq (path : Text) :
    steps path = directorySteps path ++ if path.getLast? = some '/' then [here] else [] := rfl

theorem join_ne_nil (hne : name ≠ []) : join base name ≠ [] := by
  rw [join]
  split
  · exact hne
  · split <;> simp [hne]

section Relative

variable (h : isAbsolute name = false)
include h

theorem join_cases :
    (base = [] ∧ join base name = name) ∨
      ∃ front, join base name = front ++ '/' :: name ∧
        (base = front ++ ['/'] ∨ base = front ∧ front ≠ []) := by
  by_cases he : base = []
  · exact .inl ⟨he, by simp [join, h, he]⟩
  · refine .inr ?_
    by_cases hl : base.getLast? = some '/'
    · obtain ⟨front, hf⟩ := List.getLast?_eq_some_iff.mp hl
      exact ⟨front, by simp [join, h, hf], .inl hf⟩
    · exact ⟨base, by simp [join, h, he, hl], .inr ⟨rfl, he⟩⟩

theorem isAbsolute_join : isAbsolute (join base name) = isAbsolute base := by
  rcases join_cases h with ⟨hb, hj⟩ | ⟨front, hj, hb⟩
  · rw [hj, hb, h]
    rfl
  · rw [hj]
    cases front <;> cases hb <;> simp_all [isAbsolute]

theorem directorySteps_join : directorySteps (join base name) = directorySteps base ++ directorySteps name := by
  rcases join_cases h with ⟨hb, hj⟩ | ⟨front, hj, hb⟩
  · rw [hj, hb]
    rfl
  · have : directorySteps base = directorySteps front := by
      rcases hb with hb | ⟨hb, _⟩
      · rw [hb, directorySteps_append]
        exact List.append_nil _
      · rw [hb]
    rw [hj, directorySteps_append, this]

theorem steps_join (hne : name ≠ []) : steps (join base name) = directorySteps base ++ steps name := by
  have : (join base name).getLast? = name.getLast? := by
    rcases join_cases h with ⟨_, hj⟩ | ⟨front, hj, _⟩
    · rw [hj]
    · rw [hj, List.getLast?_append_of_ne_nil _ (List.cons_ne_nil _ _), List.getLast?_cons_of_ne_nil hne]
  rw [steps_eq, steps_eq, directorySteps_join h, this, List.append_assoc]

theorem steps_ne_nil (hne : name ≠ []) : steps name ≠ [] := by
  have ⟨c, rest, hn⟩ := List.exists_cons_of_ne_nil hne
  have hc : (c == '/') = false := by
    rw [hn] at h
    exact h
  rw [steps_eq, directorySteps, hn, split, splitWhere, hc]
  cases splitWhere (· == '/') rest <;> simp

end Relative

theorem steps_join_nil (hne : base ≠ []) : steps (join base []) = directorySteps base ++ [here] := by
  rcases @join_cases base [] rfl with ⟨hb, _⟩ | ⟨front, hj, _⟩
  · exact absurd hb hne
  · have hs := @directorySteps_join base [] rfl
    have hl : (join base []).getLast? = some '/' := by rw [hj, List.getLast?_concat]
    rw [steps_eq, hs, hl, if_pos rfl]
    exact congrArg (· ++ [here]) (List.append_nil _)

theorem not_mem_steps (h : climbs name = false) : above ∉ steps name := by
  intro hm
  rw [steps_eq] at hm
  rcases List.mem_append.mp hm with hm | hm
  · have : above ∈ split '/' name := List.mem_of_mem_filter hm
    rw [climbs, List.contains_iff_mem.mpr this] at h
    cases h
  · split at hm
    · exact absurd hm (by decide)
    · cases hm

structure IsFileName (name : Text) : Prop where
  noSlash  : '/' ∉ name
  notEmpty : name ≠ []
  notHere  : name ≠ here
  notAbove : name ≠ above

theorem IsFileName.follow_eq (n : IsFileName name) (place : Location) : follow place name = place ++ [name] := by
  rw [follow, if_neg n.notHere, if_neg n.notAbove]

structure IsName (name : Text) : Prop extends IsFileName name where
  noNul : '\x00' ∉ name
  fits  : byteLength name ≤ 255

theorem byteLength_append (a b : Text) : byteLength (a ++ b) = byteLength a + byteLength b := by
  have sum (s : Text) : byteLength s = (s.map Char.utf8Size).sum := by
    rw [byteLength, List.sum_eq_foldl, List.foldl_map]
  rw [sum, sum, sum, List.map_append, List.sum_append]

theorem byteLength_ofLocation_le (place : Location) (hne : names ≠ []) :
    byteLength (ofLocation place) ≤ byteLength (ofLocation (place ++ names)) ∧
      byteLength (Text.join ['/'] names) ≤ byteLength (ofLocation (place ++ names)) := by
  have cons (names : Location) : byteLength (ofLocation names) = 1 + byteLength (Text.join ['/'] names) :=
    byteLength_append ['/'] _
  rw [cons, cons]
  by_cases hp : place = []
  case pos =>
    rw [hp, List.nil_append]
    exact ⟨Nat.add_le_add_left (Nat.zero_le _) 1, Nat.le_add_left _ _⟩
  case neg =>
    rw [join_append hp hne, byteLength_append, byteLength_append]
    omega

theorem steps_of_names (h : ∀ name ∈ names, IsName name) (hne : names ≠ []) :
    isAbsolute (Text.join ['/'] names) = false ∧ Text.join ['/'] names ≠ [] ∧
      steps (Text.join ['/'] names) = names := by
  have hs := split_join hne fun name hn => (h name hn).noSlash
  have notEmpty : [] ∉ names := fun hm => (h [] hm).notEmpty rfl
  generalize Text.join ['/'] names = path at *
  refine ⟨?_, ?_, ?_⟩
  · refine beq_false_of_ne fun hp => notEmpty ?_
    obtain ⟨rest, hr⟩ := List.head?_eq_some_iff.mp hp
    rw [← hs, hr, split, splitWhere]
    exact List.mem_cons_self
  · rintro rfl
    exact notEmpty (hs ▸ List.mem_cons_self)
  · have : path.getLast? ≠ some '/' := by
      intro hl
      obtain ⟨front, hf⟩ := List.getLast?_eq_some_iff.mp hl
      rw [← hs, hf, split_append] at notEmpty
      exact notEmpty (List.mem_append_right _ List.mem_cons_self)
    rw [steps_eq, if_neg this, List.append_nil, directorySteps, hs, List.filter_eq_self]
    intro name hn
    exact decide_eq_true (h name hn).notEmpty

end Path

namespace FileTree

variable {tree : FileTree} {start anchor place last : Location} {base name path step : Text}
  {steps front names : List Text} {entry : Entry}

theorem walk_cons_eq_ok_iff :
    tree.walk start (step :: steps) = .ok last ↔
      tree.get? start = some .directory ∧ Path.byteLength step ≤ 255 ∧
        (tree.get? (Path.follow start step)).isSome ∧ tree.walk (Path.follow start step) steps = .ok last := by
  rw [walk]
  cases tree.get? start
  case none => simp
  case some entry =>
    cases entry
    case file => simp
    case directory =>
      by_cases hl : 255 < Path.byteLength step
      · simp [hl, Nat.not_le.mpr hl]
      · cases tree.get? (Path.follow start step) <;> simp [hl, Nat.not_lt.mp hl]

theorem walk_append (front back : List Text) :
    tree.walk start (front ++ back) = (tree.walk start front).bind (tree.walk · back) := by
  induction front generalizing start
  case nil => rfl
  case cons step front hi =>
    simp only [List.cons_append, walk]
    split
    · rfl
    · rfl
    · split
      · rfl
      · split
        · rfl
        · exact hi

theorem prefix_of_walk (h : Path.above ∉ steps) (hw : tree.walk start steps = .ok last) : start <+: last := by
  induction steps generalizing start
  case nil =>
    cases hw
    exact List.prefix_refl _
  case cons step steps hi =>
    have ⟨hs, h⟩ := not_or.mp fun hm => h (List.mem_cons.mpr hm)
    have ⟨_, _, _, hw⟩ := walk_cons_eq_ok_iff.mp hw
    refine .trans ?_ (hi h hw)
    rw [Path.follow, if_neg (Ne.symm hs)]
    split
    · exact List.prefix_refl _
    · exact List.prefix_append _ _

theorem walk_here (h : tree.get? start = some .directory) : tree.walk start [Path.here] = .ok start := by
  refine walk_cons_eq_ok_iff.mpr ⟨h, by decide, ?_, rfl⟩
  change (tree.get? start).isSome
  rw [h]
  rfl

def Leads (tree : FileTree) (path : Text) (place : Location) : Prop :=
  tree.walk (tree.start path) (Path.steps path) = .ok place

theorem Leads.unique (h : tree.Leads path place) (h' : tree.Leads path last) : place = last :=
  Except.ok.inj (h.symm.trans h')

theorem leads_iff_of_directory (h : tree.get? place = some .directory) :
    tree.Leads path place ↔ tree.walk (tree.start path) (Path.directorySteps path) = .ok place := by
  rw [Leads, Path.steps_eq]
  split
  case isFalse => rw [List.append_nil]
  case isTrue =>
    rw [walk_append]
    cases hw : tree.walk (tree.start path) (Path.directorySteps path)
    case error => rfl
    case ok last =>
      change tree.walk last [Path.here] = .ok place ↔ _
      rw [walk_cons_eq_ok_iff]
      constructor
      · rintro ⟨_, _, _, hl⟩
        exact hl
      · intro hl
        cases hl
        exact walk_cons_eq_ok_iff.mp (walk_here h)

theorem start_join (h : Path.isAbsolute name = false) (tree : FileTree) :
    tree.start (Path.join base name) = tree.start base := by
  rw [start, start, Path.isAbsolute_join h]

theorem exists_of_leads_join (h : Path.isAbsolute name = false) (hne : Path.join base name ≠ [])
    (hl : tree.Leads (Path.join base name) place) :
    ∃ anchor, tree.Leads base anchor ∧ tree.get? anchor = some .directory ∧
      tree.walk anchor (Path.steps name) = .ok place := by
  rw [Leads, start_join h] at hl
  by_cases hn : name = []
  case pos =>
    subst hn
    have hb : base ≠ [] := by
      rintro rfl
      exact hne rfl
    rw [Path.steps_join_nil hb, walk_append] at hl
    have ⟨anchor, ha, hl⟩ := exists_of_bind hl
    have ⟨hd, _⟩ := walk_cons_eq_ok_iff.mp hl
    cases hl.symm.trans (walk_here hd)
    exact ⟨place, (leads_iff_of_directory hd).mpr ha, hd, rfl⟩
  case neg =>
    rw [Path.steps_join h hn, walk_append] at hl
    have ⟨anchor, ha, hl⟩ := exists_of_bind hl
    have hd : tree.get? anchor = some .directory := by
      have ⟨step, steps, hs⟩ := List.exists_cons_of_ne_nil (Path.steps_ne_nil h hn)
      rw [hs] at hl
      exact (walk_cons_eq_ok_iff.mp hl).1
    exact ⟨anchor, (leads_iff_of_directory hd).mpr ha, hd, hl⟩

theorem leads_join (h : Path.isAbsolute name = false) (hne : name ≠ []) (hb : tree.Leads base anchor)
    (hd : tree.get? anchor = some .directory) (hw : tree.walk anchor (Path.steps name) = .ok place) :
    tree.Leads (Path.join base name) place := by
  rw [Leads, start_join h, Path.steps_join h hne, walk_append, (leads_iff_of_directory hd).mp hb]
  exact hw

theorem checkPath_eq_ok_iff :
    checkPath path = .ok () ↔ '\x00' ∉ path ∧ path ≠ [] ∧ Path.byteLength path < 4096 := by
  rw [checkPath]
  split
  case isTrue hn => simp [hn]
  case isFalse hn =>
    split
    case isTrue he => simp [he]
    case isFalse he => simp [hn, he]

theorem canonical?_eq_some_iff :
    tree.canonical? path = some place ↔
      '\x00' ∉ path ∧ path ≠ [] ∧ tree.Leads path place ∧ Path.byteLength (Path.ofLocation place) < 4096 := by
  rw [canonical?, Leads]
  by_cases hp : '\x00' ∈ path ∨ path = []
  case pos =>
    rw [if_pos hp]
    simp only [reduceCtorEq, false_iff]
    exact fun ⟨hn, hne, _⟩ => hp.elim hn hne
  case neg =>
    have ⟨hn, hne⟩ := not_or.mp hp
    rw [if_neg hp]
    cases tree.walk (tree.start path) (Path.steps path)
    case error => simp
    case ok last =>
      by_cases hl : Path.byteLength (Path.ofLocation last) < 4096
      · simp only [if_pos hl, Option.some.injEq, hn, hne, Except.ok.injEq, not_false_eq_true, true_and, ne_eq]
        exact ⟨fun he => ⟨he, he ▸ hl⟩, And.left⟩
      · simp only [if_neg hl, reduceCtorEq, false_iff]
        rintro ⟨_, _, he, hf⟩
        cases he
        exact hl hf

theorem entryAt_eq_ok (h : checkPath path = .ok ()) (hl : tree.Leads path place) (he : tree.get? place = some entry) :
    tree.entryAt path = .ok entry := by
  have : tree.locate path = .ok place := by
    rw [locate, h]
    exact hl
  simp only [entryAt, this, he, bind, Except.bind]

theorem exists_of_entryAt (h : tree.entryAt path = .ok entry) :
    ∃ place, path ≠ [] ∧ tree.Leads path place ∧ tree.get? place = some entry := by
  have ⟨place, hl, h⟩ := exists_of_bind h
  have ⟨_, hc, hl⟩ := exists_of_bind hl
  refine ⟨place, ?_, hl, ?_⟩
  · rintro rfl
    cases hc
  · split at h
    · cases h
      assumption
    · cases h

-- What every file system keeps: an entry lies in a directory and has a name.
structure Sound (tree : FileTree) : Prop where
  parent : ∀ place name, (tree.get? (place ++ [name])).isSome → tree.get? place = some .directory
  name   : ∀ place name, (tree.get? (place ++ [name])).isSome → Path.IsName name

namespace Sound

variable (s : tree.Sound)
include s

theorem isSome_above (h : (tree.get? (place ++ names)).isSome) : (tree.get? place).isSome := by
  induction names using List.reverseRecOn
  case nil => simpa using h
  case append_singleton names name hi =>
    rw [← List.append_assoc] at h
    apply hi
    rw [s.parent _ _ h]
    rfl

theorem isName (h : (tree.get? (place ++ names)).isSome) : ∀ name ∈ names, Path.IsName name := by
  induction names generalizing place
  case nil => exact nofun
  case cons name names hi =>
    have : place ++ name :: names = place ++ [name] ++ names := by simp
    rw [this] at h
    exact List.forall_mem_cons.mpr ⟨s.name _ _ (s.isSome_above h), hi h⟩

theorem walk_names (h : (tree.get? (place ++ names)).isSome) : tree.walk place names = .ok (place ++ names) := by
  induction names generalizing place
  case nil =>
    rw [List.append_nil]
    rfl
  case cons name names hi =>
    have he : place ++ name :: names = place ++ [name] ++ names := by simp
    rw [he] at h ⊢
    have below := s.isSome_above h
    have hn := s.name _ _ below
    refine walk_cons_eq_ok_iff.mpr ⟨s.parent _ _ below, hn.fits, ?_⟩
    rw [hn.follow_eq]
    exact ⟨below, hi h⟩

theorem leads_join (hb : tree.Leads base anchor) (hne : names ≠ []) (h : (tree.get? (anchor ++ names)).isSome) :
    tree.Leads (Path.join base (Text.join ['/'] names)) (anchor ++ names) := by
  have ⟨relative, notEmpty, hs⟩ := Path.steps_of_names (s.isName h) hne
  have hd : tree.get? anchor = some .directory := by
    have ⟨name, rest, hn⟩ := List.exists_cons_of_ne_nil hne
    have he : anchor ++ names = anchor ++ [name] ++ rest := by simp [hn]
    exact s.parent _ _ (s.isSome_above (he ▸ h))
  exact FileTree.leads_join relative notEmpty hb hd (hs.symm ▸ s.walk_names h)

theorem noNul_of_walk (h : tree.walk start steps = .ok last) : ∀ step ∈ steps, '\x00' ∉ step := by
  induction steps generalizing start
  case nil => exact nofun
  case cons step steps hi =>
    have ⟨_, _, there, h⟩ := walk_cons_eq_ok_iff.mp h
    refine List.forall_mem_cons.mpr ⟨?_, hi h⟩
    rw [Path.follow] at there
    split at there
    case isTrue hs => exact hs ▸ by decide
    case isFalse =>
      split at there
      case isTrue hs => exact hs ▸ by decide
      case isFalse => exact (s.name _ _ there).noNul

theorem noNul_of_leads (h : tree.Leads path place) : '\x00' ∉ path := by
  rw [← join_split '/' path]
  refine not_mem_join (by decide) fun piece hp hm => ?_
  have given : piece ≠ [] := List.ne_nil_of_mem hm
  refine s.noNul_of_walk h piece ?_ hm
  exact List.mem_append_left _ (List.mem_filter.mpr ⟨hp, decide_eq_true given⟩)

end Sound

theorem sound_of_forall_mem (h : ∀ e ∈ tree.entries, ∃ parent name,
    e.1 = parent ++ [name] ∧ tree.get? parent = some .directory ∧ Path.IsName name) : tree.Sound := by
  have key (place : Location) (name : Text) (hs : (tree.get? (place ++ [name])).isSome) :
      tree.get? place = some .directory ∧ Path.IsName name := by
    rw [get?, if_neg (by simp)] at hs
    obtain ⟨_, hl⟩ := Option.isSome_iff_exists.mp hs
    obtain ⟨parent, last, he, hd, hn⟩ := h _ (mem_of_lookup hl)
    obtain ⟨hp, hlast⟩ := List.append_inj' he rfl
    cases hlast
    exact ⟨hp ▸ hd, hn⟩
  exact ⟨fun place name hs => (key place name hs).1, fun place name hs => (key place name hs).2⟩

end FileTree
end WikiPages
