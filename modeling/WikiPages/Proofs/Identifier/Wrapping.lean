import Mathlib.Algebra.Group.Int.Defs
import Mathlib.Algebra.Group.Nat.Hom
import WikiPages.Proofs.Identifier.Issuing

namespace WikiPages.IdPool

open Text Identifier

variable {taken ids : List Text} {candidate id : Text} {seq : Int32} {tries start n : Nat}

theorem toInt_ofNat_wrapped (h : 2 ^ 31 ≤ n) (h' : n ≤ 2 ^ 32) : (Int32.ofNat n).toInt = n - 2 ^ 32 := by
  rw [Int32.toInt_ofNat', Int.bmod_def, Int32.size]
  omega

theorem suffixed_ofNat (h : n < 2 ^ 31) : suffixed candidate (.ofNat n) = numbered candidate n := by
  rw [suffixed, Int32.toInt_ofNat_of_lt h]
  rfl

theorem token_of_mem_ofNat {c : Char} (h : c ∈ ofNat n) : isTokenChar c = true := by
  have : c.isDigit = true := Nat.isDigit_of_mem_toDigits (by decide) (by decide) h
  simp [isTokenChar, this]

theorem token_of_mem_ofInt {c : Char} {i : Int} (h : c ∈ ofInt i) : isTokenChar c = true := by
  cases i
  case ofNat => exact token_of_mem_ofNat h
  case negSucc =>
    rcases List.mem_cons.mp h with rfl | h
    · rfl
    · exact token_of_mem_ofNat h

theorem exists_ofNat_of_nonpos (h : seq ≤ 0) : ∃ n, 2 ^ 31 ≤ n ∧ n ≤ 2 ^ 32 ∧ seq = .ofNat n := by
  have above : seq.toInt ≤ 0 := Int32.le_iff_toInt_le.mp h
  have below := seq.le_toInt
  refine ⟨(seq.toInt + 2 ^ 32).toNat, by omega, by omega, ?_⟩
  rw [← Int32.toInt_inj, toInt_ofNat_wrapped (by omega) (by omega)]
  omega

theorem exists_ofNat (seq : Int32) : ∃ n, 1 ≤ n ∧ n ≤ 2 ^ 32 ∧ seq = .ofNat n := by
  by_cases h : seq ≤ 0
  case pos =>
    have ⟨n, low, high, he⟩ := exists_ofNat_of_nonpos h
    exact ⟨n, by omega, high, he⟩
  case neg =>
    have positive : 0 < seq.toInt := Int.not_le.mp fun hle => h (Int32.le_iff_toInt_le.mpr hle)
    have := seq.toInt_lt
    refine ⟨seq.toInt.toNat, by omega, by omega, ?_⟩
    rw [← Int32.toInt_inj, Int32.toInt_ofNat_of_lt (by omega)]
    omega

theorem exists_of_freeSuffix (h : freeSuffix taken candidate tries (.ofNat start) = some seq) :
    ∃ n, start ≤ n ∧ n < start + tries ∧ seq = .ofNat n ∧ suffixed candidate (.ofNat n) ∉ taken ∧
      ∀ m, start ≤ m → m < n → suffixed candidate (.ofNat m) ∈ taken := by
  induction tries generalizing start
  case zero => cases h
  case succ tries hi =>
    rw [freeSuffix] at h
    split at h
    case isTrue used =>
      have ⟨n, low, high, he, free, passed⟩ := hi (Int32.ofNat_add start 1 ▸ h)
      refine ⟨n, by omega, by omega, he, free, fun m hm hn => ?_⟩
      rcases Nat.eq_or_lt_of_le hm with rfl | hm
      · exact List.contains_iff_mem.mp used
      · exact passed m hm hn
    case isFalse unused =>
      cases h
      exact ⟨start, Nat.le_refl _, by omega, rfl, unused ∘ List.contains_iff_mem.mpr, fun m hm hn => by omega⟩

theorem taken_of_freeSuffix (h : freeSuffix taken candidate tries (.ofNat start) = none) (low : start ≤ n)
    (high : n < start + tries) : suffixed candidate (.ofNat n) ∈ taken := by
  induction tries generalizing start
  case zero => exact absurd high (Nat.not_lt.mpr low)
  case succ tries hi =>
    rw [freeSuffix] at h
    split at h
    case isTrue used =>
      rcases Nat.eq_or_lt_of_le low with rfl | low
      · exact List.contains_iff_mem.mp used
      · exact hi (Int32.ofNat_add start 1 ▸ h) low (by omega)
    case isFalse => cases h

-- The candidate is taken, and so is each of its suffixes up to the largest.
structure Full (taken : List Text) (candidate : Text) : Prop where
  used   : candidate ∈ taken
  passed : ∀ n, 1 ≤ n → n < 2 ^ 31 → numbered candidate n ∈ taken

-- The id of a candidate when the search has gone past the largest suffix: with the smallest that is free, not from 1
-- but from the smallest there is.
structure Wrapped (taken : List Text) (candidate id : Text) (seq : Int32) : Prop where
  nonpos   : seq ≤ 0
  eq       : id = suffixed candidate seq
  free     : id ∉ taken
  least    : ∀ lower < seq, suffixed candidate lower ∈ taken

-- What the candidate is issued when some ids are taken.
structure Next (taken : List Text) (candidate id : Text) : Prop where
  counted : ¬ Full taken candidate → FirstFree taken candidate id
  wrapped : Full taken candidate → ∃ seq, Wrapped taken candidate id seq

theorem Full.congr {other : List Text} (h : Full taken candidate) (hm : other.Perm taken) : Full other candidate where
  used   := hm.mem_iff.mpr h.used
  passed := fun n low high => hm.mem_iff.mpr (h.passed n low high)

theorem Full.le_length (h : Full taken candidate) : 2 ^ 31 ≤ taken.length := by
  have run m (low : 1 ≤ m) (high : m < 1 + (2 ^ 31 - 1)) : numbered candidate m ∈ taken := h.passed m low (by omega)
  have := lt_length_of_taken h.used run
  omega

namespace Next

theorem of_mem (used : candidate ∈ taken)
    (h : freeSuffix taken candidate Int32.size 1 = some seq) : Next taken candidate (suffixed candidate seq) := by
  have h : freeSuffix taken candidate Int32.size (.ofNat 1) = some seq := h
  obtain ⟨n, low, high, rfl, free, passed⟩ := exists_of_freeSuffix h
  rw [Int32.size] at high
  constructor
  case counted =>
    intro left
    have small : n < 2 ^ 31 := by
      by_contra large
      exact left ⟨used, fun m hm hl => suffixed_ofNat hl ▸ passed m hm (by omega)⟩
    have least m (hm : 1 ≤ m) (hl : m < n) : numbered candidate m ∈ taken :=
      suffixed_ofNat (Nat.lt_trans hl small) ▸ passed m hm hl
    have run m (hm : 1 ≤ m) (hl : m < 1 + (n - 1)) : numbered candidate m ∈ taken := least m hm (by omega)
    have := lt_length_of_taken used run
    rw [suffixed_ofNat small] at free ⊢
    exact .numbered n used low (by omega) free least
  case wrapped =>
    intro full
    have large : 2 ^ 31 ≤ n := by
      by_contra small
      have small : n < 2 ^ 31 := Nat.not_le.mp small
      exact free (suffixed_ofNat small ▸ full.passed n low small)
    have value := toInt_ofNat_wrapped large (by omega)
    have nonpos : Int32.ofNat n ≤ 0 := Int32.le_iff_toInt_le.mpr (by rw [value, Int32.toInt_zero]; omega)
    refine ⟨_, nonpos, rfl, free, fun lower hl => ?_⟩
    obtain ⟨m, hm, hm', rfl⟩ := exists_ofNat_of_nonpos (Int32.le_of_lt (Int32.lt_of_lt_of_le hl nonpos))
    have := Int32.lt_iff_toInt_lt.mp hl
    rw [value, toInt_ofNat_wrapped hm hm'] at this
    exact passed m (by omega) (by omega)

theorem not_mem (h : Next taken candidate id) : id ∉ taken := by
  by_cases full : Full taken candidate
  case pos =>
    have ⟨_, wrapped⟩ := h.wrapped full
    exact wrapped.free
  case neg => exact (h.counted full).not_mem

theorem ne_nil (h : Next taken candidate id) (hc : candidate ≠ []) : id ≠ [] := by
  by_cases full : Full taken candidate
  case pos =>
    have ⟨_, wrapped⟩ := h.wrapped full
    exact wrapped.eq ▸ List.append_ne_nil_of_left_ne_nil hc _
  case neg => exact (h.counted full).ne_nil hc

theorem token (h : Next taken candidate id) (hc : ∀ c ∈ candidate, isTokenChar c = true) :
    ∀ c ∈ id, isTokenChar c = true := by
  by_cases full : Full taken candidate
  case pos =>
    have ⟨seq, wrapped⟩ := h.wrapped full
    rw [wrapped.eq]
    intro c hm
    rcases List.mem_append.mp hm with hm | hm
    · exact hc c hm
    · rcases List.mem_cons.mp hm with rfl | hm
      · rfl
      · exact token_of_mem_ofInt hm
  case neg => exact (h.counted full).token hc

theorem congr {other : List Text} (h : Next taken candidate id) (hm : other.Perm taken) : Next other candidate id where
  counted left := (h.counted fun full => left (full.congr hm)).congr hm
  wrapped full := by
    have ⟨seq, wrapped⟩ := h.wrapped (full.congr hm.symm)
    exact ⟨seq, wrapped.nonpos, wrapped.eq, wrapped.free ∘ hm.mem_iff.mp,
      fun lower hl => hm.mem_iff.mpr (wrapped.least lower hl)⟩

end Next

-- The search for a suffix of the candidate never ends.
structure Exhausted (taken : List Text) (candidate : Text) : Prop where
  used   : candidate ∈ taken
  passed : ∀ seq, suffixed candidate seq ∈ taken

theorem Exhausted.full (h : Exhausted taken candidate) : Full taken candidate where
  used   := h.used
  passed := fun n _ small => suffixed_ofNat small ▸ h.passed (.ofNat n)

section Pool

variable {pool : IdPool}

theorem next_of_freeId? (h : pool.freeId? candidate = some id) : Next pool.issued candidate id := by
  rw [freeId?] at h
  split at h
  case isTrue used =>
    have ⟨_, search, he⟩ := Option.map_eq_some_iff.mp h
    exact he ▸ .of_mem (List.contains_iff_mem.mp used) search
  case isFalse unused =>
    cases h
    have free := unused ∘ List.contains_iff_mem.mpr
    exact ⟨fun _ => .unnumbered free, fun full => absurd full.used free⟩

theorem next_of_issue? {context : Text} {after : IdPool} (h : pool.issue? context = some (id, after)) :
    Next pool.issued (normalize context) id ∧ after.issued = id :: pool.issued := by
  obtain ⟨id, search, he⟩ := Option.map_eq_some_iff.mp h
  cases he
  exact ⟨next_of_freeId? search, rfl⟩

theorem freeId?_eq_none_iff : pool.freeId? candidate = none ↔ Exhausted pool.issued candidate := by
  rw [freeId?]
  constructor
  case mp =>
    intro h
    split at h
    case isFalse => cases h
    case isTrue used =>
      refine ⟨List.contains_iff_mem.mp used, fun seq => ?_⟩
      have none : freeSuffix pool.issued candidate Int32.size (.ofNat 1) = none := Option.map_eq_none_iff.mp h
      obtain ⟨n, low, high, rfl⟩ := exists_ofNat seq
      exact taken_of_freeSuffix none low (by rw [Int32.size]; omega)
  case mpr =>
    intro h
    rw [if_pos (List.contains_iff_mem.mpr h.used), Option.map_eq_none_iff, Option.eq_none_iff_forall_ne_some]
    intro seq search
    have search : freeSuffix pool.issued candidate Int32.size (.ofNat 1) = some seq := search
    have ⟨_, _, _, _, free, _⟩ := exists_of_freeSuffix search
    exact free (h.passed _)

theorem issue?_eq_some (h : pool.size < 2 ^ 31) (context : Text) : pool.issue? context = some (pool.issue context) := by
  have left : ¬ Full pool.issued (normalize context) := fun full => Nat.not_lt.mpr full.le_length h
  rw [issue?, issue]
  cases hs : pool.freeId? (normalize context)
  case none => exact absurd (freeId?_eq_none_iff.mp hs).full left
  case some id =>
    rw [((next_of_freeId? hs).counted left).unique (firstFree_freeId pool _)]
    rfl

end Pool

namespace Request

def serve? (pool : IdPool) : Request → Option (Text × IdPool)
  | text context    => pool.issue? context
  | line kind title => pool.issueFor? kind title

theorem serve?_eq (pool : IdPool) (r : Request) : r.serve? pool = pool.issue? r.context := by
  cases r <;> rfl

end Request

variable {r : Request} {requests : List Request} {pool : IdPool}

def issueAll? (requests : List Request) : Option (List Text × IdPool) :=
  requests.foldlM (fun served r => (r.serve? served.2).map fun next => (served.1 ++ [next.1], next.2)) ([], {})

theorem issueAll?_concat (requests : List Request) (r : Request) :
    issueAll? (requests ++ [r]) = (issueAll? requests).bind fun served =>
      (served.2.issue? r.context).map fun next => (served.1 ++ [next.1], next.2) := by
  rw [issueAll?, List.foldlM_append, ← issueAll?]
  cases issueAll? requests
  case none => rfl
  case some served => simp [Request.serve?_eq]

inductive Issued : List Request → List Text → Prop where
  | nil : Issued [] []
  | concat {requests : List Request} {ids : List Text} {r : Request} {id : Text}
      (before : Issued requests ids) (next : Next ids (normalize r.context) id) :
      Issued (requests ++ [r]) (ids ++ [id])

namespace Issued

theorem length_eq (h : Issued requests ids) : ids.length = requests.length := by
  induction h
  case nil => rfl
  case concat hi => simp [hi]

theorem nodup (h : Issued requests ids) : ids.Nodup := by
  induction h
  case nil => exact .nil
  case concat next hi => simpa using hi.concat next.not_mem

theorem sound (h : Issued requests ids) :
    ∀ id ∈ ids, id ≠ [] ∧ ∀ c ∈ id, isTokenChar c = true := by
  induction h
  case nil => simp
  case concat next hi =>
    intro id hm
    rcases List.mem_append.mp hm with hm | hm
    · exact hi id hm
    · cases List.mem_singleton.mp hm
      exact ⟨next.ne_nil (normalize_ne_nil _), next.token (normalize_token _)⟩

theorem next (h : Issued requests ids) {i : Nat} (hr : requests[i]? = some r)
    (hi : ids[i]? = some id) : Next (ids.take i) (normalize r.context) id := by
  induction h
  case nil => cases hr
  case concat requests ids r' id' before next ih =>
    have length := before.length_eq
    by_cases h : i < ids.length
    case pos =>
      rw [List.getElem?_append_left (length ▸ h)] at hr
      rw [List.getElem?_append_left h] at hi
      rw [List.take_append_of_le_length (Nat.le_of_lt h)]
      exact ih hr hi
    case neg =>
      have he : i = ids.length := by
        have := (List.getElem?_eq_some_iff.mp hi).1
        rw [List.length_append, List.length_singleton] at this
        omega
      subst he
      rw [List.getElem?_concat_length] at hi
      rw [length, List.getElem?_concat_length] at hr
      cases hi
      cases hr
      rw [List.take_left]
      exact next

end Issued

theorem issued_of_issueAll? (h : issueAll? requests = some (ids, pool)) :
    Issued requests ids ∧ pool.issued = ids.reverse := by
  induction requests using List.reverseRecOn generalizing ids pool
  case nil =>
    cases h
    exact ⟨.nil, rfl⟩
  case append_singleton requests r hi =>
    rw [issueAll?_concat] at h
    obtain ⟨⟨before, held⟩, hb, h⟩ := Option.bind_eq_some_iff.mp h
    obtain ⟨⟨id, after⟩, hs, he⟩ := Option.map_eq_some_iff.mp h
    cases he
    have ⟨issued, kept⟩ := hi hb
    have ⟨next, added⟩ := next_of_issue? hs
    rw [kept] at next added
    exact ⟨.concat issued (next.congr (List.reverse_perm _).symm), by rw [added, List.reverse_concat]⟩

theorem issue?_eq_none_iff {context : Text} :
    pool.issue? context = none ↔ Exhausted pool.issued (normalize context) := by
  rw [issue?, Option.map_eq_none_iff, freeId?_eq_none_iff]

theorem Exhausted.congr {other : List Text} (h : Exhausted taken candidate) (hm : other.Perm taken) :
    Exhausted other candidate where
  used   := hm.mem_iff.mpr h.used
  passed := fun seq => hm.mem_iff.mpr (h.passed seq)

theorem exhausted_iff (h : issueAll? requests = some (ids, pool)) (context : Text) :
    pool.issue? context = none ↔ Exhausted ids (normalize context) := by
  have ⟨_, held⟩ := issued_of_issueAll? h
  rw [issue?_eq_none_iff, held]
  exact ⟨fun e => e.congr (List.reverse_perm _).symm, fun e => e.congr (List.reverse_perm _)⟩

section Repeating

variable {context : Text}

def counted (candidate : Text) (n : Nat) : List Text := candidate :: (List.range' 1 n).map (numbered candidate)

theorem mem_counted : id ∈ counted candidate n ↔ id = candidate ∨ ∃ m, 1 ≤ m ∧ m ≤ n ∧ id = numbered candidate m := by
  rw [counted, List.mem_cons, List.mem_map]
  refine or_congr_right (exists_congr fun m => ?_)
  rw [List.mem_range'_1]
  constructor
  · exact fun ⟨h, he⟩ => ⟨h.1, by omega, he.symm⟩
  · exact fun ⟨low, high, he⟩ => ⟨⟨low, by omega⟩, he.symm⟩

theorem firstFree_counted (candidate : Text) (n : Nat) :
    FirstFree (counted candidate n) candidate (numbered candidate (n + 1)) := by
  refine .numbered (n + 1) List.mem_cons_self (by omega) (by simp [counted]) (fun h => ?_) fun m low high => ?_
  · rcases mem_counted.mp h with he | ⟨m, _, high, he⟩
    · exact numbered_ne_self candidate _ he
    · have := numbered_injective candidate he
      omega
  · exact mem_counted.mpr (.inr ⟨m, low, by omega, rfl⟩)

theorem issueAll?_replicate (h : n < 2 ^ 31) :
    ∃ pool, issueAll? (List.replicate (n + 1) (.text context)) = some (counted (normalize context) n, pool) := by
  induction n
  case zero => exact ⟨_, rfl⟩
  case succ n hi =>
    have ⟨pool, served⟩ := hi (by omega)
    have ⟨_, held⟩ := issued_of_issueAll? served
    have small : pool.size < 2 ^ 31 := by simpa [size, held, counted] using h
    have first : FirstFree (counted (normalize context) n) (normalize context) (pool.issue context).1 :=
      (held ▸ firstFree_freeId pool (normalize context)).congr (List.reverse_perm _).symm
    refine ⟨(pool.issue context).2, ?_⟩
    rw [List.replicate_succ', issueAll?_concat, served, Option.bind_some]
    change (pool.issue? context).map _ = _
    rw [issue?_eq_some small, Option.map_some, first.unique (firstFree_counted _ n), counted, counted,
      List.range'_concat, List.map_append, List.cons_append, Nat.one_mul, Nat.add_comm 1 n]
    rfl

theorem full_counted (candidate : Text) : Full (counted candidate (2 ^ 31 - 1)) candidate where
  used   := List.mem_cons_self
  passed := fun m low high => mem_counted.mpr (.inr ⟨m, low, by omega, rfl⟩)

theorem suffixed_minValue_not_mem_counted : suffixed candidate Int32.minValue ∉ counted candidate n := by
  intro h
  have minus : '-' ∈ ofInt Int32.minValue.toInt := List.mem_cons_self
  rcases mem_counted.mp h with he | ⟨m, _, _, he⟩
  · have := congrArg List.length he
    rw [suffixed, List.length_append, List.length_cons] at this
    omega
  · have digits : ofInt Int32.minValue.toInt = ofNat m := (List.cons.inj (List.append_cancel_left he)).2
    have : Char.isDigit '-' = true := Nat.isDigit_of_mem_toDigits (by decide) (by decide) (digits ▸ minus)
    cases this

-- The bound cannot be raised: one more request for the same text is issued a number that is below 0.
theorem issueAll?_repeated (context : Text) :
    ∃ pool, issueAll? (List.replicate (2 ^ 31 + 1) (.text context)) =
      some (counted (normalize context) (2 ^ 31 - 1) ++ [suffixed (normalize context) Int32.minValue], pool) := by
  have below : 2 ^ 31 - 1 < 2 ^ 31 := by omega
  have ⟨pool, served⟩ := @issueAll?_replicate _ context below
  have ⟨_, held⟩ := issued_of_issueAll? served
  have number : 2 ^ 31 - 1 + 1 = 2 ^ 31 := by omega
  rw [number] at served
  have fresh : suffixed (normalize context) Int32.minValue ∉ counted (normalize context) (2 ^ 31 - 1) :=
    suffixed_minValue_not_mem_counted
  rw [List.replicate_succ', issueAll?_concat, served, Option.bind_some]
  change ∃ after, (pool.issue? context).map _ = _
  cases hs : pool.issue? context
  case none =>
    have exhausted := (exhausted_iff served context).mp hs
    exact absurd (exhausted.passed _) fresh
  case some last =>
    have ⟨next, _⟩ := next_of_issue? hs
    rw [held] at next
    have ⟨seq, wrapped⟩ := (next.congr (List.reverse_perm _).symm).wrapped (full_counted _)
    have smallest : seq = Int32.minValue := by
      by_contra hne
      have above : Int32.minValue < seq := Int32.lt_of_le_of_ne (Int32.minValue_le seq) (Ne.symm hne)
      exact fresh (wrapped.least _ above)
    exact ⟨last.2, by rw [Option.map_some, wrapped.eq, smallest]⟩

end Repeating
end WikiPages.IdPool
