import Mathlib.Data.List.Induction
import Mathlib.Data.List.Nodup
import Mathlib.Data.List.Perm.Subperm
import WikiPages.Identifier.Pool
import WikiPages.Proofs.Identifier.Token

namespace WikiPages.IdPool

open Text Identifier

variable {taken : List Text} {candidate id : Text} {n start tries : Nat}

theorem ofNat_injective : Function.Injective ofNat := by
  intro m n h
  have := congrArg (Nat.ofDigitChars 10 · 0) h
  simpa [ofNat] using this

theorem numbered_injective (candidate : Text) : Function.Injective (numbered candidate) := by
  intro m n h
  exact ofNat_injective (List.cons.inj (List.append_cancel_left h)).2

theorem numbered_ne_self (candidate : Text) (n : Nat) : numbered candidate n ≠ candidate := by
  intro h
  have := congrArg List.length h
  rw [numbered, List.length_append, List.length_cons] at this
  omega

theorem lt_length_of_taken (used : candidate ∈ taken)
    (run : ∀ m, start ≤ m → m < start + tries → numbered candidate m ∈ taken) :
    tries < taken.length := by
  have distinct : (candidate :: (List.range' start tries).map (numbered candidate)).Nodup := by
    refine List.nodup_cons.mpr ⟨?_, List.Nodup.map (numbered_injective candidate) List.nodup_range'⟩
    intro h
    have ⟨m, _, hm⟩ := List.mem_map.mp h
    exact numbered_ne_self candidate m hm
  have within : candidate :: (List.range' start tries).map (numbered candidate) ⊆ taken := by
    refine List.cons_subset.mpr ⟨used, ?_⟩
    intro id h
    have ⟨m, hm, he⟩ := List.mem_map.mp h
    have := List.mem_range'_1.mp hm
    exact he ▸ run m this.1 this.2
  simpa [Nat.succ_le_iff] using (distinct.subperm within).length_le

theorem le_freeNumber (taken : List Text) (candidate : Text) (tries start : Nat) :
    start ≤ freeNumber taken candidate tries start := by
  induction tries generalizing start
  case zero => exact Nat.le_refl start
  case succ tries hi =>
    rw [freeNumber]
    split
    case isTrue => exact Nat.le_of_succ_le (hi (start + 1))
    case isFalse => exact Nat.le_refl start

theorem taken_of_lt_freeNumber (hs : start ≤ n) (hn : n < freeNumber taken candidate tries start) :
    numbered candidate n ∈ taken := by
  induction tries generalizing start
  case zero => exact absurd hn (Nat.not_lt.mpr hs)
  case succ tries hi =>
    rw [freeNumber] at hn
    split at hn
    case isFalse => exact absurd hn (Nat.not_lt.mpr hs)
    case isTrue h =>
      cases Nat.eq_or_lt_of_le hs
      case inl he => exact he ▸ List.contains_iff_mem.mp h
      case inr hlt => exact hi hlt hn

theorem freeNumber_free_or_out (taken : List Text) (candidate : Text) (tries start : Nat) :
    numbered candidate (freeNumber taken candidate tries start) ∉ taken ∨
      freeNumber taken candidate tries start = start + tries := by
  induction tries generalizing start
  case zero => exact .inr rfl
  case succ tries hi =>
    rw [freeNumber]
    split
    case isTrue => exact (hi (start + 1)).imp_right (·.trans (by omega))
    case isFalse h => exact .inl fun hm => h (List.contains_iff_mem.mpr hm)

-- The id for a candidate when some are taken: the candidate itself, or it with the smallest number from 1
-- that is free. The number is at most that of the ids.
inductive FirstFree (taken : List Text) (candidate : Text) : Text → Prop where
  | unnumbered (free : candidate ∉ taken) : FirstFree taken candidate candidate
  | numbered (n : Nat) (used : candidate ∈ taken) (pos : 1 ≤ n) (le : n ≤ taken.length)
      (free : numbered candidate n ∉ taken)
      (least : ∀ m, 1 ≤ m → m < n → IdPool.numbered candidate m ∈ taken) :
      FirstFree taken candidate (IdPool.numbered candidate n)

namespace FirstFree

theorem not_mem (h : FirstFree taken candidate id) : id ∉ taken := by
  cases h
  case unnumbered free => exact free
  case numbered _ _ _ free _ => exact free

theorem ne_nil (h : FirstFree taken candidate id) (hc : candidate ≠ []) : id ≠ [] := by
  cases h
  case unnumbered => exact hc
  case numbered => exact List.append_ne_nil_of_left_ne_nil hc _

theorem token (h : FirstFree taken candidate id) (hc : ∀ c ∈ candidate, isTokenChar c = true) :
    ∀ c ∈ id, isTokenChar c = true := by
  cases h
  case unnumbered => exact hc
  case numbered n _ _ _ _ _ =>
    intro c hm
    rcases List.mem_append.mp hm with hm | hm
    · exact hc c hm
    · rcases List.mem_cons.mp hm with rfl | hm
      · rfl
      · have : c.isDigit = true := Nat.isDigit_of_mem_toDigits (by decide) (by decide) hm
        simp [isTokenChar, this]

theorem congr {other : List Text} (h : FirstFree taken candidate id) (hm : other.Perm taken) :
    FirstFree other candidate id := by
  cases h
  case unnumbered free => exact unnumbered (free <| hm.mem_iff.mp ·)
  case numbered n used pos le free least =>
    exact .numbered n (hm.mem_iff.mpr used) pos (hm.length_eq ▸ le) (free <| hm.mem_iff.mp ·)
      fun m hp hl => hm.mem_iff.mpr (least m hp hl)

theorem unique (h : FirstFree taken candidate id) {other : Text} (h' : FirstFree taken candidate other) :
    id = other := by
  cases h
  case unnumbered free =>
    cases h'
    case unnumbered => rfl
    case numbered used _ _ _ _ => exact absurd used free
  case numbered n used pos _ free least =>
    cases h'
    case unnumbered free' => exact absurd used free'
    case numbered m _ pos' _ free' least' =>
      rcases Nat.lt_trichotomy n m with hlt | rfl | hlt
      · exact absurd (least' n pos hlt) free
      · rfl
      · exact absurd (least m pos' hlt) free'

end FirstFree

theorem firstFree_freeId (pool : IdPool) (candidate : Text) :
    FirstFree pool.issued candidate (pool.freeId candidate) := by
  rw [freeId]
  split
  case isFalse h => exact .unnumbered fun hm => h (List.contains_iff_mem.mpr hm)
  case isTrue h =>
    have used := List.contains_iff_mem.mp h
    have least m (hp : 1 ≤ m) (hl : m < freeNumber pool.issued candidate (pool.issued.length + 1) 1) :
        numbered candidate m ∈ pool.issued := taken_of_lt_freeNumber hp hl
    have pos := le_freeNumber pool.issued candidate (pool.issued.length + 1) 1
    have free := freeNumber_free_or_out pool.issued candidate (pool.issued.length + 1) 1
    generalize freeNumber pool.issued candidate (pool.issued.length + 1) 1 = n at *
    have le : n ≤ pool.issued.length := by
      have run m (hp : 1 ≤ m) (hl : m < 1 + (n - 1)) : IdPool.numbered candidate m ∈ pool.issued :=
        least m hp (by omega)
      have := lt_length_of_taken used run
      omega
    exact .numbered n used pos le (free.resolve_right (by omega)) least

-- What an id is asked for: a text, or a line of some kind.
inductive Request where
  | text (context : Text)
  | line (kind title : Text)

namespace Request

def context : Request → Text
  | text context    => context
  | line kind title => lineContext kind title

def serve (pool : IdPool) : Request → Text × IdPool
  | text context    => pool.issue context
  | line kind title => pool.issueFor kind title

theorem serve_eq (pool : IdPool) (r : Request) : r.serve pool = pool.issue r.context := by
  cases r <;> rfl

end Request

variable {r : Request} {requests : List Request} {ids : List Text}

def issueAll : List Request → List Text × IdPool :=
  List.foldl (fun (ids, pool) r => (ids ++ [(r.serve pool).1], (r.serve pool).2)) ([], {})

theorem issueAll_concat (requests : List Request) (r : Request) :
    issueAll (requests ++ [r]) =
      ((issueAll requests).1 ++ [((issueAll requests).2.issue r.context).1],
        ((issueAll requests).2.issue r.context).2) := by
  rw [issueAll, List.foldl_append, ← Request.serve_eq]
  rfl

theorem issued_issueAll (requests : List Request) :
    (issueAll requests).2.issued = (issueAll requests).1.reverse := by
  induction requests using List.reverseRecOn
  case nil => rfl
  case append_singleton requests r hi =>
    rw [issueAll_concat, issued_issue, hi, List.reverse_append]
    rfl

theorem firstFree_issueAll (requests : List Request) (r : Request) :
    FirstFree (issueAll requests).1 (normalize r.context) ((issueAll requests).2.issue r.context).1 := by
  refine (firstFree_freeId _ _).congr ?_
  rw [issued_issueAll]
  exact (List.reverse_perm _).symm

-- A number that a title brings along is passed over.
example : (issueAll [.text (lit "row_1"), .text (lit "Row"), .line (lit "row") [],
    .line (lit "table") (lit "ROW")]).1 =
      [lit "row_1", lit "row", lit "_row", lit "row_2"] := by
  decide +kernel

section Serving

variable {pool : IdPool} {others : List Request}

def serveAll : IdPool → List Request → List Text × IdPool
  | pool, []            => ([], pool)
  | pool, r :: requests =>
    let rest := serveAll (r.serve pool).2 requests
    ((r.serve pool).1 :: rest.1, rest.2)

theorem serveAll_append (requests others : List Request) :
    serveAll pool (requests ++ others) =
      ((serveAll pool requests).1 ++ (serveAll (serveAll pool requests).2 others).1,
        (serveAll (serveAll pool requests).2 others).2) := by
  induction requests generalizing pool
  case nil => rfl
  case cons r requests hi =>
    rw [List.cons_append, serveAll, hi]
    rfl

theorem length_serveAll (requests : List Request) :
    (serveAll pool requests).1.length = requests.length := by
  induction requests generalizing pool
  case nil => rfl
  case cons r requests hi => exact congrArg (· + 1) hi

theorem issueAll_eq_serveAll (requests : List Request) : issueAll requests = serveAll {} requests := by
  induction requests using List.reverseRecOn
  case nil => rfl
  case append_singleton requests r hi =>
    rw [issueAll_concat, serveAll_append, hi, ← Request.serve_eq]
    rfl

theorem token_of_mem_serveAll (h : id ∈ (serveAll pool requests).1) :
    ∀ c ∈ id, isTokenChar c = true := by
  induction requests generalizing pool
  case nil => cases h
  case cons r requests hi =>
    rcases List.mem_cons.mp h with he | h
    · rw [he, Request.serve_eq]
      exact (firstFree_freeId pool _).token (normalize_token _)
    · exact hi h

theorem issued_serveAll (pool : IdPool) (requests : List Request) :
    (serveAll pool requests).2.issued = (serveAll pool requests).1.reverse ++ pool.issued := by
  induction requests generalizing pool
  case nil => rfl
  case cons r requests hi =>
    rw [serveAll, hi, Request.serve_eq, issued_issue, List.reverse_cons, List.append_assoc]
    rfl

theorem fresh_serveAll (pool : IdPool) (requests : List Request) :
    (serveAll pool requests).1.Nodup ∧ ∀ id ∈ (serveAll pool requests).1, id ∉ pool.issued := by
  induction requests generalizing pool
  case nil => exact ⟨.nil, nofun⟩
  case cons r requests hi =>
    have ⟨distinct, fresh⟩ := hi (r.serve pool).2
    have first : (r.serve pool).1 ∉ pool.issued := by
      rw [Request.serve_eq]
      exact (firstFree_freeId pool _).not_mem
    have issued : (r.serve pool).2.issued = (r.serve pool).1 :: pool.issued := by
      rw [Request.serve_eq, issued_issue]
    rw [issued] at fresh
    refine ⟨List.nodup_cons.mpr ⟨fun h => fresh _ h List.mem_cons_self, distinct⟩, ?_⟩
    exact List.forall_mem_cons.mpr ⟨first, fun id h hm => fresh id h (List.mem_cons_of_mem _ hm)⟩

end Serving

end WikiPages.IdPool
