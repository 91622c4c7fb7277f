import WikiPages.Proofs.Identifier.Issuing
import WikiPages.Proofs.Identifier.Stable

namespace WikiPages.IdPool

open Text Identifier

variable {taken larger : List Text} {candidate id : Text}

namespace FirstFree

theorem of_subset (h : FirstFree taken candidate id) (hs : taken ⊆ larger) (free : id ∉ larger) :
    FirstFree larger candidate id := by
  cases h
  case unnumbered => exact .unnumbered free
  case numbered n used pos _ _ least =>
    have run m (hp : 1 ≤ m) (hl : m < 1 + (n - 1)) : IdPool.numbered candidate m ∈ larger :=
      hs (least m hp (by omega))
    have := lt_length_of_taken (hs used) run
    exact .numbered n (hs used) pos (by omega) free fun m hp hl => hs (least m hp hl)

theorem head?_eq (h : FirstFree taken candidate id) (hc : candidate ≠ []) : id.head? = candidate.head? := by
  cases h
  case unnumbered => rfl
  case numbered => exact List.head?_append_of_ne_nil _ hc

end FirstFree

namespace Request

def untitled : Request → Bool
  | text _       => false
  | line _ title => title.isEmpty

-- Whether it stays when what comes from titles is left out. Some texts may themselves be derived from lines without a
-- title.
def stays (derived : Text → Bool) : Request → Bool
  | text context => derived context
  | line _ title => title.isEmpty

theorem stays_of_untitled {derived : Text → Bool} {r : Request} (h : r.untitled = true) :
    r.stays derived = true := by
  cases r
  case text => cases h
  case line => exact h

theorem exists_of_untitled {r : Request} (h : r.untitled = true) : ∃ kind, r = line kind [] := by
  cases r
  case text => cases h
  case line kind title => exact ⟨kind, congrArg (line kind) (List.isEmpty_iff.mp h)⟩

end Request

variable {requests others : List Request} {kept : Request → Bool}

def idAfter (requests : List Request) (r : Request) : Text := ((issueAll requests).2.issue r.context).1

theorem ids_concat (requests : List Request) (r : Request) :
    (issueAll (requests ++ [r])).1 = (issueAll requests).1 ++ [idAfter requests r] :=
  congrArg Prod.fst (issueAll_concat requests r)

theorem idAfter_nil (r : Request) : idAfter [] r = normalize r.context := rfl

theorem firstFree_idAfter (requests : List Request) (r : Request) :
    FirstFree (issueAll requests).1 (normalize r.context) (idAfter requests r) :=
  firstFree_issueAll requests r

def untitledIds (requests : List Request) : List Text :=
  ((requests.zip (issueAll requests).1).filter (·.1.untitled)).map (·.2)

theorem untitledIds_concat (requests : List Request) (r : Request) :
    untitledIds (requests ++ [r]) = untitledIds requests ++ if r.untitled then [idAfter requests r] else [] := by
  have length : requests.length = (issueAll requests).1.length := by rw [issueAll_eq_serveAll, length_serveAll]
  rw [untitledIds, ids_concat, List.zip_append length, List.filter_append, List.map_append]
  congr 1
  cases h : r.untitled <;> simp [h]

section Leaving

theorem idAfter_eq_iff (hs : (issueAll others).1 ⊆ (issueAll requests).1) :
    idAfter others r = idAfter requests r ↔ idAfter others r ∉ (issueAll requests).1 where
  mp he := he ▸ (firstFree_idAfter requests r).not_mem
  mpr free := ((firstFree_idAfter others r).of_subset hs free).unique (firstFree_idAfter requests r)

theorem ids_filter_subset (kept : Request → Bool) (requests : List Request) :
    (issueAll (requests.filter kept)).1 ⊆ (issueAll requests).1 := by
  induction requests using List.reverseRecOn
  case nil => exact List.Subset.refl _
  case append_singleton requests r hi =>
    have hs := List.subset_append_of_subset_left [idAfter requests r] hi
    rw [List.filter_append, ids_concat]
    cases hr : kept r
    case false => simpa [hr] using hs
    case true =>
      rw [List.filter_cons_of_pos hr, List.filter_nil, ids_concat]
      refine List.append_subset.mpr ⟨hs, List.cons_subset.mpr ⟨?_, List.nil_subset _⟩⟩
      by_cases taken : idAfter (requests.filter kept) r ∈ (issueAll requests).1
      case pos => exact List.mem_append_left _ taken
      case neg => exact List.mem_append_right _ (List.mem_singleton.mpr ((idAfter_eq_iff hi).mpr taken))

theorem untitledIds_filter_eq_iff (hk : ∀ r, r.untitled = true → kept r = true) (requests : List Request) :
    untitledIds (requests.filter kept) = untitledIds requests ↔
      ∀ before r, before ++ [r] <+: requests → r.untitled = true →
        idAfter (before.filter kept) r = idAfter before r := by
  induction requests using List.reverseRecOn
  case nil => simp
  case append_singleton requests r hi =>
    have behind : untitledIds ((requests ++ [r]).filter kept) = untitledIds (requests.filter kept) ++
        if r.untitled then [idAfter (requests.filter kept) r] else [] := by
      rw [List.filter_append]
      cases hr : kept r
      case false =>
        have titled : r.untitled = false := Bool.eq_false_iff.mpr fun h => by simp [hk r h] at hr
        simp [hr, titled]
      case true => rw [List.filter_cons_of_pos hr, List.filter_nil, untitledIds_concat]
    rw [behind, untitledIds_concat]
    constructor
    case mp =>
      intro h before r' hp hu
      have ⟨first, last⟩ := List.append_inj' h (by split <;> rfl)
      rcases List.prefix_concat_iff.mp hp with he | hp
      · have ⟨rfl, he⟩ := List.append_inj' he rfl
        cases he
        simpa [hu] using last
      · exact hi.mp first before r' hp hu
    case mpr =>
      intro h
      have first := hi.mpr fun before r' hp => h before r' (hp.trans (List.prefix_append _ _))
      rw [first]
      congr 1
      split
      case isTrue hu => rw [h requests r List.prefix_rfl hu]
      case isFalse => rfl

end Leaving

section Marking

def IsMarked (id : Text) : Prop := id.head? = some '_'

instance : DecidablePred IsMarked := fun id => inferInstanceAs (Decidable (id.head? = some '_'))

theorem normalize_mark (s : Text) : normalize ('_' :: s) = '_' :: s.flatMap Identifier.kept := by
  have mark : Identifier.kept '_' = ['_'] := kept_of_isTokenChar rfl
  rw [normalize_eq, List.flatMap_cons, mark]
  rfl

theorem isMarked_iff (requests : List Request) (r : Request) :
    IsMarked (idAfter requests r) ↔ IsMarked (normalize r.context) := by
  rw [IsMarked, (firstFree_idAfter requests r).head?_eq (normalize_ne_nil _), IsMarked]

theorem isMarked_of_untitled (requests : List Request) (kind : Text) :
    IsMarked (idAfter requests (.line kind [])) := by
  rw [isMarked_iff]
  exact congrArg List.head? (normalize_mark kind)

-- Where nothing that is left out is marked, the same marked ids are issued without it. The last request gets its
-- id in both cases: marked and free behind those that stay, it is free behind all, by the induction.
theorem mem_filter_of_isMarked (unmarked : ∀ r ∈ requests, kept r = false → ¬ IsMarked (normalize r.context))
    (hm : IsMarked id) (h : id ∈ (issueAll requests).1) : id ∈ (issueAll (requests.filter kept)).1 := by
  induction requests using List.reverseRecOn generalizing id
  case nil => exact h
  case append_singleton requests r hi =>
    have hi {id : Text} := @hi id fun r h => unmarked r (List.mem_append_left _ h)
    have last := unmarked r (List.mem_append_right _ (List.mem_singleton.mpr rfl))
    rw [ids_concat] at h
    rw [List.filter_append]
    cases hr : kept r
    case false =>
      rcases List.mem_append.mp h with h | h
      · simpa [hr] using hi hm h
      · cases List.mem_singleton.mp h
        exact absurd ((isMarked_iff requests r).mp hm) (last hr)
    case true =>
      rw [List.filter_cons_of_pos hr, List.filter_nil, ids_concat]
      rcases List.mem_append.mp h with h | h
      · exact List.mem_append_left _ (hi hm h)
      · cases List.mem_singleton.mp h
        have marked := (isMarked_iff (requests.filter kept) r).mpr ((isMarked_iff requests r).mp hm)
        have free : idAfter (requests.filter kept) r ∉ (issueAll requests).1 :=
          fun h => (firstFree_idAfter _ r).not_mem (hi marked h)
        rw [← (idAfter_eq_iff (ids_filter_subset kept requests)).mpr free]
        exact List.mem_append_right _ (List.mem_singleton.mpr rfl)

end Marking

-- Lines without a title are issued the same ids when all requests that come from titles are left out, exactly if with
-- those requests none of these ids was issued before. This is so if no title has an identifier that begins with `_`,
-- and any title that has one takes the id of a line of some kind behind it.
theorem untitledIds_filter_iff (derived : Text → Bool) :
    (∀ requests,
      (untitledIds (requests.filter (Request.stays derived)) = untitledIds requests ↔
        ∀ before kind, before ++ [.line kind []] <+: requests →
          idAfter (before.filter (Request.stays derived)) (.line kind []) ∉ (issueAll before).1) ∧
      ((∀ r ∈ requests, r.stays derived = false → ¬ IsMarked (normalize r.context)) →
        untitledIds (requests.filter (Request.stays derived)) = untitledIds requests)) ∧
    ∀ r, r.stays derived = false → IsMarked (normalize r.context) →
      ∃ kind, untitledIds ([r, .line kind []].filter (Request.stays derived)) ≠ untitledIds [r, .line kind []] := by
  have undisturbed_iff requests :
      untitledIds (requests.filter (Request.stays derived)) = untitledIds requests ↔
        ∀ before kind, before ++ [.line kind []] <+: requests →
          idAfter (before.filter (Request.stays derived)) (.line kind []) ∉ (issueAll before).1 := by
    rw [untitledIds_filter_eq_iff fun _ => Request.stays_of_untitled]
    constructor
    case mp => exact fun h before kind hp => (idAfter_eq_iff (ids_filter_subset _ before)).mp (h before _ hp rfl)
    case mpr =>
      intro h before r hp hu
      obtain ⟨kind, rfl⟩ := Request.exists_of_untitled hu
      exact (idAfter_eq_iff (ids_filter_subset _ before)).mpr (h before kind hp)
  refine ⟨fun requests => ⟨undisturbed_iff requests, fun unmarked => ?_⟩, fun r hr hm => ?_⟩
  · refine (undisturbed_iff requests).mpr fun before kind hp taken => ?_
    have within := (List.prefix_append before _).trans hp |>.subset
    have marked := isMarked_of_untitled (before.filter (Request.stays derived)) kind
    exact (firstFree_idAfter _ _).not_mem (mem_filter_of_isMarked (fun r h => unmarked r (within h)) marked taken)
  · obtain ⟨kind, hk⟩ : ∃ kind, normalize r.context = '_' :: kind := List.head?_eq_some_iff.mp hm
    have candidate : normalize ('_' :: kind) = normalize r.context := by
      rw [← hk]
      exact normalize_of_token (normalize_ne_nil _) (normalize_token _)
    have alone : [r].filter (Request.stays derived) = [] := by simp [hr]
    refine ⟨kind, fun same => (undisturbed_iff _).mp same [r] kind List.prefix_rfl ?_⟩
    rw [alone, idAfter_nil, ← List.nil_append [r], ids_concat, idAfter_nil]
    exact List.mem_append_right _ (List.mem_singleton.mpr candidate)

def tables : List Request :=
  [.line (lit "table") [], .text (lit "table_1"), .line (lit "list") (lit "Table"), .text (lit "_table"),
    .line (lit "table") [], .text (lit "Täble_2")]

theorem untitledIds_filter_tables :
    (∀ r ∈ tables, r.stays (· == lit "_table") = false → ¬ IsMarked (normalize r.context)) ∧
      untitledIds (tables.filter (Request.stays (· == lit "_table"))) = untitledIds tables ∧
      untitledIds tables = [lit "_table", lit "_table_2"] := by
  have unmarked : ∀ r ∈ tables, r.stays (· == lit "_table") = false → ¬ IsMarked (normalize r.context) := by
    decide +kernel
  exact ⟨unmarked, (untitledIds_filter_iff (· == lit "_table")).1 tables |>.2 unmarked, by decide +kernel⟩

-- A title whose identifier begins with the mark takes the id of the table behind it, whatever texts are derived from
-- lines without a title.
theorem not_untitledIds_filter_slashed :
    ¬ ∃ derived, ∀ requests, untitledIds (requests.filter (Request.stays derived)) = untitledIds requests := by
  rintro ⟨derived, h⟩
  have same : [lit "_table"] = [lit "_table_1"] := h [.line (lit "label") (lit "/Table"), .line (lit "table") []]
  exact absurd same (by decide)

end WikiPages.IdPool
