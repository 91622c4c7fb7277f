import Mathlib.Data.List.Basic
import WikiPages.Proofs.Text.Trimming
import WikiPages.Text.Case

namespace WikiPages.Text

variable {c d : Char} {s : Text} {m n first last : Nat}

namespace CaseRun

variable {r : CaseRun}

def Holds (r : CaseRun) (n : Nat) : Prop := r.first ≤ n ∧ n ≤ r.last ∧ (n - r.first) % r.step = 0

def lowFirst (r : CaseRun) : Nat := (r.first + r.shift).toNat

def lowLast (r : CaseRun) : Nat := (r.last + r.shift).toNat

-- Whether a run has none of the code points from `first` to `last`, either because they lie outside or
-- because they lie between its steps.
def misses (r : CaseRun) (first last : Nat) (inStep : Bool) : Bool :=
  last.blt r.first || r.last.blt first || (inStep && !((first - r.first) % r.step).beq 0)

def isFinal (r : CaseRun) : Bool :=
  caseRuns.all fun other =>
    other.misses r.lowFirst r.lowLast (r.first.beq r.last || (r.step % other.step).beq 0)

-- Where no lower case lies: ASCII other than small letters, `İ`, capital sigma, code points that are no
-- characters, and blanks.
def avoided : List (Nat × Nat) :=
  [(0, 0x60), (0x7B, 0x7F), (0x130, 0x130), (0x3A3, 0x3A3), (0xD800, 0xDFFF), (0x85, 0x85), (0xA0, 0xA0),
    (0x1680, 0x1680), (0x2000, 0x200A), (0x2028, 0x2029), (0x202F, 0x202F), (0x205F, 0x205F),
    (0x3000, 0x3000)]

def isSound (r : CaseRun) : Bool :=
  (avoided.all fun (first, last) => last.blt r.lowFirst || r.lowLast.blt first) && r.lowLast.blt 0x110000

theorem isFinal_of_mem : ∀ r ∈ caseRuns, r.isFinal = true :=
  List.all_eq_true.mp (by decide +kernel)

theorem isSound_of_mem : ∀ r ∈ caseRuns, r.isSound = true :=
  List.all_eq_true.mp (by decide +kernel)

theorem not_holds_of_misses {inStep : Bool} (h : r.misses first last inStep = true) (hf : first ≤ m)
    (hl : m ≤ last) (hs : inStep = true → (m - first) % r.step = 0) : ¬ r.Holds m := by
  rintro ⟨hrf, hrl, hrs⟩
  simp only [misses, Bool.or_eq_true, Nat.blt_eq, Bool.and_eq_true, Bool.not_eq_true'] at h
  rcases h with (h | h) | ⟨hi, h⟩
  · omega
  · omega
  · have hlt : r.first ≤ first := by
      apply Nat.le_of_not_lt
      intro hlt
      rw [Nat.sub_eq_zero_of_le (Nat.le_of_lt hlt), Nat.zero_mod] at h
      cases h
    have : m - r.first = (m - first) + (first - r.first) := by omega
    rw [this, Nat.add_mod, hs hi, Nat.zero_add, Nat.mod_mod] at hrs
    rw [hrs] at h
    cases h

theorem low_eq (hr : r ∈ caseRuns) (h : r.Holds n) :
    (n + r.shift).toNat = r.lowFirst + (n - r.first) ∧ (n + r.shift).toNat ≤ r.lowLast := by
  have := isSound_of_mem r hr
  simp only [isSound, avoided, List.all_cons, Bool.and_eq_true, Bool.or_eq_true, Nat.blt_eq, lowFirst,
    lowLast] at this
  simp only [Holds] at h
  simp only [lowFirst, lowLast]
  omega

theorem low_lt (hr : r ∈ caseRuns) (h : r.Holds n) : (n + r.shift).toNat < 0x110000 := by
  have := (Bool.and_eq_true_iff.mp (isSound_of_mem r hr)).2
  exact Nat.lt_of_le_of_lt (low_eq hr h).2 (Nat.blt_eq.mp this)

theorem not_holds_low (hr : r ∈ caseRuns) (h : r.Holds n) :
    ∀ other ∈ caseRuns, ¬ other.Holds (n + r.shift).toNat := by
  intro other ho
  have ⟨he, hl⟩ := low_eq hr h
  refine not_holds_of_misses (List.all_eq_true.mp (isFinal_of_mem r hr) other ho) (by omega) hl ?_
  intro hs
  rw [he, Nat.add_sub_cancel_left]
  simp only [Bool.or_eq_true, Nat.beq_eq] at hs
  rcases hs with hs | hs
  · have : n - r.first = 0 := by
      have := h.1
      have := h.2.1
      omega
    rw [this, Nat.zero_mod]
  · exact Nat.mod_eq_zero_of_dvd
      (Nat.dvd_trans (Nat.dvd_of_mod_eq_zero hs) (Nat.dvd_of_mod_eq_zero h.2.2))

theorem not_avoided (hr : r ∈ caseRuns) (h : r.Holds n) :
    ∀ range ∈ avoided, ¬ (range.1 ≤ (n + r.shift).toNat ∧ (n + r.shift).toNat ≤ range.2) := by
  intro range hm hw
  have ⟨he, hl⟩ := low_eq hr h
  have := (Bool.and_eq_true_iff.mp (isSound_of_mem r hr)).1
  have := List.all_eq_true.mp this range hm
  simp only [Bool.or_eq_true, Nat.blt_eq] at this
  omega

end CaseRun

def IsLow (c : Char) : Prop := lowerChar c = [c] ∧ c ≠ capitalSigma

theorem lowerChar_of_not_holds (hc : 128 ≤ c.toNat) (hi : c.toNat ≠ 0x130)
    (h : ∀ r ∈ caseRuns, ¬ r.Holds c.toNat) : lowerChar c = [c] := by
  have hf : caseRuns.find? (fun r => r.first ≤ c.toNat && c.toNat ≤ r.last &&
      (c.toNat - r.first) % r.step == 0) = none := by
    rw [List.find?_eq_none]
    intro r hr hh
    apply h r hr
    simpa [CaseRun.Holds, and_assoc] using hh
  rw [lowerChar, if_neg (Nat.not_lt.mpr hc), if_neg hi, hf]

theorem toLower_of_no_capital (h : ¬ (65 ≤ c.toNat ∧ c.toNat ≤ 90)) : c.toLower = c := by
  refine dif_neg fun hc => h ⟨?_, ?_⟩
  · exact UInt32.le_iff_toNat_le.mp hc.1
  · exact UInt32.le_iff_toNat_le.mp hc.2

theorem toNat_toLower_of_capital (h : 65 ≤ c.toNat ∧ c.toNat ≤ 90) : c.toLower.toNat = c.toNat + 32 := by
  have hc : c.val ≥ 'A'.val ∧ c.val ≤ 'Z'.val :=
    ⟨UInt32.le_iff_toNat_le.mpr h.1, UInt32.le_iff_toNat_le.mpr h.2⟩
  have low : c.toLower = ⟨c.val + 32, _⟩ := dif_pos hc
  have sum : (c.val + 32).toNat = (c.val.toNat + 32) % 4294967296 := UInt32.toNat_add ..
  have small : c.val.toNat ≤ 90 := h.2
  rw [low]
  change (c.val + 32).toNat = c.val.toNat + 32
  omega

theorem toNat_toLower_lt (hc : c.toNat < 128) : c.toLower.toNat < 128 := by
  by_cases h : 65 ≤ c.toNat ∧ c.toNat ≤ 90
  case pos =>
    rw [toNat_toLower_of_capital h]
    omega
  case neg => rwa [toLower_of_no_capital h]

theorem ne_capitalSigma_of_ascii (hc : c.toNat < 128) : c ≠ capitalSigma := by
  rintro rfl
  exact absurd hc (by decide)

theorem isLow_of_no_capital (hc : c.toNat < 128) (h : ¬ (65 ≤ c.toNat ∧ c.toNat ≤ 90)) : IsLow c :=
  ⟨by rw [lowerChar_of_ascii hc, toLower_of_no_capital h], ne_capitalSigma_of_ascii hc⟩

theorem isLow_of_ascii (hc : c.toNat < 128) : IsLow c.toLower ∧ isBlank c.toLower = isBlank c := by
  by_cases h : 65 ≤ c.toNat ∧ c.toNat ≤ 90
  case pos =>
    have low := toNat_toLower_of_capital h
    have solid {c : Char} (hf : 65 ≤ c.toNat) (hl : c.toNat ≤ 122) : isBlank c = false := by
      simp [isBlank]
      omega
    refine ⟨isLow_of_no_capital (by omega) (by omega), ?_⟩
    rw [solid (by omega) (by omega), solid h.1 (by omega)]
  case neg =>
    rw [toLower_of_no_capital h]
    exact ⟨isLow_of_no_capital hc h, rfl⟩

theorem isLow_of_small (hf : 97 ≤ c.toNat) (hl : c.toNat ≤ 122) : IsLow c :=
  isLow_of_no_capital (by omega) (by omega)

theorem isLow_of_holds {r : CaseRun} (hr : r ∈ caseRuns) (h : r.Holds n) :
    IsLow (Char.ofNat (n + r.shift).toNat) ∧ isBlank (Char.ofNat (n + r.shift).toNat) = false := by
  have misses := CaseRun.not_holds_low hr h
  have outside := CaseRun.not_avoided hr h
  have small := CaseRun.low_lt hr h
  generalize (n + r.shift).toNat = m at *
  simp only [CaseRun.avoided, List.forall_mem_cons, List.not_mem_nil, false_imp_iff, implies_true,
    and_true] at outside
  have hm : (Char.ofNat m).toNat = m := by
    rw [Char.ofNat, dif_pos (show m.isValidChar by unfold Nat.isValidChar; omega)]
    rfl
  generalize Char.ofNat m = c at *
  subst hm
  refine ⟨?_, by simp [isBlank]; omega⟩
  by_cases hc : c.toNat < 128
  · exact isLow_of_small (by omega) (by omega)
  · refine ⟨lowerChar_of_not_holds (by omega) (by omega) misses, ?_⟩
    rintro rfl
    exact outside.2.2.2.1 ⟨Nat.le_refl _, Nat.le_refl _⟩

theorem isLow_of_mem (h : d ∈ lowerChar c) : IsLow d ∧ (isBlank c = false → isBlank d = false) := by
  rw [lowerChar] at h
  split at h
  case isTrue hc =>
    cases List.mem_singleton.mp h
    obtain ⟨hl, hb⟩ := isLow_of_ascii hc
    exact ⟨hl, hb ▸ id⟩
  case isFalse hc =>
    split at h
    case isTrue hi =>
      have : d = 'i' ∨ d = '\u0307' := by simpa using h
      rcases this with rfl | rfl
      · exact ⟨isLow_of_small (by decide) (by decide), fun _ => rfl⟩
      · exact ⟨⟨by decide, by decide⟩, fun _ => rfl⟩
    case isFalse hi =>
      split at h
      case h_1 r hf =>
        have hh : r.Holds c.toNat := by simpa [CaseRun.Holds, and_assoc] using List.find?_some hf
        cases List.mem_singleton.mp h
        obtain ⟨hl, hb⟩ := isLow_of_holds (List.mem_of_find?_eq_some hf) hh
        exact ⟨hl, fun _ => hb⟩
      case h_2 hf =>
        cases List.mem_singleton.mp h
        have hh : ∀ r ∈ caseRuns, ¬ r.Holds c.toNat := by
          intro r hr hh
          apply List.find?_eq_none.mp hf r hr
          simpa [CaseRun.Holds, and_assoc] using hh
        refine ⟨⟨lowerChar_of_not_holds (Nat.not_lt.mp hc) hi hh, ?_⟩, id⟩
        rintro rfl
        exact absurd hf (by decide)

theorem lowerChar_ne_nil (c : Char) : lowerChar c ≠ [] := by
  rw [lowerChar]
  split
  case isTrue => simp
  case isFalse =>
    split
    case isTrue => simp
    case isFalse => split <;> simp

theorem lowercase.go_cons (before s : Text) (c : Char) : ∃ piece, piece ≠ [] ∧
    lowercase.go before (c :: s) = piece ++ lowercase.go (c :: before) s ∧
    ∀ d ∈ piece, IsLow d ∧ (isBlank c = false → isBlank d = false) := by
  rw [lowercase.go]
  split
  case isFalse => exact ⟨_, lowerChar_ne_nil c, rfl, fun d => isLow_of_mem⟩
  case isTrue =>
    refine ⟨_, List.cons_ne_nil _ _, rfl, fun d hd => ?_⟩
    cases List.mem_singleton.mp hd
    split
    · exact ⟨⟨by decide, by decide⟩, fun _ => rfl⟩
    · exact ⟨⟨by decide, by decide⟩, fun _ => rfl⟩

theorem lowercase.last_go (before : Text) (h : ∀ c ∈ s.getLast?, isBlank c = false) :
    ∀ d ∈ (lowercase.go before s).getLast?, isBlank d = false := by
  induction s generalizing before
  case nil => simp [lowercase.go]
  case cons c s hi =>
    have ⟨piece, _, he, hp⟩ := lowercase.go_cons before s c
    cases s
    case nil =>
      intro d hd
      rw [he, lowercase.go, List.append_nil] at hd
      exact (hp d (List.mem_of_mem_getLast? hd)).2 (h c rfl)
    case cons e s =>
      have ⟨piece', hne, he', _⟩ := lowercase.go_cons (c :: before) s e
      have hne : lowercase.go (c :: before) (e :: s) ≠ [] := he' ▸ List.append_ne_nil_of_left_ne_nil hne _
      rw [he, List.getLast?_append_of_ne_nil _ hne]
      exact hi _ (List.getLast?_cons_cons ▸ h)

theorem isLow_lowercase (before s : Text) : ∀ d ∈ lowercase.go before s, IsLow d := by
  induction s generalizing before
  case nil => simp [lowercase.go]
  case cons c s hi =>
    have ⟨piece, _, he, hp⟩ := lowercase.go_cons before s c
    intro d hd
    rw [he] at hd
    rcases List.mem_append.mp hd with hd | hd
    · exact (hp d hd).1
    · exact hi _ d hd

theorem lowercase.go_of_isLow (before : Text) (h : ∀ c ∈ s, IsLow c) : lowercase.go before s = s := by
  induction s generalizing before
  case nil => rfl
  case cons c s hi =>
    have hc := h c List.mem_cons_self
    rw [lowercase.go, if_neg hc.2, hc.1, hi _ fun d hd => h d (List.mem_cons_of_mem c hd)]
    rfl

theorem lowercase_lowercase (s : Text) : lowercase (lowercase s) = lowercase s :=
  lowercase.go_of_isLow [] (isLow_lowercase [] s)

namespace IsTrimmed

theorem lowercase (h : IsTrimmed s) : IsTrimmed (lowercase s) where
  first := by
    cases s
    case nil => simp
    case cons c s =>
      have ⟨piece, hne, he, hp⟩ := lowercase.go_cons [] s c
      have ⟨d, rest, hd⟩ := List.exists_cons_of_ne_nil hne
      intro d' hd'
      rw [Text.lowercase, he, hd] at hd'
      cases hd'
      exact (hp d (hd ▸ List.mem_cons_self)).2 (h.first c rfl)
  last  := lowercase.last_go [] h.last

end IsTrimmed

theorem trim_lowercase_trim (s : Text) : trim (lowercase (trim s)) = lowercase (trim s) :=
  (isTrimmed_trim s).lowercase.trim_eq

end WikiPages.Text
