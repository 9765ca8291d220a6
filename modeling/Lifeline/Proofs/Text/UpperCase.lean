import Lifeline.Proofs.Text.Trim
import Lifeline.Text.Upper
import Mathlib.Data.List.Basic
import Mathlib.Data.Nat.Bitwise

/-!
# Upper case is stable

What has been put in upper case stays as it is when it is put in upper case again,
and upper-casing neither makes nor removes blanks and brackets. All of it follows
from one fact about the tables: no character that is the result of upper-casing,
or part of such a result, is a blank, a bracket, or a character that upper-casing
changes. The kernel checks it on two sets of code points that are held as the bits
of natural numbers.
-/

namespace Lifeline.Text

/-- A set of code points as the bits of a number. -/
def mask (points : List Nat) : Nat := points.foldr (fun n m => m ||| 1 <<< n) 0

private theorem testBit_mask {points : List Nat} {n : Nat} :
    (mask points).testBit n = true ↔ n ∈ points := by
  induction points with
  | nil => simp [mask]
  | cons m points ih =>
    rw [mask, List.foldr_cons, Nat.testBit_or, Bool.or_eq_true, ← mask, ih, Nat.one_shiftLeft,
      Nat.testBit_two_pow, decide_eq_true_eq, List.mem_cons, or_comm, eq_comm]

/-- Masks without a common bit have no common code point. -/
theorem not_mem_of_mask_and {xs ys : List Nat} (h : mask xs &&& mask ys = 0) {n : Nat}
    (hx : n ∈ xs) : n ∉ ys := by
  intro hy
  have ht := congrArg (·.testBit n) h
  simp [testBit_mask.mpr hx, testBit_mask.mpr hy] at ht

/-- The code points that a run changes. -/
def CaseRun.sources (r : CaseRun) : List Nat :=
  (List.range ((r.last - r.first) / r.step + 1)).map fun k => r.first + k * r.step

/-- The code points that a run gives. -/
def CaseRun.targets (r : CaseRun) : List Nat :=
  (List.range ((r.last - r.first) / r.step + 1)).map fun k => r.target + k * r.step

/-- The code points that upper-casing changes. -/
def caseSources : List Nat := caseRuns.flatMap CaseRun.sources ++ caseExpansions.map Prod.fst

/-- The code points that upper-casing gives in place of others. -/
def caseTargets : List Nat := caseRuns.flatMap CaseRun.targets ++ caseExpansions.flatMap Prod.snd

/-- The code points of the blanks. -/
def blankPoints : List Nat :=
  List.range' 0x09 5 ++ List.range' 0x1C 5 ++ List.range' 0x2000 11 ++
    [0x85, 0xA0, 0x1680, 0x2028, 0x2029, 0x202F, 0x205F, 0x3000]

/-- The code points of the brackets. -/
def bracketPoints : List Nat := ['('.toNat, ')'.toNat, '\x7b'.toNat, '\x7d'.toNat]

/-- No result of upper-casing is changed by it, and none is a blank or a bracket. -/
theorem mask_caseTargets :
    mask (caseSources ++ blankPoints ++ bracketPoints) &&& mask caseTargets = 0 := by
  decide +kernel

private theorem mask_bracketPoints :
    mask bracketPoints &&& mask caseSources = 0 := by decide +kernel

private theorem isValidChar_of_mem_caseTargets {n : Nat} (h : n ∈ caseTargets) : n.isValidChar := by
  have hall : (caseTargets.all fun n => n < 0xD800 || (0xDFFF < n && n < 0x110000)) = true := by
    decide +kernel
  simpa [Nat.isValidChar] using List.all_eq_true.mp hall n h

private theorem caseExpansions_ne_nil : ∀ e ∈ caseExpansions, e.2 ≠ [] := by decide +kernel

private theorem toNat_ofNat_of_isValidChar {n : Nat} (h : n.isValidChar) :
    (Char.ofNat n).toNat = n := by
  rw [Char.ofNat, dif_pos h]
  rfl

/-- A run takes the code points that it covers to its targets. -/
theorem CaseRun.mem_of_covers {r : CaseRun} {n : Nat} (h : r.covers n = true) :
    n ∈ r.sources ∧ n - r.first + r.target ∈ r.targets := by
  simp only [covers, Bool.and_eq_true, decide_eq_true_eq, beq_iff_eq] at h
  obtain ⟨⟨hfirst, hlast⟩, hstep⟩ := h
  have hk : (n - r.first) / r.step * r.step = n - r.first :=
    Nat.div_mul_cancel (Nat.dvd_of_mod_eq_zero hstep)
  have hrange : (n - r.first) / r.step ∈ List.range ((r.last - r.first) / r.step + 1) :=
    List.mem_range.mpr (Nat.lt_succ_of_le (Nat.div_le_div_right (by omega)))
  refine ⟨List.mem_map.mpr ⟨_, hrange, ?_⟩, List.mem_map.mpr ⟨_, hrange, ?_⟩⟩
  · rw [hk]
    omega
  · rw [hk]
    omega

/-- A character is its own upper-case form, or it is changed into results of upper-casing. -/
theorem upperChar_cases (c : Char) :
    upperChar c = [c] ∨
      c.toNat ∈ caseSources ∧ upperChar c ≠ [] ∧ ∀ d ∈ upperChar c, d.toNat ∈ caseTargets := by
  have hvalid {n : Nat} (h : n ∈ caseTargets) : (Char.ofNat n).toNat ∈ caseTargets := by
    rwa [toNat_ofNat_of_isValidChar (isValidChar_of_mem_caseTargets h)]
  rw [upperChar]
  cases hr : caseRuns.find? (·.covers c.toNat) with
  | some r =>
    have hmem := List.mem_of_find?_eq_some hr
    have hc := List.find?_some hr
    obtain ⟨hs, ht⟩ := CaseRun.mem_of_covers hc
    refine .inr ⟨List.mem_append_left _ (List.mem_flatMap.mpr ⟨r, hmem, hs⟩), by simp, ?_⟩
    intro d hd
    rw [List.mem_singleton.mp hd]
    exact hvalid (List.mem_append_left _ (List.mem_flatMap.mpr ⟨r, hmem, ht⟩))
  | none =>
    simp only
    cases he : caseExpansions.lookup c.toNat with
    | none => exact .inl rfl
    | some form =>
      have hmem : (c.toNat, form) ∈ caseExpansions := by
        obtain ⟨front, back, hl, -⟩ := List.lookup_eq_some_iff.mp he
        exact hl ▸ List.mem_append_right front List.mem_cons_self
      refine .inr ⟨List.mem_append_right _ (List.mem_map.mpr ⟨_, hmem, rfl⟩), ?_, ?_⟩
      · simpa using caseExpansions_ne_nil _ hmem
      · intro d hd
        obtain ⟨n, hn, rfl⟩ := List.mem_map.mp hd
        exact hvalid (List.mem_append_right _ (List.mem_flatMap.mpr ⟨_, hmem, hn⟩))

/-- A character that upper-casing does not change is its own upper-case form. -/
theorem upperChar_of_not_mem {c : Char} (h : c.toNat ∉ caseSources) : upperChar c = [c] :=
  (upperChar_cases c).resolve_right fun hc => h hc.1

/-- Every character has an upper-case form. -/
theorem upperChar_ne_nil (c : Char) : upperChar c ≠ [] := by
  rcases upperChar_cases c with h | ⟨-, h, -⟩
  · simp [h]
  · exact h

private theorem upper_eq_self {s : List Char} (h : ∀ c ∈ s, upperChar c = [c]) : upper s = s := by
  induction s with
  | nil => rfl
  | cons c s ih =>
    have hc : upper (c :: s) = upperChar c ++ upper s := rfl
    rw [hc, h c List.mem_cons_self, ih fun d hd => h d (List.mem_cons_of_mem c hd)]
    rfl

/-- The upper-case form of a character is stable. -/
theorem upper_upperChar (c : Char) : upper (upperChar c) = upperChar c := by
  rcases upperChar_cases c with h | ⟨-, -, h⟩
  · rw [h, upper, List.flatMap_singleton, h]
  · refine upper_eq_self fun d hd => upperChar_of_not_mem fun hs => ?_
    have hmem : d.toNat ∈ caseSources ++ blankPoints ++ bracketPoints := by simp [hs]
    exact not_mem_of_mask_and mask_caseTargets hmem (h d hd)

@[simp] theorem upper_upper (s : List Char) : upper (upper s) = upper s := by
  induction s with
  | nil => rfl
  | cons c s ih =>
    have hc : upper (c :: s) = upperChar c ++ upper s := rfl
    rw [hc, upper_append, upper_upperChar, ih]

/-- The blanks are the characters of the listed code points. -/
theorem mem_blankPoints_of_isBlank {c : Char} (h : isBlank c = true) : c.toNat ∈ blankPoints := by
  simp only [isBlank, Bool.or_eq_true, Bool.and_eq_true, decide_eq_true_eq, beq_iff_eq] at h
  simp only [blankPoints, List.mem_append, List.mem_range'_1, List.mem_cons, List.not_mem_nil,
    or_false]
  omega

/-- No blank comes out of a character that is none. -/
theorem isBlank_of_mem_upperChar {c d : Char} (hc : isBlank c = false) (hd : d ∈ upperChar c) :
    isBlank d = false := by
  rcases upperChar_cases c with h | ⟨-, -, h⟩
  · rw [h] at hd
    rwa [List.mem_singleton.mp hd]
  · rw [Bool.eq_false_iff]
    intro hb
    have hmem : d.toNat ∈ caseSources ++ blankPoints ++ bracketPoints := by
      simp [mem_blankPoints_of_isBlank hb]
    exact not_mem_of_mask_and mask_caseTargets hmem (h d hd)

/-- Upper-casing keeps a text trimmed. -/
theorem Trimmed.upper {s : List Char} (h : Trimmed s) : Trimmed (upper s) := by
  refine ⟨fun d hd => ?_, fun d hd => ?_⟩
  · cases s with
    | nil => cases hd
    | cons c s =>
      have hc : Text.upper (c :: s) = upperChar c ++ Text.upper s := rfl
      obtain ⟨e, es, he⟩ := List.exists_cons_of_ne_nil (upperChar_ne_nil c)
      rw [hc, he, List.cons_append, List.head?_cons, Option.mem_some] at hd
      exact isBlank_of_mem_upperChar (h.start c rfl) (by rw [he, ← hd]; exact List.mem_cons_self)
  · obtain rfl | ⟨s, c, rfl⟩ := List.eq_nil_or_concat' s
    · cases hd
    · have hc : Text.upper (s ++ [c]) = Text.upper s ++ upperChar c := by
        rw [upper_append, Text.upper, Text.upper, List.flatMap_singleton]
      have hlast : d ∈ (upperChar c).getLast? := by
        rw [hc, List.getLast?_append, List.getLast?_eq_some_getLast (upperChar_ne_nil c)] at hd
        rwa [List.getLast?_eq_some_getLast (upperChar_ne_nil c)]
      exact isBlank_of_mem_upperChar (h.stop c (by simp)) (List.mem_of_mem_getLast? hlast)

/-- Upper-casing keeps the brackets of a text, and adds none. -/
theorem filter_upper {p : Char → Bool} (hp : ∀ c, p c = true → c.toNat ∈ bracketPoints)
    (s : List Char) : (upper s).filter p = s.filter p := by
  have hchar (c : Char) : (upperChar c).filter p = [c].filter p := by
    rcases upperChar_cases c with h | ⟨hc, -, h⟩
    · rw [h]
    · have hd : ∀ d ∈ upperChar c, ¬p d = true := by
        intro d hd hpd
        have hmem : d.toNat ∈ caseSources ++ blankPoints ++ bracketPoints := by simp [hp d hpd]
        exact not_mem_of_mask_and mask_caseTargets hmem (h d hd)
      have hc' : ¬p c = true := fun hpc =>
        not_mem_of_mask_and mask_bracketPoints (hp c hpc) hc
      rw [List.filter_eq_nil_iff.mpr hd, List.filter_cons_of_neg hc', List.filter_nil]
  rw [upper, List.filter_flatMap, funext hchar]
  induction s with
  | nil => rfl
  | cons c s ih => rw [List.flatMap_cons, ih, ← List.filter_append, List.singleton_append]

end Lifeline.Text
