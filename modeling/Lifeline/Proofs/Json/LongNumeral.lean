import Lifeline.Proofs.Json.Grammar
import Mathlib.Data.List.Infix

/-!
# Numerals that are too long

The reader takes characters off the front of its text, and what it leaves is a rest
of that text. So where it stops at a numeral that is too long to convert, the digits
of this numeral stand somewhere in the text; and there are texts where it stops.
-/

namespace Lifeline.Json

open Text

/-- A numeral of `n` digits stands in the text, more than are converted. -/
def LongNumeral (n : Nat) (s : List Char) : Prop :=
  maxDigits < n ∧ ∃ digits, digits <:+: s ∧ digits.length = n ∧ ∀ c ∈ digits, c.isDigit = true

/-- What stands in a part of a text stands in the text. -/
theorem LongNumeral.mono {n : Nat} {s t : List Char} (h : LongNumeral n s) (hst : s <:+: t) :
    LongNumeral n t := by
  obtain ⟨hn, digits, hs, hd⟩ := h
  exact ⟨hn, digits, hs.trans hst, hd⟩

section

variable {α β : Type}

/-- What reading from the front of `s` may give: a rest of `s` is left, and a numeral that stops
the reading stands in `s`. -/
structure Reads (s : List Char) (result : Except Fault (α × List Char)) : Prop where
  rest : ∀ a rest, result = .ok (a, rest) → rest <:+ s
  numeral : ∀ n, result = .error (.numeralTooLong n) → LongNumeral n s

variable {s t : List Char} {result : Except Fault (α × List Char)}

/-- Reading succeeds and leaves a rest. -/
theorem Reads.ok {a : α} (h : t <:+ s) : Reads s (.ok (a, t)) where
  rest _ _ he := by
    cases he
    exact h
  numeral _ he := by cases he

/-- Reading stops where the text is malformed. -/
theorem Reads.malformed : Reads s (.error .malformed : Except Fault (α × List Char)) where
  rest _ _ he := by cases he
  numeral _ he := by cases he

theorem Reads.mono (h : Reads t result) (ht : t <:+ s) : Reads s result where
  rest a u he := (h.rest a u he).trans ht
  numeral n he := (h.numeral n he).mono ht.isInfix

/-- Reading goes on with the rest. -/
theorem Reads.bind {next : α × List Char → Except Fault (β × List Char)} (h : Reads s result)
    (hnext : ∀ a rest, rest <:+ s → Reads rest (next (a, rest))) : Reads s (result >>= next) := by
  cases hr : result with
  | error e =>
    refine ⟨nofun, fun n he => h.numeral n ?_⟩
    cases he
    exact hr
  | ok p =>
    obtain ⟨a, rest⟩ := p
    have hrest := h.rest a rest hr
    exact (hnext a rest hrest).mono hrest

/-- What is made of the value that has been read does not matter. -/
theorem Reads.map (h : Reads s result) (f : α → β) :
    Reads s (do let (a, rest) ← result; return (f a, rest)) :=
  h.bind fun _ _ _ => .ok List.suffix_rfl

end

theorem skipSpace_suffix (s : List Char) : skipSpace s <:+ s := List.dropWhile_suffix _

/-- What stands behind the first character of a rest is a rest. -/
theorem suffix_of_skipSpace {c : Char} {s t : List Char} (h : skipSpace s = c :: t) : t <:+ s :=
  (List.suffix_cons c t).trans (h ▸ skipSpace_suffix s)

private theorem exists_readCodes {n : Nat} {s rest : List Char} {ns : List Nat}
    (h : (do let (ms, rest) ← readCodes s; return (n :: ms, rest)) = some (ns, rest)) :
    ∃ ms, readCodes s = some (ms, rest) := by
  obtain ⟨⟨ms, t⟩, hs, he⟩ := Option.bind_eq_some_iff.mp h
  cases he
  exact ⟨ms, hs⟩

/-- Reading the codes of a string leaves a rest. -/
theorem readCodes_suffix {s rest : List Char} {ns : List Nat}
    (h : readCodes s = some (ns, rest)) : rest <:+ s := by
  fun_induction readCodes s generalizing ns with
  | case1 => cases h
  | case2 s =>
    cases h
    exact List.suffix_cons _ _
  | case3 a b c d s _ ih =>
    obtain ⟨n, -, h⟩ := Option.bind_eq_some_iff.mp h
    obtain ⟨ms, hs⟩ := exists_readCodes h
    exact (ih hs).trans ⟨['\\', 'u', a, b, c, d], rfl⟩
  | case4 e s _ _ ih =>
    obtain ⟨c, -, h⟩ := Option.bind_eq_some_iff.mp h
    obtain ⟨ms, hs⟩ := exists_readCodes h
    exact (ih hs).trans ⟨['\\', e], rfl⟩
  | case5 => cases h
  | case6 => cases h
  | case7 c s _ _ _ ih =>
    obtain ⟨ms, hs⟩ := exists_readCodes h
    exact (ih hs).trans (List.suffix_cons c s)

/-- Strings hold no numerals. -/
theorem reads_readString (s : List Char) : Reads s (readString s) := by
  rw [readString]
  split
  · next ns rest h => exact .ok (readCodes_suffix h)
  · exact .malformed

private theorem wholePart_spec (s : List Char) :
    (wholePart s).1 ++ (wholePart s).2 = s ∧ ∀ c ∈ (wholePart s).1, c.isDigit = true := by
  rw [wholePart.eq_def]
  split
  · exact ⟨rfl, by simp⟩
  · exact ⟨List.takeWhile_append_dropWhile, fun c hc => List.mem_takeWhile_imp hc⟩

private theorem fraction_suffix (s : List Char) : (fraction s).2 <:+ s := by
  rw [fraction.eq_def]
  split
  · next r =>
    dsimp only
    split
    · exact List.suffix_rfl
    · exact (List.dropWhile_suffix _).trans (List.suffix_cons _ _)
  · exact List.suffix_rfl

private theorem exponentSign_suffix (s : List Char) : (exponentSign s).2 <:+ s := by
  rw [exponentSign.eq_def]
  split
  · exact List.suffix_cons _ _
  · exact List.suffix_cons _ _
  · exact List.suffix_rfl

private theorem exponent_suffix (s : List Char) : (exponent s).2 <:+ s := by
  cases s with
  | nil => exact List.suffix_rfl
  | cons e r =>
    rw [exponent]
    dsimp only
    split
    · exact ((List.dropWhile_suffix _).trans (exponentSign_suffix r)).trans (List.suffix_cons _ _)
    · exact List.suffix_rfl

/-- A number stops the reading only if its whole part is too long. -/
theorem reads_readUnsigned (negative : Bool) (s : List Char) :
    Reads s (readUnsigned negative s) := by
  obtain ⟨happend, hdigits⟩ := wholePart_spec s
  have hwhole : (wholePart s).2 <:+ s := ⟨_, happend⟩
  have hrest : (exponent (fraction (wholePart s).2).2).2 <:+ s :=
    ((exponent_suffix _).trans (fraction_suffix _)).trans hwhole
  rw [readUnsigned]
  dsimp only
  split
  · exact .malformed
  split
  · split
    · exact .ok hrest
    · next hlong =>
      refine ⟨fun a rest he => ?_, fun n he => ?_⟩
      · cases he
      · cases he
        exact ⟨Nat.lt_of_not_le hlong, (wholePart s).1, ⟨[], (wholePart s).2, happend⟩, rfl,
          hdigits⟩
  · exact .ok hrest

/-- Words hold no numerals, and everything else is a number. -/
theorem reads_readAtom (s : List Char) : Reads s (readAtom s) := by
  rw [readAtom.eq_def]
  split
  · exact .ok (List.drop_suffix _ _)
  · split
    · exact (reads_readUnsigned true _).mono (List.suffix_cons _ _)
    · exact reads_readUnsigned false s

section

variable {fuel : Nat}

/-- A value is read from the front of the text if its items and members are. -/
theorem reads_readValue (hitems : ∀ s, Reads s (readItems fuel s))
    (hmembers : ∀ s, Reads s (readMembers fuel s)) (s : List Char) :
    Reads s (readValue (fuel + 1) s) := by
  rw [readValue.eq_def]
  dsimp only
  split
  · next s => exact ((reads_readString s).map _).mono (List.suffix_cons _ s)
  · next s =>
    refine Reads.mono ?_ (List.suffix_cons _ s)
    split
    · next t ht => exact .ok (suffix_of_skipSpace ht)
    · exact ((hitems _).map _).mono (skipSpace_suffix s)
  · next s =>
    refine Reads.mono ?_ (List.suffix_cons _ s)
    split
    · next t ht => exact .ok (suffix_of_skipSpace ht)
    · exact ((hmembers _).map _).mono (skipSpace_suffix s)
  · exact reads_readAtom s

/-- Items are read from the front of the text if the first value and the other items are. -/
theorem reads_readItems (hvalue : ∀ s, Reads s (readValue fuel s))
    (hitems : ∀ s, Reads s (readItems fuel s)) (s : List Char) :
    Reads s (readItems (fuel + 1) s) := by
  rw [readItems]
  refine (hvalue s).bind fun v rest _ => ?_
  dsimp only
  split
  · next t ht => exact .ok (suffix_of_skipSpace ht)
  · next t ht =>
    exact ((hitems _).map _).mono ((skipSpace_suffix t).trans (suffix_of_skipSpace ht))
  · exact .malformed

/-- Members are read from the front of the text if the first value and the other members are. -/
theorem reads_readMembers (hvalue : ∀ s, Reads s (readValue fuel s))
    (hmembers : ∀ s, Reads s (readMembers fuel s)) (s : List Char) :
    Reads s (readMembers (fuel + 1) s) := by
  rw [readMembers.eq_def]
  dsimp only
  split
  · next s =>
    refine Reads.mono ((reads_readString s).bind fun name rest _ => ?_) (List.suffix_cons _ s)
    dsimp only
    split
    · next t ht =>
      refine Reads.mono ((hvalue _).bind fun v rest _ => ?_)
        ((skipSpace_suffix t).trans (suffix_of_skipSpace ht))
      dsimp only
      split
      · next u hu => exact .ok (suffix_of_skipSpace hu)
      · next u hu =>
        exact ((hmembers _).map _).mono ((skipSpace_suffix u).trans (suffix_of_skipSpace hu))
      · exact .malformed
    · exact .malformed
  · exact .malformed

end

/-- Values, items and members are read from the front of the text. -/
theorem reads_fuel (fuel : Nat) :
    (∀ s, Reads s (readValue fuel s)) ∧ (∀ s, Reads s (readItems fuel s)) ∧
      ∀ s, Reads s (readMembers fuel s) := by
  induction fuel with
  | zero => exact ⟨fun _ => .malformed, fun _ => .malformed, fun _ => .malformed⟩
  | succ fuel ih =>
    obtain ⟨hvalue, hitems, hmembers⟩ := ih
    exact ⟨reads_readValue hitems hmembers, reads_readItems hvalue hitems,
      reads_readMembers hvalue hmembers⟩

/-- A numeral that stops the reading of a value stands in the text of the value. -/
theorem longNumeral_of_read {s : List Char} {n : Nat} (h : read s = .error (.numeralTooLong n)) :
    LongNumeral n s := by
  rw [read] at h
  cases hv : readValue (2 * s.length + 2) (skipSpace s) with
  | error e =>
    rw [hv] at h
    cases h
    exact (((reads_fuel _).1 _).numeral n hv).mono (skipSpace_suffix s).isInfix
  | ok p =>
    rw [hv] at h
    simp only [bind, Except.bind] at h
    split at h <;> cases h

/-- An object whose only member is a numeral of `n` ones. -/
def onesObject (n : Nat) : List Char :=
  '\x7b' :: '"' :: 'a' :: '"' :: ':' :: ' ' :: (List.replicate n '1' ++ ['\x7d'])

private theorem whole_ones {n : Nat} (hn : 0 < n) : Whole (List.replicate n '1') := by
  have hdigits : ∀ c ∈ List.replicate n '1', c = '1' := fun c hc => List.eq_of_mem_replicate hc
  refine ⟨⟨by simp [Nat.ne_of_gt hn], fun c hc => ?_⟩, fun hzero => ?_⟩
  · rw [hdigits c hc]
    rfl
  · exact absurd (hdigits '0' (List.mem_of_head? hzero)) (by decide)

/-- A run of ones that is too long stops the reading of a number. -/
theorem readAtom_ones {n : Nat} (hn : maxDigits < n) (t : List Char) :
    readAtom (List.replicate n '1' ++ '\x7d' :: t) = .error (.numeralTooLong n) := by
  have hends : Ends ('\x7d' :: t) := by
    rintro c ⟨⟩
    exact .inr (.inr (.inr rfl))
  have hread := readAtom_number false (whole_ones (Nat.zero_lt_of_lt hn)) .missing .missing hends
  rw [if_pos (List.append_nil []), List.length_replicate, if_neg (Nat.not_le_of_lt hn)] at hread
  rwa [List.append_nil, List.append_nil] at hread

/-- The object with a run of ones that is too long is not read. -/
theorem read_onesObject {n : Nat} (hn : maxDigits < n) :
    read (onesObject n) = .error (.numeralTooLong n) := by
  have hpos : 0 < n := Nat.lt_of_le_of_lt (Nat.zero_le _) hn
  obtain ⟨k, hk⟩ : ∃ k, 2 * (onesObject n).length + 2 = k + 3 :=
    ⟨2 * (onesObject n).length - 1, by simp [onesObject]; omega⟩
  have hvalue : readValue (k + 1) (List.replicate n '1' ++ ['\x7d']) =
      .error (.numeralTooLong n) := by
    obtain ⟨m, rfl⟩ := Nat.exists_eq_succ_of_ne_zero (Nat.ne_of_gt hpos)
    exact readAtom_ones hn []
  have hcodes (s : List Char) : readCodes ('a' :: '"' :: s) = some (['a'.toNat], s) := by
    rw [readCodes_plain (by decide) (by decide) (by decide), readCodes_quote, Option.map_some]
  have hmembers : readMembers (k + 2) (onesObject n).tail = .error (.numeralTooLong n) := by
    obtain ⟨m, rfl⟩ := Nat.exists_eq_succ_of_ne_zero (Nat.ne_of_gt hpos)
    rw [onesObject, List.tail_cons, readMembers, readString, hcodes]
    change (readValue (k + 1) (List.replicate (m + 1) '1' ++ ['\x7d']) >>= _) = _
    rw [hvalue]
    rfl
  rw [read, hk]
  change (readMembers (k + 2) (onesObject n).tail >>= _) >>= _ = _
  rw [hmembers]
  rfl

end Lifeline.Json
