import Lifeline.Bracket

/-!
# Balanced values

A value comes back whole from its brackets exactly when it is balanced for them.
Whether it is depends on its brackets alone, so a value may be trimmed, put in
upper case or divided at commas without becoming balanced or ceasing to be.
-/

namespace Lifeline

/-- A bracket of either kind. -/
def isBracket (c : Char) : Bool := c == '(' || c == ')' || c == '\x7b' || c == '\x7d'

/-- The brackets of a text. -/
def brackets (s : List Char) : List Char := s.filter isBracket

@[simp] theorem brackets_append (s t : List Char) : brackets (s ++ t) = brackets s ++ brackets t :=
  List.filter_append ..

theorem brackets_cons_of_false {c : Char} (h : isBracket c = false) (s : List Char) :
    brackets (c :: s) = brackets s := List.filter_cons_of_neg (by simp [h])

theorem brackets_cons_of_true {c : Char} (h : isBracket c = true) (s : List Char) :
    brackets (c :: s) = c :: brackets s := List.filter_cons_of_pos h

theorem brackets_eq_nil {s : List Char} (h : ∀ c ∈ s, isBracket c = false) : brackets s = [] :=
  List.filter_eq_nil_iff.mpr fun c hc => by simp [h c hc]

namespace Bracket

variable {b : Bracket} {depth : Nat} {s value rest : List Char}

private theorem isBracket_opener (b : Bracket) : isBracket b.opener = true := by cases b <;> rfl

theorem isBracket_closer (b : Bracket) : isBracket b.closer = true := by cases b <;> rfl

theorem closer_ne_opener (b : Bracket) : b.closer ≠ b.opener := by cases b <;> decide

theorem closer_ne_newline (b : Bracket) : b.closer ≠ '\n' := by cases b <;> decide

theorem closes_opener : b.closes depth (b.opener :: s) = b.closes (depth + 1) s := by
  rw [closes.eq_def]
  exact if_pos rfl

theorem closes_closer_succ : b.closes (depth + 1) (b.closer :: s) = b.closes depth s := by
  rw [closes, if_neg b.closer_ne_opener, if_pos rfl]

theorem closes_closer_zero : b.closes 0 (b.closer :: s) = false := by
  rw [closes, if_neg b.closer_ne_opener, if_pos rfl]

/-- Any other character changes nothing. -/
theorem closes_other {c : Char} (ho : c ≠ b.opener) (hc : c ≠ b.closer) :
    b.closes depth (c :: s) = b.closes depth s := by
  rw [closes.eq_def]
  simp only [if_neg ho, if_neg hc]

/-- What stands behind an opening bracket is split with one more open. -/
theorem split_opener :
    b.split depth (b.opener :: s) = (b.split (depth + 1) s).map (Text.extend b.opener) := by
  rw [split.eq_def]
  exact if_pos rfl

theorem split_closer_succ :
    b.split (depth + 1) (b.closer :: s) = (b.split depth s).map (Text.extend b.closer) := by
  rw [split, if_neg b.closer_ne_opener, if_pos rfl]

theorem split_closer_zero : b.split 0 (b.closer :: s) = some ([], s) := by
  rw [split, if_neg b.closer_ne_opener, if_pos rfl]

/-- Any other character belongs to the value. -/
theorem split_other {c : Char} (ho : c ≠ b.opener) (hc : c ≠ b.closer) :
    b.split depth (c :: s) = (b.split depth s).map (Text.extend c) := by
  rw [split.eq_def]
  simp only [if_neg ho, if_neg hc]

/-- A balanced value ends at the bracket behind it. -/
theorem split_of_closes (h : b.closes depth value = true) (rest : List Char) :
    b.split depth (value ++ b.closer :: rest) = some (value, rest) := by
  induction value generalizing depth with
  | nil =>
    obtain rfl : depth = 0 := by simpa [closes] using h
    exact split_closer_zero
  | cons c value ih =>
    rw [List.cons_append]
    by_cases ho : c = b.opener
    · subst ho
      rw [closes_opener] at h
      rw [split_opener, ih h]
      rfl
    by_cases hc : c = b.closer
    · subst hc
      cases depth with
      | zero => rw [closes_closer_zero] at h; cases h
      | succ depth =>
        rw [closes_closer_succ] at h
        rw [split_closer_succ, ih h]
        rfl
    · rw [closes_other ho hc] at h
      rw [split_other ho hc, ih h]
      rfl

/-- What is found in brackets is balanced for them. -/
theorem closes_of_split (h : b.split depth s = some (value, rest)) :
    b.closes depth value = true := by
  induction s generalizing depth value with
  | nil => simp [split] at h
  | cons c s ih =>
    have hstep {d : Nat} (hd : (b.split d s).map (Text.extend c) = some (value, rest)) :
        ∃ v, value = c :: v ∧ b.closes d v = true := by
      obtain ⟨⟨v, r⟩, hv, he⟩ := Option.map_eq_some_iff.mp hd
      cases he
      exact ⟨v, rfl, ih hv⟩
    by_cases ho : c = b.opener
    · subst ho
      rw [split_opener] at h
      obtain ⟨v, rfl, hv⟩ := hstep h
      rw [closes_opener, hv]
    by_cases hc : c = b.closer
    · subst hc
      cases depth with
      | zero =>
        rw [split_closer_zero] at h
        cases h
        rfl
      | succ depth =>
        rw [split_closer_succ] at h
        obtain ⟨v, rfl, hv⟩ := hstep h
        rw [closes_closer_succ, hv]
    · rw [split_other ho hc] at h
      obtain ⟨v, rfl, hv⟩ := hstep h
      rw [closes_other ho hc, hv]

/-- A value is found exactly if it is balanced and its closing bracket stands behind it. -/
theorem split_eq_some_iff :
    b.split depth s = some (value, rest) ↔
      b.closes depth value = true ∧ s = value ++ b.closer :: rest := by
  constructor
  · exact fun h => ⟨closes_of_split h, (split_append h).symm⟩
  · rintro ⟨h, rfl⟩
    exact split_of_closes h rest

/-- What no bracket closes is not closed by another character. -/
theorem split_append_of_none {c : Char} (hc : b.closer ≠ c) (h : b.split depth s = none) :
    b.split depth (s ++ [c]) = none := by
  rw [Option.eq_none_iff_forall_ne_some]
  rintro ⟨value, rest⟩ hsplit
  obtain ⟨hvalue, he⟩ := split_eq_some_iff.mp hsplit
  rcases List.eq_nil_or_concat rest with rfl | ⟨rest, d, rfl⟩
  · exact hc (List.singleton_inj.mp (List.append_inj_right' he rfl)).symm
  · have hs : s = value ++ b.closer :: rest := by
      rw [List.concat_eq_append, ← List.cons_append, ← List.append_assoc] at he
      exact List.append_inj_left' he rfl
    rw [split_eq_some_iff.mpr ⟨hvalue, hs⟩] at h
    cases h

/-- Only its brackets decide whether a value closes what is open. -/
theorem closes_brackets (b : Bracket) (depth : Nat) (value : List Char) :
    b.closes depth (brackets value) = b.closes depth value := by
  induction value generalizing depth with
  | nil => rfl
  | cons c value ih =>
    by_cases ho : c = b.opener
    · subst ho
      rw [brackets_cons_of_true b.isBracket_opener, closes_opener, closes_opener, ih]
    by_cases hc : c = b.closer
    · subst hc
      rw [brackets_cons_of_true b.isBracket_closer]
      cases depth with
      | zero => rw [closes_closer_zero, closes_closer_zero]
      | succ depth => rw [closes_closer_succ, closes_closer_succ, ih]
    · rw [closes_other ho hc, ← ih]
      cases hb : isBracket c with
      | true => rw [brackets_cons_of_true hb, closes_other ho hc]
      | false => rw [brackets_cons_of_false hb]

/-- Values with the same brackets are balanced for the same kinds. -/
theorem balanced_congr {v w : List Char} (h : brackets v = brackets w) (b : Bracket) :
    b.balanced v = b.balanced w := by
  rw [balanced, balanced, ← closes_brackets b 0 v, h, closes_brackets]

/-- The kind chosen holds the value together if one of the two kinds does. -/
theorem balanced_choose (preferred : Bracket) (value : List Char) :
    (preferred.choose value).balanced value = true ↔
      round.balanced value = true ∨ curly.balanced value = true := by
  cases preferred <;> cases hr : round.balanced value <;> cases hc : curly.balanced value <;>
    simp [choose, other, hr, hc]

end Bracket

end Lifeline
