import Lifeline.Text.Search

/-!
# Control sequences

A terminal takes a control sequence as an order, such as a change of colour, and
does not show it: the escape character, an opening bracket, parameters, and the letter
that names the order. Reports are written without them. What is left is not
looked through again, so a sequence that only then comes about stays.
-/

namespace Lifeline.Text

/-- The start of a control sequence. -/
def controlMark : List Char := ['\x1b', '[']

/-- The characters of parameters. -/
def isParameter (c : Char) : Bool := c.isDigit || c == ';' || c == '?'

/-- The text behind a control sequence that it starts with. -/
def afterControl? (s : List Char) : Option (List Char) :=
  match (after? controlMark s).map (·.dropWhile isParameter) with
  | some (c :: rest) => if c.isAlpha then some rest else none
  | _ => none

private theorem length_lt_of_afterControl? {s rest : List Char} (h : afterControl? s = some rest) :
    rest.length < s.length := by
  rw [afterControl?] at h
  split at h
  · next c r hr =>
    obtain ⟨t, ht, hd⟩ := Option.map_eq_some_iff.mp hr
    split at h
    · cases h
      have hl := (List.dropWhile_sublist isParameter (l := t)).length_le
      rw [hd, List.length_cons] at hl
      rw [after?_eq_some_iff.mp ht, List.length_append]
      omega
    · cases h
  · cases h

/-- The text without its control sequences. -/
def withoutControls (s : List Char) : List Char :=
  match s with
  | [] => []
  | c :: s =>
    match _h : afterControl? (c :: s) with
    | some rest => withoutControls rest
    | none => c :: withoutControls s
termination_by s.length
decreasing_by
  · exact length_lt_of_afterControl? _h
  · exact Nat.lt_succ_self _

/-- What happens at the first character of a text. -/
theorem withoutControls_cons (c : Char) (s : List Char) :
    withoutControls (c :: s) =
      match afterControl? (c :: s) with
      | some rest => withoutControls rest
      | none => c :: withoutControls s := by
  rw [withoutControls]
  split <;> simp_all

/-- No control sequence starts with anything but the escape character. -/
theorem afterControl?_cons_of_ne {c : Char} (hc : c ≠ '\x1b') (s : List Char) :
    afterControl? (c :: s) = none := by
  have hm : after? controlMark (c :: s) = none := by
    simp [after?, controlMark, List.isPrefixOf, Ne.symm hc]
  rw [afterControl?, hm]
  rfl

/-- What stands before the first escape character stays as it is. -/
theorem withoutControls_append {s : List Char} (hs : '\x1b' ∉ s) (t : List Char) :
    withoutControls (s ++ t) = s ++ withoutControls t := by
  induction s with
  | nil => rfl
  | cons c s ih =>
    simp only [List.mem_cons, not_or] at hs
    rw [List.cons_append, withoutControls_cons, afterControl?_cons_of_ne (Ne.symm hs.1), ih hs.2]
    rfl

end Lifeline.Text
