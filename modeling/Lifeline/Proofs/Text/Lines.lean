import Lifeline.Text.Blank
import Lifeline.Text.Lines

/-!
# Dividing and joining

No part of a divided text holds the mark, and parts that do not hold it are found
again after they have been joined. So a text is edited by its lines without
touching the lines that an edit leaves alone.
-/

namespace Lifeline.Text

variable {mark : Char}

/-- A part that is joined to others is followed by the mark. -/
theorem joinWith_cons {sep : List Char} (part : List Char) {parts : List (List Char)}
    (h : parts ≠ []) : joinWith sep (part :: parts) = part ++ sep ++ joinWith sep parts := by
  cases parts with
  | nil => exact absurd rfl h
  | cons _ _ => rfl

/-- Texts joined by spaces are the first one and the others with a space before each. -/
theorem joinWith_space (part : List Char) (parts : List (List Char)) :
    joinWith [' '] (part :: parts) = part ++ parts.flatMap (' ' :: ·) := by
  induction parts generalizing part with
  | nil => simp [joinWith]
  | cons next parts ih =>
    rw [joinWith_cons part (List.cons_ne_nil next parts), ih, List.flatMap_cons, List.append_assoc,
      List.singleton_append, List.cons_append]

/-- A text without the mark is its only part. -/
theorem divide_of_not_mem {s : List Char} (h : mark ∉ s) : divide mark s = [s] := by
  induction s with
  | nil => rfl
  | cons c s ih =>
    rw [List.mem_cons, not_or] at h
    rw [divide, if_neg (Ne.symm h.1), ih h.2]

/-- The first mark ends the first part. -/
theorem divide_append {part : List Char} (h : mark ∉ part) (s : List Char) :
    divide mark (part ++ mark :: s) = part :: divide mark s := by
  induction part with
  | nil => rw [List.nil_append, divide, if_pos rfl]
  | cons c part ih =>
    rw [List.mem_cons, not_or] at h
    rw [List.cons_append, divide, if_neg (Ne.symm h.1), ih h.2]

/-- No part holds the mark. -/
theorem not_mem_of_mem_divide {s part : List Char} (h : part ∈ divide mark s) : mark ∉ part := by
  induction s generalizing part with
  | nil =>
    rw [List.mem_singleton.mp h]
    exact List.not_mem_nil
  | cons c s ih =>
    rw [divide] at h
    split at h
    · rcases List.mem_cons.mp h with rfl | h
      · exact List.not_mem_nil
      · exact ih h
    · next hc =>
      cases hd : divide mark s with
      | nil => exact absurd hd (divide_ne_nil mark s)
      | cons first parts =>
        rw [hd] at h ih
        rcases List.mem_cons.mp h with rfl | h
        · rw [List.mem_cons, not_or]
          exact ⟨Ne.symm hc, ih List.mem_cons_self⟩
        · exact ih (List.mem_cons_of_mem first h)

/-- Parts without the mark are found again in the joined text. -/
theorem divide_joinWith {parts : List (List Char)} (h : ∀ part ∈ parts, mark ∉ part)
    (hne : parts ≠ []) : divide mark (joinWith [mark] parts) = parts := by
  induction parts with
  | nil => exact absurd rfl hne
  | cons part parts ih =>
    have hpart := h part List.mem_cons_self
    by_cases hp : parts = []
    · subst hp
      exact divide_of_not_mem hpart
    · rw [joinWith_cons part hp, List.append_assoc, List.singleton_append, divide_append hpart,
        ih (fun p hp => h p (List.mem_cons_of_mem part hp)) hp]

/-- No line holds a line end. -/
theorem not_mem_of_mem_lines {s : List Char} {l : Line} (h : l ∈ lines s) : '\n' ∉ l :=
  not_mem_of_mem_divide h

/-- Lines without line ends are the lines of the text that they make. -/
theorem lines_unlines {ls : List Line} (h : ∀ l ∈ ls, '\n' ∉ l) (hne : ls ≠ []) :
    lines (unlines ls) = ls := divide_joinWith h hne

/-- A line of the joined text is one of the lines, or the empty line that no lines make. -/
theorem mem_lines_unlines {ls : List Line} (h : ∀ l ∈ ls, '\n' ∉ l) {l : Line}
    (hl : l ∈ lines (unlines ls)) : l ∈ ls ∨ l = [] := by
  by_cases hne : ls = []
  · subst hne
    exact .inr (List.mem_singleton.mp hl)
  · rw [lines_unlines h hne] at hl
    exact .inl hl

/-- A line in front of others ends in a line end. -/
theorem unlines_cons (l : Line) {ls : List Line} (h : ls ≠ []) :
    unlines (l :: ls) = l ++ '\n' :: unlines ls := by
  rw [unlines, joinWith_cons l h, List.append_assoc, List.singleton_append]
  rfl

/-- Trimming removes an indentation whole. -/
theorem trim_append_of_blank {indent : List Char} (h : ∀ c ∈ indent, isBlank c = true)
    (s : List Char) : trim (indent ++ s) = trim s := by
  rw [trim, trim, trimStart, trimStart, List.dropWhile_append_of_pos h]

/-- An indentation consists of blanks. -/
theorem isBlank_of_mem_indentation {l : Line} {c : Char} (h : c ∈ indentation l) :
    isBlank c = true := by
  induction l with
  | nil => cases h
  | cons d l ih =>
    rw [indentation, List.takeWhile_cons] at h
    split at h
    · next hd =>
      rcases List.mem_cons.mp h with rfl | h
      · exact hd
      · exact ih h
    · cases h

/-- The indentation of a line is part of it. -/
theorem mem_of_mem_indentation {l : Line} {c : Char} (h : c ∈ indentation l) : c ∈ l :=
  (List.takeWhile_sublist isBlank).subset h

end Lifeline.Text
