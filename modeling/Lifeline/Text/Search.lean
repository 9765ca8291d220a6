/-!
# Finding a mark in a text

`after?` takes a mark off the front of a text, and `cut` divides a text at the
first occurrence of a mark. Everything that runs until a closing mark, and every
question whether a text holds a mark, goes through `cut`.
-/

namespace Lifeline.Text

/-- The text behind a mark that it starts with. -/
def after? (mark s : List Char) : Option (List Char) :=
  if mark.isPrefixOf s then some (s.drop mark.length) else none

/-- A text that starts with the mark is the mark and what `after?` leaves. -/
theorem after?_eq_some_iff {mark s rest : List Char} :
    after? mark s = some rest ↔ s = mark ++ rest := by
  rw [after?]
  split
  · next h =>
    obtain ⟨t, rfl⟩ := List.isPrefixOf_iff_prefix.mp h
    simp
  · next h =>
    simp only [reduceCtorEq, false_iff]
    rintro rfl
    exact h (List.isPrefixOf_iff_prefix.mpr (List.prefix_append _ _))

/-- Puts a character in front of the first of two parts. -/
def extend (c : Char) (parts : List Char × List Char) : List Char × List Char :=
  (c :: parts.1, parts.2)

/-- The text before the first occurrence of `mark`, and the text after that occurrence. -/
def cut (mark : List Char) : List Char → Option (List Char × List Char)
  | [] => if mark.isEmpty then some ([], []) else none
  | c :: s =>
    if mark.isPrefixOf (c :: s) then some ([], (c :: s).drop mark.length)
    else (cut mark s).map (extend c)

/-- The mark stands somewhere in the text. -/
def occurs (mark s : List Char) : Bool := (cut mark s).isSome

/-- Cutting loses nothing: the two parts and the mark between them are the text. -/
theorem cut_append {mark s before after : List Char} (h : cut mark s = some (before, after)) :
    before ++ mark ++ after = s := by
  induction s generalizing before with
  | nil =>
    rw [cut] at h
    split at h
    · obtain ⟨rfl, rfl⟩ := by simpa using h
      simp_all
    · cases h
  | cons c s ih =>
    rw [cut] at h
    split at h
    · next hp =>
      obtain ⟨rfl, rfl⟩ := by simpa using h
      obtain ⟨t, ht⟩ := List.isPrefixOf_iff_prefix.mp hp
      rw [← ht]
      simp
    · obtain ⟨⟨b, a⟩, hb, he⟩ := Option.map_eq_some_iff.mp h
      cases he
      simpa using congrArg (c :: ·) (ih hb)

end Lifeline.Text
