import Lifeline.Bracket
import Lifeline.Text.Word
import Mathlib.Data.List.TakeWhile

/-!
# Texts that go on

What is found in a text is found in every longer text as well, and nothing else
is, as long as the text goes on with a character that ends whatever stands before
it. So a text can be read by itself before it is known what follows.
-/

namespace Lifeline.Text

/-- A character that belongs to no mark and no word: a line end, or a blank that is skipped. -/
def isBreak (c : Char) : Bool := c == '\n' || c == ' ' || c == '\t' || c == '\r'

/-- The text is empty or starts with a break, so nothing before it runs on into it. -/
def Parted (b : List Char) : Prop := ∀ c ∈ b.head?, isBreak c = true

theorem parted_nil : Parted [] := by simp [Parted]

theorem parted_cons {c : Char} {b : List Char} : Parted (c :: b) ↔ isBreak c = true := by
  simp [Parted]

private theorem isWordChar_of_isBreak {c : Char} (h : isBreak c = true) : isWordChar c = false := by
  simp only [isBreak, Bool.or_eq_true, beq_iff_eq] at h
  rcases h with ((rfl | rfl) | rfl) | rfl <;> decide

/-- A run stays the same if the list goes on with an element that does not belong to it. -/
theorem takeWhile_append_of_head {α : Type} {p : α → Bool} {xs ys : List α}
    (hy : ∀ y ∈ ys.head?, p y = false) : (xs ++ ys).takeWhile p = xs.takeWhile p := by
  induction xs with
  | nil =>
    cases ys with
    | nil => rfl
    | cons y ys => simp [hy y rfl]
  | cons x xs ih => simp only [List.cons_append, List.takeWhile_cons, ih]

/-- What follows such a run only becomes longer. -/
theorem dropWhile_append_of_head {α : Type} {p : α → Bool} {xs ys : List α}
    (hy : ∀ y ∈ ys.head?, p y = false) : (xs ++ ys).dropWhile p = xs.dropWhile p ++ ys := by
  induction xs with
  | nil =>
    cases ys with
    | nil => rfl
    | cons y ys => simp [hy y rfl]
  | cons x xs ih =>
    simp only [List.cons_append, List.dropWhile_cons, ih]
    split <;> rfl

/-- A run takes all the elements that belong to it. -/
theorem takeWhile_append_eq {α : Type} {p : α → Bool} {xs ys : List α}
    (hx : ∀ x ∈ xs, p x = true) (hy : ∀ y ∈ ys.head?, p y = false) :
    (xs ++ ys).takeWhile p = xs := by
  rw [takeWhile_append_of_head hy, List.takeWhile_eq_self_iff.mpr hx]

/-- What follows such a run is left. -/
theorem dropWhile_append_eq {α : Type} {p : α → Bool} {xs ys : List α}
    (hx : ∀ x ∈ xs, p x = true) (hy : ∀ y ∈ ys.head?, p y = false) :
    (xs ++ ys).dropWhile p = ys := by
  rw [dropWhile_append_of_head hy, List.dropWhile_eq_nil_iff.mpr hx, List.nil_append]

variable {a b : List Char}

/-- A line is all that stands in front of its end. -/
theorem takeWhile_line (ha : '\n' ∉ a) (hb : ∀ c ∈ b.head?, c = '\n') :
    (a ++ b).takeWhile (· != '\n') = a :=
  takeWhile_append_eq (fun _ hc => bne_iff_ne.mpr (ne_of_mem_of_not_mem hc ha)) fun c hc => by
    rw [hb c hc]
    rfl

/-- Behind it stands its end, or nothing. -/
theorem dropWhile_line (ha : '\n' ∉ a) (hb : ∀ c ∈ b.head?, c = '\n') :
    (a ++ b).dropWhile (· != '\n') = b :=
  dropWhile_append_eq (fun _ hc => bne_iff_ne.mpr (ne_of_mem_of_not_mem hc ha)) fun c hc => by
    rw [hb c hc]
    rfl

/-- A text without line ends is one line. -/
theorem takeWhile_of_newline_not_mem (ha : '\n' ∉ a) : a.takeWhile (· != '\n') = a := by
  simpa using takeWhile_line (b := []) ha (by simp)

theorem Parted.isWordChar (hb : Parted b) : ∀ c ∈ b.head?, isWordChar c = false :=
  fun c hc => isWordChar_of_isBreak (hb c hc)

/-- A mark without breaks stands at the front of the longer text only if it did before. -/
theorem isPrefixOf_append_of_parted {mark : List Char} (hm : ∀ c ∈ mark, isBreak c = false)
    (hb : Parted b) : mark.isPrefixOf (a ++ b) = mark.isPrefixOf a := by
  induction mark generalizing a with
  | nil => simp
  | cons m mark ih =>
    cases a with
    | nil =>
      cases b with
      | nil => rfl
      | cons c b =>
        have hne : m ≠ c := by
          rintro rfl
          exact absurd (parted_cons.mp hb) (by simp [hm m])
        simp [List.isPrefixOf, hne]
    | cons d a =>
      simp only [List.cons_append, List.isPrefixOf_cons_cons]
      rw [ih fun c hc => hm c (List.mem_cons_of_mem m hc)]

/-- Taking such a mark off the front leaves what it left before, and what follows. -/
theorem after?_append_of_parted {mark : List Char} (hm : ∀ c ∈ mark, isBreak c = false)
    (hb : Parted b) : after? mark (a ++ b) = (after? mark a).map (· ++ b) := by
  rw [after?, after?, isPrefixOf_append_of_parted hm hb]
  split
  · next h =>
    have hl := (List.isPrefixOf_iff_prefix.mp h).length_le
    rw [Option.map_some, List.drop_append_of_le_length hl]
  · rfl

/-- The first occurrence of a mark stays the first one. -/
theorem cut_append_of_some {mark before behind : List Char}
    (h : cut mark a = some (before, behind)) : cut mark (a ++ b) = some (before, behind ++ b) := by
  induction a generalizing before with
  | nil =>
    rw [cut] at h
    split at h
    · next hm =>
      cases h
      rw [List.isEmpty_iff.mp hm]
      cases b <;> simp [cut]
    · cases h
  | cons c a ih =>
    rw [cut] at h
    rw [List.cons_append, cut]
    split at h
    · next hp =>
      cases h
      have hl := (List.isPrefixOf_iff_prefix.mp hp).length_le
      have hp' : mark.isPrefixOf (c :: (a ++ b)) = true :=
        List.isPrefixOf_iff_prefix.mpr
          ((List.isPrefixOf_iff_prefix.mp hp).trans (List.prefix_append (c :: a) b))
      rw [if_pos hp', ← List.cons_append, List.drop_append_of_le_length hl]
    · next hp =>
      obtain ⟨⟨x, y⟩, hx, he⟩ := Option.map_eq_some_iff.mp h
      cases he
      -- The mark may now reach over the seam only if it occurs earlier, which it does not.
      have hp' : ¬mark.isPrefixOf (c :: (a ++ b)) = true := by
        intro hq
        have hle : mark.length ≤ a.length := by
          have := congrArg List.length (cut_append hx)
          simp only [List.length_append] at this
          omega
        refine hp (List.isPrefixOf_iff_prefix.mpr ?_)
        exact List.prefix_of_prefix_length_le (List.isPrefixOf_iff_prefix.mp hq)
          (List.prefix_append (c :: a) b) (by simp; omega)
      rw [if_neg hp', ih hx]
      rfl

/-- A mark without breaks that does not occur is first found behind the seam. -/
theorem cut_append_of_none {mark : List Char} (hm : ∀ c ∈ mark, isBreak c = false)
    (hb : Parted b) (h : cut mark a = none) :
    cut mark (a ++ b) = (cut mark b).map fun p => (a ++ p.1, p.2) := by
  induction a with
  | nil => simp
  | cons c a ih =>
    rw [cut] at h
    split at h
    · cases h
    · next hp =>
      have hp' : ¬mark.isPrefixOf (c :: (a ++ b)) = true := by
        rwa [← List.cons_append, isPrefixOf_append_of_parted hm hb]
      rw [List.cons_append, cut, if_neg hp', ih (Option.map_eq_none_iff.mp h), Option.map_map]
      rfl

end Lifeline.Text

namespace Lifeline.Bracket

open Text

/-- The bracket that closes a value stays the one that closes it. -/
theorem split_append_of_some {b : Bracket} {depth : Nat} {s t value rest : List Char}
    (h : b.split depth s = some (value, rest)) :
    b.split depth (s ++ t) = some (value, rest ++ t) := by
  induction s generalizing depth value with
  | nil => simp [split] at h
  | cons c s ih =>
    have hstep {d : Nat} (hd : (b.split d s).map (extend c) = some (value, rest)) :
        (b.split d (s ++ t)).map (extend c) = some (value, rest ++ t) := by
      obtain ⟨⟨v, r⟩, hv, he⟩ := Option.map_eq_some_iff.mp hd
      cases he
      rw [ih hv]
      rfl
    cases depth with
    | zero =>
      rw [split] at h
      rw [List.cons_append, split]
      split at h
      · next ho => rw [if_pos ho, hstep h]
      · next ho =>
        rw [if_neg ho]
        split at h
        · next hc =>
          cases h
          rw [if_pos hc]
        · next hc => rw [if_neg hc, hstep h]
    | succ depth =>
      rw [split] at h
      rw [List.cons_append, split]
      split at h
      · next ho => rw [if_pos ho, hstep h]
      · next ho =>
        rw [if_neg ho]
        split at h
        · next hc => rw [if_pos hc, hstep h]
        · next hc => rw [if_neg hc, hstep h]

end Lifeline.Bracket
