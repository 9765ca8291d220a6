import Lifeline.Text.Blank
import Lifeline.Text.Lines
import Mathlib.Data.List.TakeWhile

/-!
# Trimmed texts

A text is trimmed when it neither starts nor ends with a blank; trimming makes it
so, loses blanks only, and leaves a trimmed text alone.
-/

namespace Lifeline.Text

/-- The text neither starts nor ends with a blank. -/
structure Trimmed (s : List Char) : Prop where
  start : ∀ c ∈ s.head?, isBlank c = false
  stop : ∀ c ∈ s.getLast?, isBlank c = false

variable {s t : List Char}

/-- What is left behind a dropped run does not start with an element of the run. -/
theorem head?_dropWhile_eq_false {α : Type} {p : α → Bool} {xs : List α} {x : α}
    (h : x ∈ (xs.dropWhile p).head?) : p x = false := by
  induction xs with
  | nil => cases h
  | cons y xs ih =>
    rw [List.dropWhile_cons] at h
    split at h
    · exact ih h
    · next hy =>
      cases h
      simpa using hy

/-- Behind the first line of a text stands nothing or a line end. -/
theorem behind_line_cases (s : List Char) :
    s.dropWhile (· != '\n') = [] ∨ ∃ behind, s.dropWhile (· != '\n') = '\n' :: behind := by
  cases h : s.dropWhile (· != '\n') with
  | nil => exact .inl rfl
  | cons c behind =>
    have hhead : c ∈ (s.dropWhile (· != '\n')).head? := by
      rw [h]
      rfl
    obtain rfl : c = '\n' := by simpa using head?_dropWhile_eq_false hhead
    exact .inr ⟨behind, rfl⟩

private theorem getLast?_dropWhile {α : Type} {p : α → Bool} {xs : List α} {x : α}
    (h : x ∈ (xs.dropWhile p).getLast?) : x ∈ xs.getLast? := by
  obtain ⟨front, hf⟩ := List.dropWhile_suffix p (l := xs)
  have hx := Option.mem_def.mp h
  rw [← hf, Option.mem_def, List.getLast?_append, hx]
  rfl

/-- Trimming leaves a trimmed text. -/
theorem trimmed_trim (s : List Char) : Trimmed (trim s) := by
  refine ⟨fun c hc => ?_, fun c hc => ?_⟩
  · rw [trim, trimEnd, List.head?_reverse] at hc
    have hmem := getLast?_dropWhile hc
    rw [List.getLast?_reverse] at hmem
    exact head?_dropWhile_eq_false hmem
  · rw [trim, trimEnd, List.getLast?_reverse] at hc
    exact head?_dropWhile_eq_false hc

/-- A text that does not start with a blank has nothing to trim there. -/
theorem dropWhile_eq_self_of_head {α : Type} {p : α → Bool} {xs : List α}
    (h : ∀ x ∈ xs.head?, p x = false) : xs.dropWhile p = xs := by
  cases xs with
  | nil => rfl
  | cons x xs => rw [List.dropWhile_cons, if_neg (by simp [h x rfl])]

/-- Trimming leaves a trimmed text alone. -/
theorem Trimmed.trim_eq (h : Trimmed s) : trim s = s := by
  have hend : trimEnd s = s := by
    rw [trimEnd, dropWhile_eq_self_of_head fun c hc => h.stop c (by rwa [List.head?_reverse] at hc),
      List.reverse_reverse]
  rw [trim, trimStart, dropWhile_eq_self_of_head h.start, hend]

/-- A text is trimmed if trimming leaves it alone. -/
theorem trimmed_iff : Trimmed s ↔ trim s = s :=
  ⟨Trimmed.trim_eq, fun h => h ▸ trimmed_trim s⟩

@[simp] theorem trim_trim (s : List Char) : trim (trim s) = trim s := (trimmed_trim s).trim_eq

theorem trimmed_nil : Trimmed [] := ⟨by simp, by simp⟩

/-- A text is trimmed when it begins and ends with trimmed texts. -/
theorem Trimmed.append (hs : Trimmed s) (ht : Trimmed t) (hne : s ≠ []) (hnt : t ≠ [])
    (between : List Char) : Trimmed (s ++ between ++ t) := by
  obtain ⟨c, s, rfl⟩ := List.exists_cons_of_ne_nil hne
  have hlast : (c :: s ++ between ++ t).getLast? = t.getLast? := by
    rw [List.getLast?_append, List.getLast?_eq_some_getLast hnt]
    rfl
  exact ⟨hs.start, by rw [hlast]; exact ht.stop⟩

theorem Trimmed.of_forall (h : ∀ c ∈ s, isBlank c = false) : Trimmed s :=
  ⟨fun c hc => h c (List.mem_of_mem_head? hc), fun c hc => h c (List.mem_of_mem_getLast? hc)⟩

/-- Only blanks are trimmed from the end of a text. -/
theorem trimEnd_append (s : List Char) :
    ∃ blanks, trimEnd s ++ blanks = s ∧ ∀ c ∈ blanks, isBlank c = true := by
  refine ⟨(s.reverse.takeWhile isBlank).reverse, ?_, fun c hc => ?_⟩
  · rw [trimEnd, ← List.reverse_append, List.takeWhile_append_dropWhile, List.reverse_reverse]
  · exact List.mem_takeWhile_imp (List.mem_reverse.mp hc)

/-- What is left of a trimmed text stands in it. -/
theorem infix_trim (s : List Char) : trim s <:+: s := by
  obtain ⟨blanks, happend, -⟩ := trimEnd_append (trimStart s)
  have hfront : trim s <+: trimStart s := ⟨blanks, happend⟩
  exact hfront.isInfix.trans (List.dropWhile_suffix _).isInfix

/-- A text that starts with a trimmed text has nothing to trim there. -/
theorem Trimmed.trimStart_append (h : Trimmed s) (hne : s ≠ []) (t : List Char) :
    trimStart (s ++ t) = s ++ t := by
  obtain ⟨c, s, rfl⟩ := List.exists_cons_of_ne_nil hne
  exact dropWhile_eq_self_of_head h.start

/-- A trimmed text in front of another one is still there when the two are trimmed together. -/
theorem Trimmed.prefix_trim (h : Trimmed s) (hne : s ≠ []) (t : List Char) :
    s <+: trim (s ++ t) := by
  obtain ⟨blanks, happend, hblanks⟩ := trimEnd_append (s ++ t)
  rw [trim, h.trimStart_append hne]
  rcases List.append_eq_append_iff.mp happend with ⟨last, hs, hb⟩ | ⟨last, he, -⟩
  · -- What is cut off the first text is blank, and its last character is not.
    cases hlast : last.getLast? with
    | none =>
      have he : s = trimEnd (s ++ t) :=
        hs.trans (by rw [List.getLast?_eq_none_iff.mp hlast, List.append_nil])
      exact ⟨[], (List.append_nil s).trans he⟩
    | some c =>
      have hc : c ∈ s.getLast? := by
        rw [hs, List.getLast?_append, hlast]
        rfl
      have hmem : c ∈ blanks := hb ▸ List.mem_append_left _ (List.mem_of_getLast? hlast)
      exact absurd (hblanks c hmem) (by simp [h.stop c hc])
  · exact ⟨last, he.symm⟩

/-- Blanks at the end of a text are trimmed. -/
theorem trim_append_blanks (s : List Char) (ht : ∀ c ∈ t, isBlank c = true) :
    trim (s ++ t) = trim s := by
  have hend (x : List Char) : trimEnd (x ++ t) = trimEnd x := by
    rw [trimEnd, List.reverse_append,
      List.dropWhile_append_of_pos fun c hc => ht c (List.mem_reverse.mp hc), trimEnd]
  rw [trim, trimStart, List.dropWhile_append]
  split
  · next hs =>
    rw [trim, trimStart, List.isEmpty_iff.mp hs, List.dropWhile_eq_nil_iff.mpr ht]
  · rw [hend, trim, trimStart]

/-- Characters that no blank is among are all left by trimming. -/
theorem filter_trim {p : Char → Bool} (hp : ∀ c, isBlank c = true → p c = false)
    (s : List Char) : (trim s).filter p = s.filter p := by
  have hdrop (t : List Char) : (t.dropWhile isBlank).filter p = t.filter p := by
    induction t with
    | nil => rfl
    | cons c t ih =>
      rw [List.dropWhile_cons]
      split
      · next hc => rw [ih, List.filter_cons_of_neg (by simp [hp c hc])]
      · rfl
  rw [trim, trimEnd, trimStart, List.filter_reverse, hdrop, List.filter_reverse,
    List.reverse_reverse, hdrop]

/-- Trimming leaves nothing exactly if there are blanks only. -/
theorem trim_eq_nil_iff : trim s = [] ↔ ∀ c ∈ s, isBlank c = true := by
  refine ⟨fun h c hc => ?_, fun h => ?_⟩
  · by_contra hb
    have hf := filter_trim (p := (! isBlank ·)) (fun c hc => by simp [hc]) s
    rw [h, List.filter_nil] at hf
    have hm : c ∈ s.filter (! isBlank ·) := List.mem_filter.mpr ⟨hc, by simpa using hb⟩
    rw [← hf] at hm
    exact List.not_mem_nil hm
  · have hd : trimStart s = [] := List.dropWhile_eq_nil_iff.mpr h
    rw [trim, hd]
    rfl

end Lifeline.Text
