import Lifeline.Proofs.Text.Continuation

/-!
# Texts with carriage returns

A line end may be written with a carriage return in front of it. No mark and no word
reaches over a line end, so what is searched for is found at the same place, and the
parts that are found have their own line ends written so.
-/

namespace Lifeline.Text

/-- The text with a carriage return in front of every line end. -/
def withReturns (s : List Char) : List Char :=
  s.flatMap fun c => if c = '\n' then ['\r', '\n'] else [c]

variable {s t mark : List Char} {c : Char}

@[simp] theorem withReturns_nil : withReturns [] = [] := rfl

theorem withReturns_newline (s : List Char) :
    withReturns ('\n' :: s) = '\r' :: '\n' :: withReturns s := rfl

/-- Any other character stays as it is. -/
theorem withReturns_cons (hc : c ≠ '\n') (s : List Char) :
    withReturns (c :: s) = c :: withReturns s := by
  rw [withReturns, List.flatMap_cons, if_neg hc]
  rfl

theorem withReturns_append (s t : List Char) :
    withReturns (s ++ t) = withReturns s ++ withReturns t := List.flatMap_append

/-- A text without line ends stays as it is. -/
theorem withReturns_of_not_mem (h : '\n' ∉ s) : withReturns s = s := by
  induction s with
  | nil => rfl
  | cons c s ih =>
    rw [List.mem_cons, not_or] at h
    rw [withReturns_cons (Ne.symm h.1), ih h.2]

/-- A run in which line ends cannot stand is the same. -/
theorem takeWhile_withReturns {p : Char → Bool} (hn : p '\n' = false) (hr : p '\r' = false)
    (s : List Char) : (withReturns s).takeWhile p = s.takeWhile p := by
  induction s with
  | nil => rfl
  | cons c s ih =>
    by_cases hc : c = '\n'
    · subst hc
      rw [withReturns_newline, List.takeWhile_cons_of_neg (by simp [hr]),
        List.takeWhile_cons_of_neg (by simp [hn])]
    · rw [withReturns_cons hc, List.takeWhile_cons, List.takeWhile_cons, ih]

/-- So is what follows it, but for its line ends. -/
theorem dropWhile_withReturns {p : Char → Bool} (hn : p '\n' = false) (hr : p '\r' = false)
    (s : List Char) : (withReturns s).dropWhile p = withReturns (s.dropWhile p) := by
  induction s with
  | nil => rfl
  | cons c s ih =>
    by_cases hc : c = '\n'
    · subst hc
      rw [withReturns_newline, List.dropWhile_cons_of_neg (by simp [hr]),
        List.dropWhile_cons_of_neg (by simp [hn]), withReturns_newline]
    · rw [withReturns_cons hc, List.dropWhile_cons, List.dropWhile_cons]
      split
      · exact ih
      · rw [withReturns_cons hc]

/-- A mark without breaks stands at the front of the text if it did before. -/
theorem isPrefixOf_withReturns (hm : ∀ c ∈ mark, isBreak c = false) (s : List Char) :
    mark.isPrefixOf (withReturns s) = mark.isPrefixOf s := by
  induction mark generalizing s with
  | nil => simp
  | cons m mark ih =>
    obtain ⟨hfirst, hmark⟩ := List.forall_mem_cons.mp hm
    cases s with
    | nil => rfl
    | cons c s =>
      by_cases hc : c = '\n'
      · subst hc
        have hr : (m == '\r') = false := beq_eq_false_iff_ne.mpr (by rintro rfl; cases hfirst)
        have hn : (m == '\n') = false := beq_eq_false_iff_ne.mpr (by rintro rfl; cases hfirst)
        rw [withReturns_newline, List.isPrefixOf_cons_cons, List.isPrefixOf_cons_cons, hr, hn,
          Bool.false_and, Bool.false_and]
      · rw [withReturns_cons hc, List.isPrefixOf_cons_cons, List.isPrefixOf_cons_cons, ih hmark]

/-- Such a mark has no line ends. -/
theorem withReturns_mark (hm : ∀ c ∈ mark, isBreak c = false) : withReturns mark = mark :=
  withReturns_of_not_mem fun hn => absurd (hm _ hn) (by decide)

/-- Taking such a mark off the front leaves what it left before. -/
theorem after?_withReturns (hm : ∀ c ∈ mark, isBreak c = false) (s : List Char) :
    after? mark (withReturns s) = (after? mark s).map withReturns := by
  rw [after?, after?, isPrefixOf_withReturns hm]
  split
  · next hp =>
    obtain ⟨rest, rfl⟩ := List.isPrefixOf_iff_prefix.mp hp
    rw [withReturns_append, withReturns_mark hm, List.drop_left, List.drop_left]
    rfl
  · rfl

/-- A text is cut at the same mark. -/
theorem cut_withReturns (hm : ∀ c ∈ mark, isBreak c = false) (hne : mark ≠ []) (s : List Char) :
    cut mark (withReturns s) = (cut mark s).map (Prod.map withReturns withReturns) := by
  -- The mark starts at neither character of a line end.
  have hbreak {d : Char} (hd : isBreak d = true) (u : List Char) :
      ¬mark.isPrefixOf (d :: u) = true := by
    obtain ⟨m, mark, rfl⟩ := List.exists_cons_of_ne_nil hne
    rw [List.isPrefixOf_cons_cons, Bool.and_eq_true, beq_iff_eq]
    rintro ⟨rfl, -⟩
    exact absurd (hm _ List.mem_cons_self) (by simp [hd])
  induction s with
  | nil =>
    rw [withReturns_nil, cut]
    split <;> rfl
  | cons c s ih =>
    by_cases hc : c = '\n'
    · subst hc
      rw [withReturns_newline, cut, if_neg (hbreak rfl _), cut, if_neg (hbreak rfl _), ih, cut,
        if_neg (hbreak rfl _), Option.map_map, Option.map_map, Option.map_map]
      rfl
    · have hp := isPrefixOf_withReturns hm (c :: s)
      have hdrop := after?_withReturns hm (c :: s)
      rw [after?, after?] at hdrop
      rw [withReturns_cons hc] at hp hdrop ⊢
      rw [cut, cut, ih]
      rw [hp] at hdrop ⊢
      split
      · next hfront =>
        rw [if_pos hfront, if_pos hfront] at hdrop
        rw [Option.some.inj hdrop]
        rfl
      · have hcons (x : List Char) : withReturns (c :: x) = c :: withReturns x :=
          withReturns_cons hc x
        rw [Option.map_map, Option.map_map]
        refine congrArg (Option.map · _) (funext fun p => ?_)
        exact Prod.ext (hcons p.1).symm rfl

end Lifeline.Text

namespace Lifeline.Bracket

open Text

/-- A value is closed by the same bracket. -/
theorem split_withReturns (b : Bracket) (depth : Nat) (s : List Char) :
    b.split depth (withReturns s) =
      (b.split depth s).map (Prod.map withReturns withReturns) := by
  induction s generalizing depth with
  | nil => rfl
  | cons c s ih =>
    have hstep (d : Nat) (hc : c ≠ '\n') : (b.split d (withReturns s)).map (extend c) =
        ((b.split d s).map (extend c)).map (Prod.map withReturns withReturns) := by
      rw [ih, Option.map_map, Option.map_map]
      refine congrArg (Option.map · _) (funext fun p => ?_)
      exact Prod.ext (withReturns_cons hc p.1).symm rfl
    by_cases hc : c = '\n'
    · -- No bracket is a break, so both characters of the line end go into the value.
      subst hc
      have hskip {d : Char} (hd : isBreak d = true) (u : List Char) :
          b.split depth (d :: u) = (b.split depth u).map (extend d) := by
        have ho : d ≠ b.opener := by rintro rfl; cases b <;> cases hd
        have hcl : d ≠ b.closer := by rintro rfl; cases b <;> cases hd
        cases depth <;> rw [split, if_neg ho, if_neg hcl]
      rw [withReturns_newline, hskip rfl, hskip rfl, hskip rfl, ih, Option.map_map, Option.map_map,
        Option.map_map]
      rfl
    · rw [withReturns_cons hc]
      cases depth with
      | zero =>
        rw [split, split]
        split
        · exact hstep _ hc
        · split
          · rfl
          · exact hstep _ hc
      | succ depth =>
        rw [split, split]
        split
        · exact hstep _ hc
        · split <;> exact hstep _ hc

end Lifeline.Bracket
