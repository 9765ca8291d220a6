import Lifeline.Proofs.Scan.Continuation
import Lifeline.Proofs.Text.Lines

/-!
# Line numbers of lexemes

Each lexeme stands on one line, counted from zero: the line of its first
character. The numbers never go down, and the lexemes of a source with a closed
first line are those of this line and then those of the lines behind it.
-/

namespace Lifeline.Source

open Text

/-- The number of characters of pieces. -/
def width (ps : List Piece) : Nat := (ps.flatMap Piece.text).length

theorem width_pieces (s : List Char) : width (pieces s) = s.length := by
  rw [width, flatMap_text_pieces]

theorem width_cons (p : Piece) (ps : List Piece) : width (p :: ps) = p.text.length + width ps := by
  rw [width, List.flatMap_cons, List.length_append]
  rfl

theorem width_append (ps qs : List Piece) : width (ps ++ qs) = width ps + width qs := by
  rw [width, List.flatMap_append, List.length_append]
  rfl

/-- Pieces behind others are located behind them. -/
theorem locate_append (start : Nat) (ps qs : List Piece) :
    locate start (ps ++ qs) = locate start ps ++ locate (start + width ps) qs := by
  induction ps generalizing start with
  | nil => rfl
  | cons p ps ih =>
    rw [width_cons, ← Nat.add_assoc]
    cases p with
    | gap c =>
      rw [List.cons_append, locate, locate, ih]
      rfl
    | lexeme l =>
      rw [List.cons_append, locate, locate, ih]
      rfl

/-- More characters in front move every lexeme by their number. -/
theorem locate_add (k start : Nat) (ps : List Piece) :
    locate (k + start) ps = (locate start ps).map fun p => (k + p.1, p.2) := by
  induction ps generalizing start with
  | nil => rfl
  | cons p ps ih =>
    cases p with
    | gap c => rw [locate, locate, Nat.add_assoc, ih]
    | lexeme l => rw [locate, locate, Nat.add_assoc, ih, List.map_cons]

/-- No lexeme starts behind the last character. -/
theorem le_of_mem_locate {start : Nat} {ps : List Piece} {p : Nat × Lexeme}
    (h : p ∈ locate start ps) : start ≤ p.1 ∧ p.1 ≤ start + width ps := by
  induction ps generalizing start with
  | nil => cases h
  | cons q ps ih =>
    rw [width_cons]
    cases q with
    | gap c =>
      have := ih h
      simp only [Piece.text, List.length_singleton]
      omega
    | lexeme l =>
      rcases List.mem_cons.mp h with rfl | h
      · simp only
        omega
      · have := ih h
        simp only [Piece.text]
        omega

/-- Lexemes are located one behind the other. -/
theorem pairwise_locate (start : Nat) (ps : List Piece) :
    (locate start ps).Pairwise fun p q => p.1 + p.2.text.length ≤ q.1 := by
  induction ps generalizing start with
  | nil => exact List.Pairwise.nil
  | cons p ps ih =>
    cases p with
    | gap c => exact ih _
    | lexeme l => exact List.pairwise_cons.mpr ⟨fun q hq => (le_of_mem_locate hq).1, ih _⟩

/-- Behind a closed line stands its end, and then the lexemes of the source behind it. -/
theorem locate_append_newline {a : List Char} (hc : Closed a) (b : List Char) :
    locate 0 (pieces (a ++ '\n' :: b)) =
      locate 0 (pieces a) ++ (a.length, .newline) ::
        (locate 0 (pieces b)).map fun p => (a.length + 1 + p.1, p.2) := by
  rw [pieces_append_newline hc, locate_append, width_pieces, Nat.zero_add, locate, ← locate_add]
  rfl

/-- The number of lines that end before the `offset`-th character. -/
def lineNumber (s : List Char) (offset : Nat) : Nat := (s.take offset).count '\n'

/-- The line numbers of the lexemes of a source. -/
def lineNumbers (s : List Char) : List Nat :=
  (locate 0 (pieces s)).map fun p => lineNumber s p.1

theorem length_lineNumbers (s : List Char) : (lineNumbers s).length = (lexemes s).length := by
  rw [lineNumbers, List.length_map, ← List.length_map (f := Prod.snd), map_snd_locate, lexemes]

/-- Line numbers never go down. -/
theorem pairwise_lineNumbers (s : List Char) : (lineNumbers s).Pairwise (· ≤ ·) := by
  refine List.pairwise_map.mpr ((pairwise_locate 0 (pieces s)).imp fun {p q} h => ?_)
  exact (List.take_sublist_take_left (Nat.le_of_add_right_le h)).count_le _

/-- There is one more line than there are line ends. -/
theorem length_lines (s : List Char) : (lines s).length = s.count '\n' + 1 := by
  rw [lines]
  induction s with
  | nil => rfl
  | cons c s ih =>
    rw [divide]
    split
    · next hc => rw [List.length_cons, ih, hc, List.count_cons_self]
    · next hc =>
      obtain ⟨part, parts, hd⟩ := List.exists_cons_of_ne_nil (divide_ne_nil '\n' s)
      rw [hd] at ih ⊢
      rw [List.count_cons_of_ne hc]
      exact ih

/-- Every lexeme stands on a line of the source. -/
theorem lt_of_mem_lineNumbers {s : List Char} {n : Nat} (h : n ∈ lineNumbers s) :
    n < (lines s).length := by
  obtain ⟨p, -, rfl⟩ := List.mem_map.mp h
  rw [length_lines]
  exact Nat.lt_succ_of_le ((List.take_sublist p.1 s).count_le _)

/-- The lexemes behind a closed line stand one line further down than by themselves. -/
theorem lineNumbers_append_newline {a : List Char} (hc : Closed a) (ha : '\n' ∉ a)
    (b : List Char) :
    lineNumbers (a ++ '\n' :: b) = lineNumbers a ++ 0 :: (lineNumbers b).map (· + 1) := by
  have hzero : a.count '\n' = 0 := List.count_eq_zero.mpr ha
  have hfront : ∀ p ∈ locate 0 (pieces a),
      lineNumber (a ++ '\n' :: b) p.1 = lineNumber a p.1 := by
    intro p hp
    have hle := (le_of_mem_locate hp).2
    rw [width_pieces, Nat.zero_add] at hle
    rw [lineNumber, List.take_append_of_le_length hle, lineNumber]
  have hbehind (offset : Nat) :
      lineNumber (a ++ '\n' :: b) (a.length + 1 + offset) = lineNumber b offset + 1 := by
    have htake : (a ++ '\n' :: b).take (a.length + 1 + offset) = a ++ '\n' :: b.take offset := by
      rw [Nat.add_assoc, List.take_length_add_append, Nat.add_comm 1, List.take_succ_cons]
    rw [lineNumber, htake, List.count_append, hzero, List.count_cons_self, Nat.zero_add, lineNumber]
  have hseam : lineNumber (a ++ '\n' :: b) a.length = 0 := by
    rw [lineNumber, List.take_left, hzero]
  rw [lineNumbers, locate_append_newline hc, List.map_append, List.map_congr_left hfront,
    List.map_cons, List.map_map, hseam, lineNumbers, lineNumbers, List.map_map]
  congr 2
  exact List.map_congr_left fun p _ => hbehind p.1

end Lifeline.Source
