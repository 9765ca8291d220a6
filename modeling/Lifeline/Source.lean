import Lifeline.Lexeme.Scan

/-!
# Sources

A source is cut into lexemes and, between them, single characters that are
skipped. The pieces put together are the source, so every lexeme has a definite
place in it, and tokens and spans come from the same cuts.
-/

namespace Lifeline

/-- A piece of a source: a character that is skipped, or a lexeme. -/
inductive Piece where
  | gap (c : Char)
  | lexeme (l : Lexeme)
  deriving DecidableEq, Repr

namespace Piece

/-- The characters of a piece. -/
def text : Piece → List Char
  | gap c => [c]
  | lexeme l => l.text

/-- The lexeme that a piece is. -/
def lexeme? : Piece → Option Lexeme
  | gap _ => none
  | lexeme l => some l

end Piece

/-- Where in a source a token stands. -/
structure Span where
  kind : Token.Kind
  text : String
  /-- The number of characters before the token. -/
  start : Nat
  /-- The number of characters up to the end of the token. -/
  stop : Nat
  deriving DecidableEq, Repr

namespace Source

/-- Cuts a source: at each place the lexeme that starts there, or else one character. -/
def pieces : List Char → List Piece
  | [] => []
  | c :: s =>
    match _h : Lexeme.scan (c :: s) with
    | some (l, rest) => .lexeme l :: pieces rest
    | none => .gap c :: pieces s
termination_by s => s.length
decreasing_by
  · exact Lexeme.length_lt_of_scan _h
  · simp

/-- Where a lexeme starts, it is the first piece. -/
theorem pieces_of_scan {s rest : List Char} {l : Lexeme} (h : Lexeme.scan s = some (l, rest)) :
    pieces s = .lexeme l :: pieces rest := by
  cases s with
  | nil => simp [Lexeme.scan] at h
  | cons c s =>
    rw [pieces]
    split <;> simp_all

/-- Where no lexeme starts, one character is skipped. -/
theorem pieces_of_scan_none {c : Char} {s : List Char} (h : Lexeme.scan (c :: s) = none) :
    pieces (c :: s) = .gap c :: pieces s := by
  rw [pieces]
  split <;> simp_all

/-- The pieces of a source, put together, are the source. -/
theorem flatMap_text_pieces (s : List Char) : (pieces s).flatMap Piece.text = s := by
  induction hn : s.length using Nat.strongRecOn generalizing s with
  | ind n ih =>
    cases hs : Lexeme.scan s with
    | some found =>
      obtain ⟨l, rest⟩ := found
      have hr := ih _ (hn ▸ Lexeme.length_lt_of_scan hs) rest rfl
      rw [pieces_of_scan hs, List.flatMap_cons, hr]
      exact Lexeme.scan_append hs
    | none =>
      cases s with
      | nil => rw [pieces]; rfl
      | cons c s =>
        have hr := ih _ (by simp [← hn]) s rfl
        rw [pieces_of_scan_none hs, List.flatMap_cons, hr]
        rfl

/-- The lexemes among pieces, each with the number of characters before it; `start` characters
stand before the first piece. -/
def locate (start : Nat) : List Piece → List (Nat × Lexeme)
  | [] => []
  | .gap _ :: ps => locate (start + 1) ps
  | .lexeme l :: ps => (start, l) :: locate (start + l.text.length) ps

/-- The lexemes of a source. -/
def lexemes (s : List Char) : List Lexeme := (pieces s).filterMap Piece.lexeme?

/-- Locating neither loses nor adds a lexeme. -/
theorem map_snd_locate (start : Nat) (ps : List Piece) :
    (locate start ps).map Prod.snd = ps.filterMap Piece.lexeme? := by
  induction ps generalizing start with
  | nil => rfl
  | cons p ps ih =>
    cases p with
    | gap c => rw [locate, ih, List.filterMap_cons_none rfl]
    | lexeme l => rw [locate, List.map_cons, ih]; rfl

/-- The span of a lexeme with `start` characters before it. -/
def spanOf (start : Nat) (l : Lexeme) : Except Failure Span := do
  let t ← l.token
  return ⟨t.kind, String.ofList l.text, start, start + l.text.length⟩

/-- The tokens of a source. -/
def tokens (s : List Char) : Except Failure (List Token) := (lexemes s).mapM Lexeme.token

/-- The spans of the tokens of a source. -/
def spans (s : List Char) : Except Failure (List Span) :=
  (locate 0 (pieces s)).mapM fun (start, l) => spanOf start l

/-- The notices that come up while lexemes are made tokens, up to a failure. -/
def noticesOf : List Lexeme → List Notice
  | [] => []
  | l :: ls =>
    match l.token with
    | .ok _ => l.notices ++ noticesOf ls
    | .error _ => []

/-- The notices that cutting a source into tokens gives. -/
def notices (s : List Char) : List Notice := noticesOf (lexemes s)

end Source

/-- The tokens of a source text. -/
def tokenize (source : String) : Except Failure (List Token) := Source.tokens source.toList

/-- The spans of the tokens of a source text. -/
def tokenSpans (source : String) : Except Failure (List Span) := Source.spans source.toList

end Lifeline
