import Lifeline.Message
import Lifeline.Text.Search

/-!
# Editing a source

A diagram is edited through its text: the line of a message is replaced, added
or removed, and every other line stays as it is. A line counts as a message line
by its own characters alone, so an edit needs no reading of the source and works
on a source that cannot be read.
-/

namespace Lifeline

open Text

/-- What a line that is a comment starts with. -/
def commentMarks : List (List Char) := [['%', '%'], ['/', '/']]

/-- What a line that is another statement starts with. -/
def statementWords : List (List Char) :=
  ["sequenceDiagram".toList, "participant".toList, "actor".toList, "Note".toList,
    "title".toList, "description".toList]

/-- The line starts with one of the marks. -/
def startsWithAny (marks : List (List Char)) (line : Line) : Bool :=
  marks.any (·.isPrefixOf line)

/-- The line holds a message: it is neither a comment nor another statement and has an arrow in
it. Every arrow ends in a dash and a point. -/
def isMessageLine (line : Line) : Bool :=
  !startsWithAny commentMarks line && !startsWithAny statementWords line &&
    occurs ['-', '>'] line

/-- The line, apart from blanks at its ends, holds a message. -/
def holdsMessage (line : Line) : Bool := isMessageLine (trim line)

/-- The line, apart from blanks at its ends, declares a participant. -/
def holdsDeclaration (line : Line) : Bool :=
  startsWithAny ["participant".toList, "actor".toList] (trim line)

/-- The line is the header of a diagram. -/
def isHeader (line : Line) : Bool := trim line == "sequenceDiagram".toList

/-- A line among lines. -/
structure Place where
  before : List Line
  line : Line
  behind : List Line
  deriving DecidableEq, Repr

namespace Place

/-- The same line with one more line at the front. -/
def push (l : Line) (p : Place) : Place := { p with before := l :: p.before }

/-- All lines. -/
def all (p : Place) : List Line := p.before ++ p.line :: p.behind

/-- The `k`-th line of a kind, counted from zero. -/
def nth? (kind : Line → Bool) : Nat → List Line → Option Place
  | _, [] => none
  | k, l :: ls =>
    if kind l then
      match k with
      | 0 => some ⟨[], l, ls⟩
      | k + 1 => (nth? kind k ls).map (push l)
    else (nth? kind k ls).map (push l)

/-- The `index`-th line of a kind, if the index is not negative. -/
def at? (kind : Line → Bool) (index : Int) (ls : List Line) : Option Place :=
  if 0 ≤ index then nth? kind index.toNat ls else none

/-- The last line of a kind. -/
def last? (kind : Line → Bool) : List Line → Option Place
  | [] => none
  | l :: ls =>
    match last? kind ls with
    | some p => some (p.push l)
    | none => if kind l then some ⟨[], l, ls⟩ else none

/-- Finding a line neither moves nor changes a line. -/
theorem all_of_nth? {kind : Line → Bool} {k : Nat} {ls : List Line} {p : Place}
    (h : nth? kind k ls = some p) : p.all = ls := by
  induction ls generalizing k p with
  | nil => simp [nth?] at h
  | cons l ls ih =>
    have hpush {j : Nat} (hj : (nth? kind j ls).map (push l) = some p) : p.all = l :: ls := by
      obtain ⟨q, hq, rfl⟩ := Option.map_eq_some_iff.mp hj
      exact congrArg (l :: ·) (ih hq)
    cases k with
    | zero =>
      rw [nth?] at h
      split at h
      · cases h
        rfl
      · exact hpush h
    | succ k =>
      rw [nth?] at h
      split at h <;> exact hpush h

end Place

/-- A change of the messages of a source. -/
inductive Edit where
  /-- Replaces a message. -/
  | update (index : Int) (m : Message)
  /-- Adds a message in front of another one, or behind the last one. -/
  | insert (index : Int) (m : Message)
  /-- Removes a message. -/
  | delete (index : Int)
  deriving DecidableEq, Repr

namespace Edit

/-- The indentation of a line that has no neighbour to follow. -/
def defaultIndentation : List Char := [' ', ' ', ' ', ' ']

/-- Where a message is added: the lines before it, its indentation, and the lines behind it. A
message without a message to follow stands behind the last declaration of a participant, or else
behind the header, or else at the end. -/
def insertion (index : Int) (ls : List Line) : List Line × List Char × List Line :=
  match Place.at? holdsMessage index ls with
  | some p => (p.before, indentation p.line, p.line :: p.behind)
  | none =>
    match (Place.last? holdsMessage ls).or (Place.last? holdsDeclaration ls) with
    | some p => (p.before ++ [p.line], indentation p.line, p.behind)
    | none =>
      match Place.nth? isHeader 0 ls with
      | some p => (p.before ++ [p.line], defaultIndentation, p.behind)
      | none => (ls, defaultIndentation, [])

/-- The lines of a source after an edit. -/
def applyLines (e : Edit) (ls : List Line) : List Line :=
  match e with
  | update index m =>
    match Place.at? holdsMessage index ls with
    | some p => p.before ++ (indentation p.line ++ m.lineChars) :: p.behind
    | none => ls
  | insert index m =>
    let (before, indent, behind) := insertion index ls
    before ++ (indent ++ m.lineChars) :: behind
  | delete index =>
    match Place.at? holdsMessage index ls with
    | some p => p.before ++ p.behind
    | none => ls

/-- A source text after an edit. -/
def apply (e : Edit) (source : String) : String :=
  String.ofList (unlines (e.applyLines (lines source.toList)))

end Edit

end Lifeline
