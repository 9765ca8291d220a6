import Lifeline.Statement

/-!
# Scripts

Tokens are read as statements from left to right, one reading after the other.
The first fault ends the script; the statements before it still stand, and they
still give their notices.
-/

namespace Lifeline

/-- A participant keyword that no name follows, with the tokens behind it. -/
structure MissingName where
  keyword : String
  behind : List Token
  deriving DecidableEq, Repr

/-- The statements of a source, up to the first fault. -/
structure Script where
  statements : List Statement
  fault : Option MissingName
  deriving DecidableEq, Repr

namespace Script

/-- The script with one more statement in front. -/
def prepend (s : Statement) (p : Script) : Script := ⟨s :: p.statements, p.fault⟩

/-- Reads tokens as statements. -/
def ofTokens : List Token → Script
  | [] => ⟨[], none⟩
  | t :: ts =>
    match _h : Statement.next t ts with
    | .statement s rest => (ofTokens rest).prepend s
    | .skip rest => ofTokens rest
    | .missingName keyword => ⟨[], some ⟨keyword, ts⟩⟩
termination_by ts => ts.length
decreasing_by
  · have := Statement.length_rest_next_le t ts
    rw [_h] at this
    exact Nat.lt_succ_of_le this
  · have := Statement.length_rest_next_le t ts
    rw [_h] at this
    exact Nat.lt_succ_of_le this

@[simp] theorem ofTokens_nil : ofTokens [] = ⟨[], none⟩ := by
  rw [ofTokens]

/-- One reading at the front of the tokens. -/
theorem ofTokens_cons (t : Token) (ts : List Token) :
    ofTokens (t :: ts) =
      match Statement.next t ts with
      | .statement s rest => (ofTokens rest).prepend s
      | .skip rest => ofTokens rest
      | .missingName keyword => ⟨[], some ⟨keyword, ts⟩⟩ := by
  rw [ofTokens]
  split <;> simp_all

/-- The notices that a statement gives when it comes after `earlier` ones. -/
def noticesOf (earlier : List Statement) : Statement → List Notice
  | .participant id _ =>
    if earlier.any (·.declares id) then [.repeatedParticipant id] else []
  | .message _ _ _ _ tags => tags.flatMap Tag.notices
  | .dangling source => [.noTarget source]
  | .flow entry => if earlier.any (·.declaresFlow entry.id) then [.repeatedFlow entry.id] else []
  | _ => []

/-- The notices that statements give after `earlier` ones, which are listed last first. -/
def noticesFrom (earlier : List Statement) : List Statement → List Notice
  | [] => []
  | s :: ss => noticesOf earlier s ++ noticesFrom (s :: earlier) ss

/-- The notices that the statements of a script give. -/
def notices (p : Script) : List Notice := noticesFrom [] p.statements

end Script

end Lifeline
