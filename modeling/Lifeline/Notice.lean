import Lifeline.Text.Quoted

/-!
# Notices

What was recovered from while reading. Notices never change a result; they are
only reported to those who ask for them.
-/

namespace Lifeline

/-- Why a directive counts as a plain comment. -/
inductive Degradation where
  /-- A metadata directive is not closed. -/
  | noTerminator
  /-- A metadata directive holds no object. -/
  | noObject
  /-- The object of a metadata directive is not well formed. -/
  | malformedObject
  /-- A flow directive names no flow. -/
  | noFlowId
  deriving DecidableEq, Repr

/-- Something in a source that has no effect. -/
inductive Notice where
  /-- A directive counts as a plain comment. -/
  | degraded (why : Degradation)
  /-- An annotation that needs a value has none. -/
  | valueless (name : String)
  /-- An annotation name without a meaning. -/
  | unknown (name : String)
  /-- A message without a target. -/
  | noTarget (source : String)
  /-- A participant is declared again. -/
  | repeatedParticipant (id : String)
  /-- A flow is declared again. -/
  | repeatedFlow (id : String)
  deriving DecidableEq, Repr

namespace Notice

/-- The part of the reader that gives the notice. -/
def channel : Notice → String
  | degraded _ => "seqflow.directives"
  | valueless _ | unknown _ => "seqflow.annotations"
  | noTarget _ | repeatedParticipant _ | repeatedFlow _ => "seqflow.parsers.sequence"

/-- The wording of a notice. -/
def message : Notice → String
  | degraded .noTerminator => "init directive without terminator, treating as comment"
  | degraded .noObject => "init directive without 'init:' object, treating as comment"
  | degraded .malformedObject => "init directive JSON did not parse, treating as comment"
  | degraded .noFlowId => "flow directive without id, treating as comment"
  | valueless name => "annotation @" ++ name ++ " has no value, ignoring"
  | unknown name => "unknown annotation @" ++ name ++ ", ignoring"
  | noTarget source => "message from " ++ Text.quoted source ++ " has no target, skipping"
  | repeatedParticipant id =>
    "participant " ++ Text.quoted id ++ " declared twice, keeping the first"
  | repeatedFlow id => "flow " ++ Text.quoted id ++ " declared twice, keeping the first"

/-- A notice as one line of a report. -/
def line (n : Notice) : String := n.channel ++ ": " ++ n.message ++ "\n"

end Notice

/-- Notices as a report, in the order given. -/
def report (notices : List Notice) : String := String.join (notices.map Notice.line)

end Lifeline
