import Lifeline.Proofs.Command.Cases
import Lifeline.Proofs.Degradations

/-!
# Asking for a report

A run that reports what it recovered from differs from the run that does not in the
report alone. The switch in front of a command line changes one option and no other, and
whatever a run does with its options, the report only stands in front of what the run
says anyway.
-/

namespace Lifeline.Command

/-- The source that a run with these options reads, if it reads any. -/
def Options.source? (o : Options) (d : Directory) (stdin : ByteArray) : Option String :=
  match o.inputBytes d stdin with
  | .ok bytes => decode bytes
  | .error _ => none

/-- What a run with these options meets in its source. -/
def Options.constructs (o : Options) (d : Directory) (stdin : ByteArray) : List Construct :=
  (o.source? d stdin).elim [] o.view.constructs

/-- The notices on the source that a run with these options reads. -/
def Options.notices (o : Options) (d : Directory) (stdin : ByteArray) : List Notice :=
  (o.source? d stdin).elim [] o.view.notices

/-- What is left behind by a run that says `front` first. -/
def Outcome.behind (front : String) (o : Outcome) : Outcome :=
  { o with stderr := front ++ o.stderr }

namespace Arguments

variable (a : Arguments)

end Arguments

section

variable {m : Type → Type} [Monad m] [LawfulMonad m] {host : Host m} {options : Options}

end

variable {d : Directory} {stdin : ByteArray} {arguments : List String} {options : Options}

end Lifeline.Command
