import Lifeline.Command.Run

/-!
# The program

The command line on the operating system: files, standard input and output are
the real ones, and the exit code is that of the outcome.
-/

namespace Lifeline

open Command

/-- The fault that an error of the operating system stands for. -/
def faultOf (e : IO.Error) : FileFault :=
  match e with
  | .noFileOrDirectory _ code reason => ⟨code.toNat, reason⟩
  | .inappropriateType _ code reason => ⟨code.toNat, reason⟩
  | .permissionDenied _ code reason => ⟨code.toNat, reason⟩
  | .invalidArgument _ code reason => ⟨code.toNat, reason⟩
  | .resourceExhausted _ code reason => ⟨code.toNat, reason⟩
  | e => ⟨0, toString e⟩

/-- The operating system as the host of a run. -/
def systemHost : Host IO where
  stdin := do (← IO.getStdin).readBinToEnd
  has path := do
    try
      discard <| IO.FS.Handle.mk path .read
      return true
    catch _ => return false
  read path := do
    try return .ok (← IO.FS.readBinFile path)
    catch e => return .error (faultOf e)
  write path content := do
    try
      IO.FS.writeBinFile path content
      return .ok ()
    catch e => return .error (faultOf e)

/-- What is said about an ending beside the text of the outcome. -/
def remark : Ending → String
  | .usage e => diagnostic ("Error: " ++ e.message)
  | .undecodable => "error: the input is not valid UTF-8\n"
  | .unindentable => "error: the indentation is too large\n"
  | _ => ""

end Lifeline

/-- Runs the command line. -/
def main (arguments : List String) : IO UInt32 := do
  let outcome ← Lifeline.Command.run Lifeline.systemHost arguments
  IO.print outcome.stdout
  IO.eprint (outcome.stderr ++ Lifeline.remark outcome.ending)
  return outcome.ending.exitCode.toUInt32
