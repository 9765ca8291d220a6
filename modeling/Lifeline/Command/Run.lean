import Lifeline.Command.Directory
import Lifeline.Command.Options
import Lifeline.Text.ControlSequence

/-!
# Running a command line

A run reads one source, shows one view of it, and puts the result in one place.
Nothing is written before the whole result is there, so a run that fails leaves
standard output and every file as they were.
-/

namespace Lifeline.Command

/-- How a run ends. -/
inductive Ending where
  | success
  /-- The source, or a file, stands in the way. -/
  | failure
  /-- The command line is refused. -/
  | usage (e : UsageError)
  /-- The input is not valid UTF-8. -/
  | undecodable
  /-- The result cannot be indented as far as it should. -/
  | unindentable
  deriving DecidableEq, Repr

/-- The exit code of an ending. -/
def Ending.exitCode : Ending → Nat
  | success => 0
  | failure | undecodable | unindentable => 1
  | usage _ => 2

/-- The run ends with an exception that nothing catches. -/
def Ending.isUncaught : Ending → Bool
  | undecodable | unindentable => true
  | success | failure | usage _ => false

/-- What a run leaves behind, files apart. -/
structure Outcome where
  ending : Ending
  stdout : String := ""
  stderr : String := ""
  deriving DecidableEq, Repr

/-- The text of an input: valid UTF-8, with every line end written as LF. -/
def decode (bytes : ByteArray) : Option String :=
  (String.fromUTF8? bytes).map fun s => String.ofList (Text.normalizeLineEnds s.toList)

/-- What is said about the fault that ends a run. The name of a file may hold control sequences,
which are left out. -/
def diagnostic (text : String) : String :=
  String.ofList (Text.withoutControls text.toList) ++ "\n"

/-- The report of a file that cannot be used. -/
def fileReport (action path : String) (f : FileFault) : String :=
  diagnostic ("error: cannot " ++ action ++ " '" ++ path ++ "': " ++ f.text path)

/-- What a run writes to standard error about a source, apart from a fault. -/
def Options.log (o : Options) (source : String) : String :=
  if o.verbose then report (o.view.notices source) else ""

section

variable {m : Type → Type} [Monad m]

/-- Puts a rendering where the options ask for it; `log` goes to standard error. -/
def deliver (host : Host m) (options : Options) (log rendering : String) : m Outcome :=
  match options.output with
  | none => return ⟨.success, rendering, log⟩
  | some path => do
    match ← host.write path rendering.toUTF8 with
    | .ok () => return ⟨.success, "", log⟩
    | .error f => return ⟨.failure, "", log ++ fileReport "write" path f⟩

/-- Shows an input. -/
def process (host : Host m) (options : Options) (bytes : ByteArray) : m Outcome :=
  match decode bytes with
  | none => return ⟨.undecodable, "", ""⟩
  | some source =>
    let log := options.log source
    match options.view.render options.indent source with
    | .error (.source f) => return ⟨.failure, "", log ++ diagnostic ("parse error:\n" ++ f.message)⟩
    | .error .indent => return ⟨.unindentable, "", log⟩
    | .ok rendering => deliver host options log rendering

/-- Runs with options. -/
def perform (host : Host m) (options : Options) : m Outcome :=
  match options.input with
  | none => do process host options (← host.stdin)
  | some path => do
    if ← host.has path then
      match ← host.read path with
      | .ok bytes => process host options bytes
      | .error f => return ⟨.failure, "", fileReport "read" path f⟩
    else return ⟨.usage (.missingInput path), "", ""⟩

/-- Runs a command line. -/
def run (host : Host m) (arguments : List String) : m Outcome :=
  match Options.read arguments with
  | .ok options => perform host options
  | .error e => return ⟨.usage e, "", ""⟩

end

/-- Runs a command line in a directory, and gives the directory that it leaves. -/
def runIn (d : Directory) (stdin : ByteArray) (arguments : List String) : Outcome × Directory :=
  (run (Directory.host stdin) arguments).run d

end Lifeline.Command
