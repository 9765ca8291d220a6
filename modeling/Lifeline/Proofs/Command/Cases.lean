import Lifeline.Command.Run
import Lifeline.Proofs.Command.Files

/-!
# How a run can go

A run in a directory goes one of nine ways. Each way says what was found in the
arguments, in the input and in the directory, what the run leaves on standard output
and standard error, and which directory it leaves. What holds of every run is read off
the nine ways, without a look at the program.
-/

namespace Lifeline.Command

/-- The bytes that a run with these options reads. -/
def Options.inputBytes (o : Options) (d : Directory) (stdin : ByteArray) :
    Except FileFault ByteArray :=
  match o.input with
  | none => .ok stdin
  | some path => d.read path

/-- The arguments ask for these options, and the input of the run holds these bytes. -/
structure ReadsBytes (d : Directory) (stdin : ByteArray) (arguments : List String)
    (options : Options) (bytes : ByteArray) : Prop where
  asked : Options.read arguments = .ok options
  held : options.inputBytes d stdin = .ok bytes

/-- The arguments ask for these options, and the input of the run is this source. -/
def ReadsSource (d : Directory) (stdin : ByteArray) (arguments : List String) (options : Options)
    (source : String) : Prop :=
  ∃ bytes, ReadsBytes d stdin arguments options bytes ∧ decode bytes = some source

section

variable (d : Directory) (stdin : ByteArray) (arguments : List String)

/-- The ways in which a run can go. -/
inductive Runs : Outcome × Directory → Prop
  | refused {e : UsageError} (h : Options.read arguments = .error e) : Runs (⟨.usage e, "", ""⟩, d)
  | missing {options : Options} {path : String} (h : Options.read arguments = .ok options)
      (hinput : options.input = some path) (hhas : d.has path = false) :
      Runs (⟨.usage (.missingInput path), "", ""⟩, d)
  | unreadable {options : Options} {path : String} {f : FileFault}
      (h : Options.read arguments = .ok options) (hinput : options.input = some path)
      (hread : d.read path = .error f) :
      Runs (⟨.failure, "", fileReport "read" path f⟩, d)
  | undecodable {options : Options} {bytes : ByteArray}
      (h : ReadsBytes d stdin arguments options bytes) (hdecode : decode bytes = none) :
      Runs (⟨.undecodable, "", ""⟩, d)
  | refusedSource {options : Options} {source : String} {f : Failure}
      (h : ReadsSource d stdin arguments options source)
      (hrender : options.view.render options.indent source = .error (.source f)) :
      Runs (⟨.failure, "", options.log source ++ diagnostic ("parse error:\n" ++ f.message)⟩, d)
  | unindentable {options : Options} {source : String}
      (h : ReadsSource d stdin arguments options source)
      (hrender : options.view.render options.indent source = .error .indent) :
      Runs (⟨.unindentable, "", options.log source⟩, d)
  | unwritable {options : Options} {source rendering path : String} {f : FileFault}
      (h : ReadsSource d stdin arguments options source)
      (hrender : options.view.render options.indent source = .ok rendering)
      (houtput : options.output = some path) (hwrite : d.write path rendering.toUTF8 = .error f) :
      Runs (⟨.failure, "", options.log source ++ fileReport "write" path f⟩, d)
  | printed {options : Options} {source rendering : String}
      (h : ReadsSource d stdin arguments options source)
      (hrender : options.view.render options.indent source = .ok rendering)
      (houtput : options.output = none) :
      Runs (⟨.success, rendering, options.log source⟩, d)
  | written {options : Options} {source rendering path : String} {after : Directory}
      (h : ReadsSource d stdin arguments options source)
      (hrender : options.view.render options.indent source = .ok rendering)
      (houtput : options.output = some path) (hwrite : d.write path rendering.toUTF8 = .ok after) :
      Runs (⟨.success, "", options.log source⟩, after)

variable {d stdin arguments}

section

variable {α : Type}

/-- A directory tells whether something is there, and stays. -/
theorem Directory.run_has (path : String) (next : Bool → StateM Directory α) :
    ((host stdin).has path >>= next).run d = (next (d.has path)).run d := rfl

/-- A directory gives the content of a file, and stays. -/
theorem Directory.run_read (path : String)
    (next : Except FileFault ByteArray → StateM Directory α) :
    ((host stdin).read path >>= next).run d = (next (d.read path)).run d := rfl

/-- A directory is written, or it stays. -/
theorem Directory.run_write (path : String) (content : ByteArray)
    (next : Except FileFault Unit → StateM Directory α) :
    ((host stdin).write path content >>= next).run d =
      match d.write path content with
      | .ok after => (next (.ok ())).run after
      | .error f => (next (.error f)).run d := by
  simp only [host, bind_assoc, StateT.run_bind, StateT.run_get]
  cases hwrite : d.write path content <;> simp [hwrite]

end

/-- A run that cannot read its file says so, if the file is there. -/
theorem runIn_of_unreadable {options : Options} {path : String} {f : FileFault}
    (h : Options.read arguments = .ok options) (hinput : options.input = some path)
    (hread : d.read path = .error f) :
    runIn d stdin arguments =
      (if d.has path then ⟨.failure, "", fileReport "read" path f⟩
        else ⟨.usage (.missingInput path), "", ""⟩, d) := by
  rw [runIn, run, h]
  dsimp only
  rw [perform, hinput]
  dsimp only
  rw [Directory.run_has]
  cases hhas : d.has path with
  | false => rfl
  | true =>
    rw [if_pos rfl, Directory.run_read, hread]
    rfl

/-- A run that reads bytes processes them. -/
theorem ReadsBytes.runIn_eq {options : Options} {bytes : ByteArray}
    (h : ReadsBytes d stdin arguments options bytes) :
    runIn d stdin arguments = (process (Directory.host stdin) options bytes).run d := by
  have hheld := h.held
  rw [Options.inputBytes] at hheld
  rw [runIn, run, h.asked]
  dsimp only
  rw [perform]
  cases hinput : options.input with
  | none =>
    rw [hinput] at hheld
    cases hheld
    rfl
  | some path =>
    rw [hinput] at hheld
    dsimp only at hheld ⊢
    rw [Directory.run_has, Directory.has_of_read hheld, if_pos rfl, Directory.run_read, hheld]

/-- A run that reads a source renders it. -/
theorem ReadsSource.runIn_eq {options : Options} {source : String}
    (h : ReadsSource d stdin arguments options source) :
    runIn d stdin arguments =
      match options.view.render options.indent source with
      | .error (.source f) =>
        (⟨.failure, "", options.log source ++ diagnostic ("parse error:\n" ++ f.message)⟩, d)
      | .error .indent => (⟨.unindentable, "", options.log source⟩, d)
      | .ok rendering =>
        (deliver (Directory.host stdin) options (options.log source) rendering).run d := by
  obtain ⟨bytes, hbytes, hdecode⟩ := h
  rw [hbytes.runIn_eq, process, hdecode]
  dsimp only
  cases options.view.render options.indent source with
  | error fault => cases fault <;> rfl
  | ok rendering => rfl

/-- A run that has a rendering delivers it in one of three ways. -/
theorem ReadsSource.runs {options : Options} {source : String}
    (h : ReadsSource d stdin arguments options source) :
    Runs d stdin arguments (runIn d stdin arguments) := by
  rw [h.runIn_eq]
  cases hrender : options.view.render options.indent source with
  | error fault =>
    cases fault with
    | source f => exact .refusedSource h hrender
    | indent => exact .unindentable h hrender
  | ok rendering =>
    dsimp only
    rw [deliver]
    cases houtput : options.output with
    | none => exact .printed h hrender houtput
    | some path =>
      dsimp only
      rw [Directory.run_write]
      cases hwrite : d.write path rendering.toUTF8 with
      | error f => exact .unwritable h hrender houtput hwrite
      | ok after => exact .written h hrender houtput hwrite

/-- A run that reads bytes goes one of the ways. -/
theorem ReadsBytes.runs {options : Options} {bytes : ByteArray}
    (h : ReadsBytes d stdin arguments options bytes) :
    Runs d stdin arguments (runIn d stdin arguments) := by
  cases hdecode : decode bytes with
  | none =>
    rw [h.runIn_eq, process, hdecode]
    exact .undecodable h hdecode
  | some source => exact ReadsSource.runs ⟨bytes, h, hdecode⟩

end

/-- Every run goes one of the ways. -/
theorem runs (d : Directory) (stdin : ByteArray) (arguments : List String) :
    Runs d stdin arguments (runIn d stdin arguments) := by
  cases hoptions : Options.read arguments with
  | error e =>
    rw [runIn, run, hoptions]
    exact .refused hoptions
  | ok options =>
    cases hinput : options.input with
    | none =>
      have hbytes : options.inputBytes d stdin = .ok stdin := by rw [Options.inputBytes, hinput]
      exact ReadsBytes.runs ⟨hoptions, hbytes⟩
    | some path =>
      have hbytes : options.inputBytes d stdin = d.read path := by rw [Options.inputBytes, hinput]
      cases hread : d.read path with
      | ok bytes => exact ReadsBytes.runs ⟨hoptions, hbytes.trans hread⟩
      | error f =>
        rw [runIn_of_unreadable hoptions hinput hread]
        cases hhas : d.has path with
        | false => exact .missing hoptions hinput hhas
        | true => exact .unreadable hoptions hinput hread

end Lifeline.Command
