import Lifeline.Proofs.Command.Cases

/-!
# A run puts its whole result in one place, or does nothing

A run that ends with another exit code than zero prints nothing and leaves the
directory as it was. A run that ends with zero puts the rendering of its source in one
place: on standard output, or in one file, which may well be the one that was read.
-/

namespace Lifeline.Command

/-- The rendering has gone where the arguments want it, given what they call the output file: to
standard output if there is no name or an empty one, and otherwise to that file alone. -/
inductive Delivered (d : Directory) (rendering : String) : Option String → String → Directory → Prop
  | printed {output : Option String} (houtput : output = none ∨ output = some "") :
      Delivered d rendering output rendering d
  | written {path : String} {place : Path} {after : Directory} (hpath : path ≠ "")
      (hplace : d.find path = .ok (.place place false))
      (hread : after.read path = .ok rendering.toUTF8)
      (hfiles : ∀ p, after.file? p = if p = place then some rendering.toUTF8 else d.file? p)
      (hfolders : after.folders = d.folders) : Delivered d rendering (some path) "" after

section

variable {d after : Directory} {stdin : ByteArray} {arguments : List String} {given : Arguments}
  {options : Options} {rendering path : String}

/-- Options are made of arguments. -/
theorem Options.exists_arguments (h : Options.read arguments = .ok options) :
    ∃ given, Arguments.read {} arguments = .ok given ∧ Options.ofArguments given = .ok options := by
  rw [Options.read] at h
  cases hgiven : Arguments.read {} arguments with
  | error e =>
    rw [hgiven] at h
    cases h
  | ok given =>
    rw [hgiven] at h
    exact ⟨given, rfl, h⟩

/-- The output of the options is the one that the arguments name, unless its name is empty. -/
theorem Options.output_of_arguments (h : Options.ofArguments given = .ok options) :
    options.output = given.output.filter (!·.isEmpty) := by
  rw [Options.ofArguments] at h
  cases hinput : given.inputFile with
  | error e =>
    rw [hinput] at h
    cases h
  | ok input =>
    cases hindent : given.indentation with
    | error e =>
      rw [hinput, hindent] at h
      cases h
    | ok indent =>
      rw [hinput, hindent] at h
      cases h
      rfl

/-- What is printed has no file to go to. -/
theorem Delivered.of_print (h : Options.ofArguments given = .ok options)
    (houtput : options.output = none) : Delivered d rendering given.output rendering d := by
  rw [Options.output_of_arguments h] at houtput
  refine .printed ?_
  cases hgiven : given.output with
  | none => exact .inl rfl
  | some path =>
    rw [hgiven] at houtput
    right
    simpa [Option.filter] using houtput

/-- What is written goes to its file. -/
theorem Delivered.of_write (h : Options.ofArguments given = .ok options)
    (houtput : options.output = some path) (hwrite : d.write path rendering.toUTF8 = .ok after) :
    Delivered d rendering given.output "" after := by
  rw [Options.output_of_arguments h, Option.filter_eq_some_iff] at houtput
  obtain ⟨hgiven, hpath⟩ := houtput
  obtain ⟨place, hplace, rfl⟩ := Directory.write_eq_ok_iff.mp hwrite
  rw [hgiven]
  exact .written (by simpa using hpath) hplace (Directory.read_of_write hwrite)
    (fun p => d.file?_put place p _) (d.folders_put place _)

end

/-- A run that fails prints nothing and changes nothing; one that succeeds delivers the rendering of
its source. -/
theorem run_atomic (d : Directory) (stdin : ByteArray) (arguments : List String) :
    ((runIn d stdin arguments).1.ending.exitCode ≠ 0 →
      (runIn d stdin arguments).1.stdout = "" ∧ (runIn d stdin arguments).2 = d) ∧
    ((runIn d stdin arguments).1.ending.exitCode = 0 → ∃ given options bytes source rendering,
      Arguments.read {} arguments = .ok given ∧ Options.ofArguments given = .ok options ∧
        options.inputBytes d stdin = .ok bytes ∧ decode bytes = some source ∧
        options.view.render options.indent source = .ok rendering ∧
        Delivered d rendering given.output (runIn d stdin arguments).1.stdout
          (runIn d stdin arguments).2) := by
  have hruns := runs d stdin arguments
  generalize runIn d stdin arguments = result at hruns ⊢
  cases hruns with
  | printed h hrender houtput =>
    obtain ⟨bytes, hbytes, hdecode⟩ := h
    obtain ⟨given, hgiven, hoptions⟩ := Options.exists_arguments hbytes.asked
    exact ⟨fun hcode => absurd rfl hcode, fun _ => ⟨given, _, bytes, _, _, hgiven, hoptions,
      hbytes.held, hdecode, hrender, .of_print hoptions houtput⟩⟩
  | written h hrender houtput hwrite =>
    obtain ⟨bytes, hbytes, hdecode⟩ := h
    obtain ⟨given, hgiven, hoptions⟩ := Options.exists_arguments hbytes.asked
    exact ⟨fun hcode => absurd rfl hcode, fun _ => ⟨given, _, bytes, _, _, hgiven, hoptions,
      hbytes.held, hdecode, hrender, .of_write hoptions houtput hwrite⟩⟩
  | _ => exact ⟨fun _ => ⟨rfl, rfl⟩, fun hcode => nomatch hcode⟩

end Lifeline.Command
