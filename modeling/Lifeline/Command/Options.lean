import Lifeline.Text.Integer
import Lifeline.Text.Search
import Lifeline.View

/-!
# Options of the command line

Arguments are read from left to right. A long option takes its value behind `=`
or from the next argument, short options may share one argument, and `--` ends
the options. An option that is given again replaces its earlier value, which is
then not even looked at.
-/

namespace Lifeline.Command

open Text

/-- Why a command line is refused. -/
inductive UsageError where
  | unknownOption (name : String)
  /-- An option that needs a value is the last argument. -/
  | missingValue
  /-- A value is given to an option that takes none. -/
  | unexpectedValue (name : String)
  | invalidIndent (text : String)
  | tooManyArguments
  | missingInput (path : String)
  deriving DecidableEq, Repr

/-- The wording of a refusal. -/
def UsageError.message : UsageError → String
  | unknownOption name => "no such option: " ++ name
  | missingValue => "an option requires an argument"
  | unexpectedValue name => "option " ++ name ++ " does not take a value"
  | invalidIndent text => "not a valid integer: " ++ quoted text
  | tooManyArguments => "unexpected extra arguments"
  | missingInput path => "path " ++ quoted path ++ " does not exist"

/-- The options that take no value. -/
inductive Switch where
  | view (v : View)
  | verbose
  deriving DecidableEq, Repr

/-- The options that take a value. -/
inductive Setting where
  | indent
  | output
  deriving DecidableEq, Repr

/-- The meaning of an option by its long name. -/
def longOption? (name : String) : Option (Switch ⊕ Setting) :=
  match name with
  | "--tokens" => some (.inl (.view .tokens))
  | "--spans" => some (.inl (.view .spans))
  | "--verbose" => some (.inl .verbose)
  | "--indent" => some (.inr .indent)
  | "--output" => some (.inr .output)
  | _ => none

/-- The meaning of an option by its letter. -/
def shortOption? (letter : Char) : Option (Switch ⊕ Setting) :=
  match letter with
  | 'v' => some (.inl .verbose)
  | 'i' => some (.inr .indent)
  | 'o' => some (.inr .output)
  | _ => none

/-- What the arguments say, before the values are looked at. -/
structure Arguments where
  view : View := .diagram
  verbose : Bool := false
  indent : Option String := none
  output : Option String := none
  /-- The arguments that are no options. -/
  inputs : List String := []
  deriving DecidableEq, Repr

namespace Arguments

/-- The arguments after an option without a value. -/
def switch (a : Arguments) : Switch → Arguments
  | .view view => { a with view }
  | .verbose => { a with verbose := true }

/-- The arguments after an option with its value. -/
def set (a : Arguments) (s : Setting) (value : String) : Arguments :=
  match s with
  | .indent => { a with indent := some value }
  | .output => { a with output := some value }

/-- Reads short options that share one argument. An option that takes a value takes the rest of
the argument, or else waits for the next argument. -/
def readShort (a : Arguments) : List Char → Except UsageError (Arguments × Option Setting)
  | [] => .ok (a, none)
  | c :: s =>
    match shortOption? c with
    | some (.inl switch) => (a.switch switch).readShort s
    | some (.inr setting) =>
      if s.isEmpty then .ok (a, some setting) else .ok (a.set setting (String.ofList s), none)
    | none => .error (.unknownOption (String.ofList ['-', c]))

/-- Reads an argument that is an option, by its long name or else letter by letter. -/
def readOption (a : Arguments) (argument : List Char) :
    Except UsageError (Arguments × Option Setting) :=
  let (name, value) :=
    match cut ['='] argument with
    | some (name, value) => (String.ofList name, some (String.ofList value))
    | none => (String.ofList argument, none)
  match longOption? name, value with
  | some (.inl switch), none => .ok (a.switch switch, none)
  | some (.inl _), some _ => .error (.unexpectedValue name)
  | some (.inr setting), none => .ok (a, some setting)
  | some (.inr setting), some value => .ok (a.set setting value, none)
  | none, _ =>
    if ['-', '-'].isPrefixOf argument then .error (.unknownOption name)
    else a.readShort (argument.drop 1)

/-- An argument that is an option: a dash and more. -/
def isOption (argument : List Char) : Bool := argument.head? == some '-' && argument.length > 1

/-- Reads arguments, in addition to what earlier ones said. -/
def read (a : Arguments) : List String → Except UsageError Arguments
  | [] => .ok a
  | argument :: rest =>
    if argument = "--" then .ok { a with inputs := a.inputs ++ rest }
    else if isOption argument.toList then
      match a.readOption argument.toList with
      | .error e => .error e
      | .ok (a, none) => a.read rest
      | .ok (a, some setting) =>
        match rest with
        | [] => .error .missingValue
        | value :: rest => (a.set setting value).read rest
    else { a with inputs := a.inputs ++ [argument] }.read rest

/-- The file to read, if there is one. -/
def inputFile (a : Arguments) : Except UsageError (Option String) :=
  match a.inputs with
  | [] => .ok none
  | [path] => .ok (some path)
  | _ => .error .tooManyArguments

/-- The indentation that is used when none is asked for. -/
def defaultIndent : Int := 2

/-- The indentation that is asked for. -/
def indentation (a : Arguments) : Except UsageError Int :=
  match a.indent with
  | none => .ok defaultIndent
  | some text =>
    match integer? text.toList with
    | some n => .ok n
    | none => .error (.invalidIndent text)

end Arguments

/-- What a run is asked to do. -/
structure Options where
  view : View
  /-- The indentation of the result; all of it is put on one line if there is none. -/
  indent : Option Int
  verbose : Bool
  /-- The file to read; standard input if there is none. -/
  input : Option String
  /-- The file to write; standard output if there is none. -/
  output : Option String
  deriving DecidableEq, Repr

namespace Options

/-- Looks at the values of arguments. An empty name of an output file counts as none, and so does an
indentation of zero. -/
def ofArguments (a : Arguments) : Except UsageError Options := do
  let input ← a.inputFile
  let indent ← a.indentation
  return ⟨a.view, if indent = 0 then none else some indent, a.verbose, input,
    a.output.filter (!·.isEmpty)⟩

/-- Reads a command line. -/
def read (arguments : List String) : Except UsageError Options := do
  ofArguments (← Arguments.read {} arguments)

end Options

end Lifeline.Command
