import Lifeline.Text.Quoted

/-!
# The host of a run

Everything that a run may ask of its surroundings: standard input, and files by
their paths. A run is written once over any host; the operating system is one,
and a directory that is held in memory is another.
-/

namespace Lifeline.Command

/-- Why a file cannot be read or written: the number of the cause and its description. -/
structure FileFault where
  code : Nat
  reason : String
  deriving DecidableEq, Repr

namespace FileFault

/-- There is nothing under the path. -/
def missing : FileFault := ⟨2, "No such file or directory"⟩

/-- The path leads through something that is no directory. -/
def notDirectory : FileFault := ⟨20, "Not a directory"⟩

/-- The path leads to a directory. -/
def isDirectory : FileFault := ⟨21, "Is a directory"⟩

/-- A name on the path, or the path itself, is longer than any can be. -/
def nameTooLong : FileFault := ⟨36, "File name too long"⟩

/-- The fault of a path in a report. -/
def text (f : FileFault) (path : String) : String :=
  "[Errno " ++ toString f.code ++ "] " ++ f.reason ++ ": " ++ Text.quoted path

end FileFault

/-- What a run may ask for. -/
structure Host (m : Type → Type) where
  /-- All of standard input. -/
  stdin : m ByteArray
  /-- There is a file or a directory under a path. -/
  has : String → m Bool
  /-- The content of a file. -/
  read : String → m (Except FileFault ByteArray)
  /-- Gives a file a new content, and creates it if need be. -/
  write : String → ByteArray → m (Except FileFault Unit)

end Lifeline.Command
