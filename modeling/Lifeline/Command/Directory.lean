import Lifeline.Command.Host
import Lifeline.Text.Lines

/-!
# A directory in memory

Files and folders under a working directory, found by paths as an operating
system finds them: empty steps and `.` stay, `..` goes up, and every step but
the last has to lead to a folder. Above the working directory there are folders
all the way up, and there is a root, but nothing else is known to be in them.
-/

namespace Lifeline.Command

/-- The names of the folders on the way from the working directory, and of the thing itself. A way
out of the working directory starts with `..` for each folder that it goes up, and a way from the
root starts with `/`. -/
abbrev Path := List String

namespace Path

/-- The root of all folders. -/
def root : Path := ["/"]

/-- A folder above the working directory, or the working directory itself. -/
def isAbove (path : Path) : Bool := path.all (· == "..")

/-- The folder that holds a folder; the root holds itself. -/
def parent (path : Path) : Path :=
  if path = root then root else if path.isAbove then ".." :: path else path.dropLast

end Path

/-- Contents are compared byte by byte. -/
instance instDecidableEqContent : DecidableEq ByteArray := ByteArray.instDecidableEq

/-- A working directory. -/
structure Directory where
  files : List (Path × ByteArray) := []
  folders : List Path := []
  deriving DecidableEq

namespace Directory

/-- The content of a file. -/
def file? (d : Directory) (path : Path) : Option ByteArray := d.files.lookup path

/-- There is a folder under the path. -/
def hasFolder (d : Directory) (path : Path) : Bool :=
  path.isAbove || path == Path.root || d.folders.contains path

/-- Gives a file a new content, in its place or behind all others. -/
def put (d : Directory) (path : Path) (content : ByteArray) : Directory :=
  { d with files :=
      if (d.file? path).isSome then
        d.files.map fun (p, old) => if p = path then (p, content) else (p, old)
      else d.files ++ [(path, content)] }

/-- The most bytes that a name has. -/
def nameLimit : Nat := 255

/-- The most bytes that a path has. -/
def pathLimit : Nat := 4095

/-- What a path leads to. -/
inductive Target where
  | folder
  /-- A place for a file in a folder that is there; `slash` if the path asks for a folder. -/
  | place (path : Path) (slash : Bool)
  deriving DecidableEq

/-- Follows steps from a folder. A name that is too long is refused when it is looked up, and a name
that has to be a new folder is not looked up. -/
def follow (d : Directory) (here : Path) : List String → Except FileFault Target
  | [] => .ok .folder
  | step :: rest =>
    if step = "" ∨ step = "." then d.follow here rest
    else if step = ".." then d.follow here.parent rest
    else
      let path := here ++ [step]
      if d.hasFolder path then d.follow path rest
      else if !rest.isEmpty && rest.all (·.isEmpty) then .ok (.place path true)
      else if nameLimit < step.utf8ByteSize then .error .nameTooLong
      else if rest.isEmpty then .ok (.place path false)
      else .error (if (d.file? path).isSome then .notDirectory else .missing)

/-- The steps of a path. -/
def steps (path : String) : List String := (Text.divide '/' path.toList).map String.ofList

/-- What a path leads to. The empty path leads nowhere, and a path that starts with a slash starts
at the root. -/
def find (d : Directory) (path : String) : Except FileFault Target :=
  if path.isEmpty then .error .missing
  else if pathLimit < path.utf8ByteSize then .error .nameTooLong
  else d.follow (if path.toList.head? = some '/' then Path.root else []) (steps path)

/-- The content of the file under a path. A file is no folder, so a slash behind it is refused. -/
def read (d : Directory) (path : String) : Except FileFault ByteArray := do
  match ← d.find path with
  | .folder => .error .isDirectory
  | .place path slash =>
    match d.file? path with
    | some content => if slash then .error .notDirectory else .ok content
    | none => .error .missing

/-- There is a file or a folder under a path. -/
def has (d : Directory) (path : String) : Bool :=
  match d.find path with
  | .ok .folder => true
  | .ok (.place path slash) => !slash && (d.file? path).isSome
  | .error _ => false

/-- The directory after a file has been written. A folder is not written, and a slash behind a
name asks for a folder, whether there is a file of that name or not. -/
def write (d : Directory) (path : String) (content : ByteArray) : Except FileFault Directory := do
  match ← d.find path with
  | .place path false => .ok (d.put path content)
  | .folder | .place _ true => .error .isDirectory

/-- A directory as the host of a run. -/
def host (stdin : ByteArray) : Host (StateM Directory) where
  stdin := pure stdin
  has path := return (← get).has path
  read path := return (← get).read path
  write path content := do
    match (← get).write path content with
    | .ok d =>
      set d
      return .ok ()
    | .error e => return .error e

end Directory

end Lifeline.Command
