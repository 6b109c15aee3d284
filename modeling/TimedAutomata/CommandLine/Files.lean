/-!
# Files

Reading and writing files by path, on any kind of storage.

- `FileError`: why a file cannot be read or written
- `Files`: the two operations, with effects in a monad
- `Directory`: files in memory
- `Spot`: where a path leads, seen from such a directory
-/

namespace TimedAutomata
namespace CommandLine

inductive FileError where
  | notFound
  | denied
  | notDirectory
  | isDirectory
  | nameTooLong
  | notText
  | other (description : String)
  deriving DecidableEq, Repr, Inhabited

namespace FileError

def message : FileError → String
  | .notFound => "No such file or directory (os error 2)"
  | .denied => "Permission denied (os error 13)"
  | .notDirectory => "Not a directory (os error 20)"
  | .isDirectory => "Is a directory (os error 21)"
  | .nameTooLong => "File name too long (os error 36)"
  | .notText => "stream did not contain valid UTF-8"
  | .other description => description

end FileError

/-- A place where files are. -/
structure Files (m : Type → Type) where
  read (path : String) : m (Except FileError String)
  write (path content : String) : m (Except FileError Unit)

/-! ## Paths -/

/-- The names in a path, cut at slashes. -/
def pathParts (path : String) : List String :=
  path.splitOn "/"

/-- The longest name, in bytes. -/
def longestName : Nat := 255

/-- The longest path, in bytes. -/
def longestPath : Nat := 4095

/-! ## Files in memory -/

/-- The files of a directory and of those below it, by path. -/
structure Directory where
  entries : List (String × String)
  deriving DecidableEq, Repr, Inhabited

/-- Where a path leads. The steps to a place below the directory are names only. -/
inductive Spot where
  /-- A place below the topmost directory. -/
  | top (steps : List String)
  /-- A directory around the one in memory. -/
  | around
  /-- A place with no known way to it. -/
  | apart
  | below (steps : List String)
  deriving DecidableEq, Repr, Inhabited

namespace Spot

/-- Where a path starts. -/
def origin (path : String) : Spot :=
  if path.startsWith "/" then .top [] else .below []

/-- One step further; two dots go up. -/
def step (s : Spot) (part : String) : Spot :=
  if part = "" || part = "." then s
  else
    match s with
    | .top steps => .top (if part = ".." then steps.dropLast else steps ++ [part])
    | .around | .apart => if part = ".." then .around else .apart
    | .below steps =>
      if part != ".." then .below (steps ++ [part])
      else if steps.isEmpty then .around
      else .below steps.dropLast

end Spot

/-- What can be found at a place. -/
inductive Found where
  | directory
  | file (content : String)
  /-- What is written there is lost, and there is nothing to read. -/
  | sink
  | nothing
  deriving DecidableEq, Repr, Inhabited

namespace Directory

/-- The steps to an entry. -/
def steps (path : String) : List String :=
  (pathParts path).filter fun p => p != "" && p != "."

/-- What is at a place. Of the places outside the directory, only the topmost directory and the
null device are known. -/
def look (d : Directory) : Spot → Found
  | .around => .directory
  | .apart => .nothing
  | .top steps =>
    if steps = ["dev", "null"] then .sink
    else if steps.isPrefixOf ["dev", "null"] then .directory
    else .nothing
  | .below steps =>
    match d.entries.find? fun e => Directory.steps e.1 == steps with
    | some e => .file e.2
    | none =>
      if steps.isEmpty || d.entries.any fun e => steps.isPrefixOf (Directory.steps e.1) then
        .directory
      else .nothing

/-- Goes one step from a place, which must be a directory. -/
def enter (d : Directory) (s : Spot) (part : String) : Except FileError Spot :=
  match d.look s with
  | .directory =>
    if longestName < part.utf8ByteSize then .error .nameTooLong else .ok (s.step part)
  | .nothing => .error .notFound
  | _ => .error .notDirectory

/-- Goes along the parts of a path. -/
def walk (d : Directory) (path : String) (parts : List String) : Except FileError Spot :=
  if path.isEmpty then .error .notFound
  else if longestPath < path.utf8ByteSize then .error .nameTooLong
  else parts.foldlM d.enter (Spot.origin path)

def read (d : Directory) (path : String) : Except FileError String := do
  match d.look (← d.walk path (pathParts path)) with
  | .directory => .error .isDirectory
  | .file content => .ok content
  | .sink => .ok ""
  | .nothing => .error .notFound

/-- Puts a file at a place. Places outside the directory are out of sight. -/
def put (d : Directory) (s : Spot) (content : String) : Directory :=
  match s with
  | .below steps =>
    if d.entries.any fun e => Directory.steps e.1 == steps then
      ⟨d.entries.map fun e => if Directory.steps e.1 == steps then (e.1, content) else e⟩
    else ⟨d.entries ++ [("/".intercalate steps, content)]⟩
  | _ => d

/-- Writes a file, in a directory that is there already. A slash behind a name demands a
directory, whatever has that name. -/
def write (d : Directory) (path content : String) : Except FileError Directory := do
  let named := ((pathParts path).reverse.dropWhile (· = "")).reverse
  let last := named.getLastD "."
  let parent ← d.walk path named.dropLast
  let _ ← d.enter parent "."
  if path.endsWith "/" then .error .isDirectory
  let s ← d.enter parent last
  match d.look s with
  | .directory => .error .isDirectory
  | _ => .ok (d.put s content)

/-- The entries of `d` that differ from those of `old`. -/
def changes (old d : Directory) : List (String × String) :=
  d.entries.filter fun e => !old.entries.contains e

/-- The files of a directory, which writing changes. -/
def files : Files (StateM Directory) where
  read path := do return (← get).read path
  write path content := do
    match (← get).write path content with
    | .error e => return .error e
    | .ok d => set d; return .ok ()

end Directory
end CommandLine
end TimedAutomata
