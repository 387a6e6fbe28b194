/-
A directory that is held in memory, for running the program without touching real files.

A path is followed part by part from the directory or, if it starts with a slash, from elsewhere.
All parts but the last must be directories. A path that ends in a slash means a directory, so no
file can be read from it or made there.
-/
import CodeRecovery.CommandLine

set_option autoImplicit false

namespace CodeRecovery.CommandLine

/-- A directory without others inside it, and what happened in it. -/
structure Folder where
  files : List (String × ByteArray)
  /-- The files that were written, the last one first. -/
  written : List (String × ByteArray) := []
  journal : Journal := #[]

namespace Folder

/-- What is in a file now. -/
def content? (f : Folder) (name : String) : Option ByteArray :=
  (f.written ++ f.files).lookup name

/-- The files that were not there in the beginning. -/
def made (f : Folder) : List (String × ByteArray) :=
  f.written.filter fun (name, _) => (f.files.lookup name).isNone

/-! ## Paths -/

/-- Where a path has led so far. -/
inductive Place where
  /-- The directory itself. -/
  | inside
  /-- A directory elsewhere. Nothing is found in it, and what is written there is not kept. -/
  | outside
  | file (content : ByteArray)

/-- The most bytes in the name of a file. -/
def nameLimit : Nat := 255

/-- The most bytes in a path. -/
def pathLimit : Nat := 4095

def checkName (name : String) : Except PathFault Unit :=
  if nameLimit < name.utf8ByteSize then .error .nameTooLong else .ok ()

/-- Follows one part of a path. -/
def follow (f : Folder) (place : Place) (part : String) : Except PathFault Place :=
  match place, part with
  | .file _, _ => .error .notADirectory
  | place, "." => .ok place
  | _, ".." => .ok .outside
  | .outside, name => do
    checkName name
    throw .notFound
  | .inside, name => do
    checkName name
    match f.content? name with
    | some content => return .file content
    | none => throw .notFound

/-- The parts of a path between its slashes. -/
def partsOf (path : String) : List String :=
  (path.splitOn "/").filter (· != "")

/-- Whether a path can only mean a directory. -/
def meansDirectory (path : String) : Bool :=
  path.endsWith "/"

/-- Follows parts of a path from where the path starts. -/
def followAll (f : Folder) (path : String) (parts : List String) : Except PathFault Place := do
  if pathLimit < path.utf8ByteSize then throw .nameTooLong
  parts.foldlM f.follow (if path.startsWith "/" then .outside else .inside)

/-! ## Reading and writing -/

def read (f : Folder) (path : String) : Except PathFault ByteArray := do
  let parts := partsOf path
  match ← f.followAll path (if meansDirectory path then parts ++ ["."] else parts) with
  | .file content => return content
  | .inside | .outside => throw .isADirectory

/-- Writes a file, which is made if it is missing. -/
def write (f : Folder) (path : String) (content : ByteArray) : Except PathFault Folder := do
  let parts := partsOf path
  match ← f.followAll path parts.dropLast, parts.getLast? with
  | .file _, _ => throw .notADirectory
  | _, none => throw .isADirectory
  | place, some name =>
    if meansDirectory path || name == "." || name == ".." then throw .isADirectory
    else do
      checkName name
      match place with
      | .inside => return { f with written := (name, content) :: f.written.filter (·.1 != name) }
      | _ => return f

/-- The directory as the outside of the program. -/
def world : World (StateM Folder) where
  read path := return (← get).read path |>.mapError .path
  write path content := do
    match (← get).write path content with
    | .ok f => do
      set f
      return .ok ()
    | .error fault => return .error (.path fault)
  report event := modify fun f => { f with journal := f.journal.push event }

end Folder

end CodeRecovery.CommandLine
