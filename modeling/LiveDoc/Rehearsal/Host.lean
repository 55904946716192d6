import LiveDoc.Rehearsal.Network

/-!
# LiveDoc — rehearsals

A rehearsal plays a script against the parts of the system without sockets and processes: peers and
children are played too, and time passes only when nothing else can happen. What a script can see
depends on the host that it is played on: its network, and the directories and files that exist.

* `Host.find` — what a path leads to.
* `Host.program` — the program that a command names.
-/

namespace LiveDoc.Rehearsal

/-- How long a script waits for what it expects, in milliseconds. -/
def patienceMs : Nat := 10000

/-! ## Files -/

inductive HostFile where
  | plain
  -- A program that ends at once, with an exit code.
  | program (code : Nat)
  deriving DecidableEq, Repr, Inhabited

/-- Why a path leads to nothing that could be used. -/
inductive PathFault where
  | notFound
  | notDirectory
  | tooLong
  | nulByte
  -- What the path leads to is no program.
  | denied
  deriving DecidableEq, Repr

def PathFault.message : PathFault → String
  | .notFound => "No such file or directory (os error 2)"
  | .notDirectory => "Not a directory (os error 20)"
  | .tooLong => "File name too long (os error 36)"
  | .nulByte => "file name contained an unexpected NUL byte"
  | .denied => "Permission denied (os error 13)"

structure Host where
  network : Network
  -- The directories that exist, by their paths from the root.
  directories : List String := []
  -- The other files, by their paths from the root.
  files : List (String × HostFile) := []
  -- The directories in which commands are looked for.
  searchPath : List String := []
  -- The directory of the files that scripts change.
  scriptRoot : String := "/tmp"
  deriving Repr, Inhabited

inductive Place where
  -- The directory at the end of these names, from the root on.
  | directory (names : List String)
  | file (file : HostFile)
  -- A directory of which nothing is known, in which the script is played, or one above it.
  | here
  deriving DecidableEq, Repr, Inhabited

namespace Host

def pathOf (names : List String) : String := "/" ++ "/".intercalate names

def child (h : Host) (names : List String) (name : String) : Except PathFault Place :=
  let names := names ++ [name]
  if h.directories.contains (pathOf names) then .ok (.directory names)
  else
    match h.files.lookup (pathOf names) with
    | some file => .ok (.file file)
    | none => .error .notFound

def walk (h : Host) (place : Place) : List String → Except PathFault Place
  | [] => .ok place
  | name :: rest =>
    match place with
    | .file _ => .error .notDirectory
    | .here =>
      if name = "" ∨ name = "." ∨ name = ".." then h.walk .here rest
      else if 255 < name.utf8ByteSize then .error .tooLong
      else .error .notFound
    | .directory names =>
      if name = "" ∨ name = "." then h.walk place rest
      else if name = ".." then h.walk (.directory names.dropLast) rest
      else if 255 < name.utf8ByteSize then .error .tooLong
      else
        match h.child names name with
        | .ok place => h.walk place rest
        | .error fault => .error fault

def find (h : Host) (path : String) : Except PathFault Place :=
  if path.contains '\x00' then .error .nulByte
  else if 4095 < path.utf8ByteSize then .error .tooLong
  else h.walk (if path.startsWith "/" then .directory [] else .here) (path.splitOn "/")

/-- The exit code of the program at a path. -/
def programAt (h : Host) (path : String) : Except PathFault Nat :=
  match h.find path with
  | .ok (.file (.program code)) => .ok code
  | .ok _ => .error .denied
  | .error fault => .error fault

/-- The first program with a name in some directories. What is no program is passed over, and counts
only if there is nothing else. -/
def search (h : Host) (name : String) (fault : PathFault) :
    List String → Except PathFault Nat
  | [] => .error fault
  | directory :: rest =>
    match h.programAt (directory ++ "/" ++ name) with
    | .error .denied => h.search name .denied rest
    | .error .notFound | .error .notDirectory => h.search name fault rest
    | found => found

/-- The exit code of the program that a command names: by its path, or by a name that is looked
for. -/
def program (h : Host) (searchPath : List String) (command : String) : Except PathFault Nat :=
  if command = "" then .error .notFound
  else if command.contains '/' then h.programAt command
  else h.search command .notFound searchPath

end Host

end LiveDoc.Rehearsal
