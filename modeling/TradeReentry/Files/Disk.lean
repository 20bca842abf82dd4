import TradeReentry.Files.Folder
import TradeReentry.Files.Path

/-!
Files and directories as a value.

A disk says what lies in the working directory, in the one above it and in the topmost one. Opening,
creating, appending and renaming return the disk afterwards or the cause why the operating system
refuses; there are no disks that fail in the middle of a write.
-/

namespace TradeReentry

namespace Files

/-- Why the operating system refuses a path. -/
inductive Refusal where
  | notFound
  | notADirectory
  | isADirectory
  | alreadyExists
  | nameTooLong
  | invalidArgument
deriving DecidableEq, Repr

/-- The wording of the operating system. -/
def Refusal.message : Refusal → Text
  | .notFound => "No such file or directory"
  | .notADirectory => "Not a directory"
  | .isADirectory => "Is a directory"
  | .alreadyExists => "File exists"
  | .nameTooLong => "File name too long"
  | .invalidArgument => "Invalid argument"

/-- A directory that is always there. -/
inductive Base where
  | topmost
  | above
  | working
deriving DecidableEq, Repr

/-- Where a file or directory lies: the names on the way from a base, the last one first. -/
structure Location where
  base : Base
  trail : List Text
deriving DecidableEq, Repr

/-- The location one directory up. Nothing lies above the bases, except that the working directory
has one above it. -/
def Location.up (here : Location) : Location :=
  match here.trail with
  | _ :: trail => { here with trail }
  | [] => if here.base = .working then ⟨.above, []⟩ else here

end Files

open Files

/-- What lies in the directories that are always there. -/
structure Disk where
  topmost : Folder := .empty
  above : Folder := .empty
  working : Folder := .empty
deriving DecidableEq, Repr

namespace Disk

def empty : Disk := {}

instance : Inhabited Disk := ⟨empty⟩

def folder (disk : Disk) : Base → Folder
  | .topmost => disk.topmost
  | .above => disk.above
  | .working => disk.working

/-- The disk with another folder at a base. -/
def setFolder (disk : Disk) (base : Base) (folder : Folder) : Disk :=
  match base with
  | .topmost => { disk with topmost := folder }
  | .above => { disk with above := folder }
  | .working => { disk with working := folder }

/-- What lies at a location. -/
def node? (disk : Disk) (location : Location) : Option Node :=
  (disk.folder location.base).node? location.trail.reverse

/-- The disk with a node at a location, in place of what lay there. -/
def put (disk : Disk) (location : Location) (node : Node) : Disk :=
  disk.setFolder location.base ((disk.folder location.base).put node location.trail.reverse)

/-- The disk without a location and all below it; a base itself stays. -/
def eraseTree (disk : Disk) (location : Location) : Disk :=
  disk.setFolder location.base ((disk.folder location.base).eraseAt location.trail.reverse)

/-! ## Looking up paths -/

/-- Follows names from a location, with what lies there; each has to stand in an existing
directory. -/
def follow (disk : Disk) (here : Location) (node? : Option Node) :
    List Text → Except Refusal (Location × Option Node)
  | [] => .ok (here, node?)
  | name :: rest =>
    match node? with
    | none => .error .notFound
    | some (.file _) => .error .notADirectory
    | some (.directory inside) =>
      if Path.maxNameLength < name.length then .error .nameTooLong
      else if name = "." then disk.follow here node? rest
      else if name = ".." then disk.follow here.up (disk.node? here.up) rest
      else
        disk.follow { here with trail := name :: here.trail } (inside.find? name) rest

/-- The location that names lead to from the start of a path, and what lies there. -/
def followNames (disk : Disk) (path : Text) (names : List Text) :
    Except Refusal (Location × Option Node) :=
  let start : Location := ⟨if Path.isAbsolute path then .topmost else .working, []⟩
  if path.isEmpty then .error .notFound
  else if Path.lengthLimit ≤ path.length then .error .nameTooLong
  else disk.follow start (disk.node? start) names

/-- The location of a path whose directory exists, and what lies there. -/
def locate (disk : Disk) (path : Text) : Except Refusal (Location × Option Node) :=
  disk.followNames (Path.visible path) (Path.names (Path.visible path))

/-- What lies at a path. A path that ends in a slash is only that of a directory. -/
def lookup (disk : Disk) (path : Text) : Except Refusal Node := do
  match (← disk.locate path).2 with
  | none => .error .notFound
  | some (.file content) =>
    if Path.endsInSlash (Path.visible path) then .error .notADirectory else .ok (.file content)
  | some (.directory inside) => .ok (.directory inside)

def pathExists (disk : Disk) (path : Text) : Bool :=
  match disk.lookup path with
  | .ok _ => true
  | .error _ => false

/-- Opens a directory for reading. -/
def openDirectory (disk : Disk) (path : Text) : Except Refusal Folder := do
  match ← disk.lookup path with
  | .file _ => .error .notADirectory
  | .directory inside => .ok inside

def isDirectory (disk : Disk) (path : Text) : Bool :=
  match disk.openDirectory path with
  | .ok _ => true
  | .error _ => false

/-- The content of the file at a path. Reading a directory byte by byte is no failure that is told but
ends the program, so whoever reads with `file?` has to keep directories away. -/
def file? (disk : Disk) (path : Text) : Option Text :=
  match disk.lookup path with
  | .ok (.file content) => some content.text
  | _ => none

/-- What reading lines, or all at once into another stream, gives at a path; a directory reads as
empty. -/
def read? (disk : Disk) (path : Text) : Option Text :=
  match disk.lookup path with
  | .ok (.file content) => some content.text
  | .ok (.directory _) => some []
  | .error _ => none

/-- The names of the files that lie directly in a directory. -/
def fileNames (disk : Disk) (path : Text) : Except Refusal (List Text) :=
  (disk.openDirectory path).map (·.fileNames)

/-! ## Directories -/

/-- Makes one directory; one that is there already is left alone. -/
def makeDirectory (disk : Disk) (path : Text) : Except Refusal Disk := do
  match ← disk.locate path with
  | (location, none) => .ok (disk.put location (.directory .empty))
  | (_, some (.directory _)) => .ok disk
  | (_, some (.file _)) => .error .alreadyExists

/-- Makes directories in order until one is refused. Those made before stay. -/
def makeEach (disk : Disk) : List Text → Disk × Option Refusal
  | [] => (disk, none)
  | path :: rest =>
    match disk.makeDirectory path with
    | .error cause => (disk, some cause)
    | .ok disk => disk.makeEach rest

/-- The number of directories that are made at once at most. -/
def makeLimit : Nat := 1000

/-- Climbs along the ends of names, the last one first, from a path that is not there to the nearest
directory that is, and collects the paths to make on the way, the highest first. Dots make nothing.
The allowance is the number of paths that may still be collected. -/
def missingUpward (disk : Disk) (seen : Text) (below : List Text) (allowance : Nat) :
    List Path.NameEnd → Except Refusal (List Text)
  | [] => .ok below
  | last :: rest =>
    if !last.dots && allowance = 0 then .error .nameTooLong
    else
      let missing := if last.dots then below else seen.take last.length :: below
      match rest with
      | [] => .ok missing
      | above :: _ =>
        match disk.lookup (seen.take above.length) with
        | .ok (.directory _) => .ok missing
        | .ok (.file _) => .error .notADirectory
        | .error .notFound | .error .notADirectory =>
          disk.missingUpward seen missing (if last.dots then allowance else allowance - 1) rest
        | .error cause => .error cause

/-- Makes a directory and those above it. -/
def makeDirectories (disk : Disk) (path : Text) : Disk × Option Refusal :=
  if path.isEmpty then (disk, some .invalidArgument)
  else
    match disk.lookup path with
    | .ok (.directory _) => (disk, none)
    | .ok (.file _) => (disk, some .notADirectory)
    | .error .notFound | .error .notADirectory =>
      match disk.missingUpward (Path.visible path) [] makeLimit (Path.nameEnds path) with
      | .error cause => (disk, some cause)
      | .ok missing => disk.makeEach missing
    | .error cause => (disk, some cause)

/-! ## Files -/

/-- Creates a file with a content, or replaces the content of an existing one. A path that ends in a
slash is refused once its directory is found. -/
def create (disk : Disk) (path content : Text) : Except Refusal Disk := do
  let seen := Path.visible path
  if Path.endsInSlash seen then
    let _ ← disk.followNames seen ((Path.names seen).dropLast ++ [("." : Text)])
    .error .isADirectory
  else
    match ← disk.locate path with
    | (_, some (.directory _)) => .error .isADirectory
    | (location, _) => .ok (disk.put location (.file (.ofText content)))

/-- Adds to the end of an existing file. -/
def append (disk : Disk) (path data : Text) : Except Refusal Disk := do
  match ← disk.lookup path with
  | .directory _ => .error .isADirectory
  | .file content => .ok (disk.put (← disk.locate path).1 (.file (content.append data)))

/-- Gives the file at a path another path, in place of a file that lay there. -/
def rename (disk : Disk) (source target : Text) : Except Refusal Disk := do
  let node ← disk.lookup source
  let (old, _) ← disk.locate source
  match ← disk.locate target with
  | (_, some (.directory _)) => .error .isADirectory
  | (new, _) => .ok ((disk.eraseTree old).put new node)

/-- Removes what lies at a path, and all below it. -/
def remove (disk : Disk) (path : Text) : Disk :=
  match disk.lookup path, disk.locate path with
  | .ok _, .ok (location, _) => disk.eraseTree location
  | _, _ => disk

/-- Creates a file and the directories that it needs. -/
def write (disk : Disk) (path content : Text) : Disk :=
  let disk := (disk.makeDirectories (Path.parent path)).1
  (disk.create path content).toOption.getD disk

/-! ## Whole disks -/

/-- The disk that holds some files and directories, and the directories that they need. -/
def ofListing (files : List (Text × Text)) (directories : List Text) : Disk :=
  let disk := directories.foldl (fun disk path => (disk.makeDirectories path).1) empty
  files.foldl (fun disk (path, content) => disk.write path content) disk

/-- Every path below the working directory with its content; a directory has none. -/
def listing (disk : Disk) : List (Text × Option Text) := disk.working.listing []

end Disk

end TradeReentry
