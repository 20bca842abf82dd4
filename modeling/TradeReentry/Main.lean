import Std.Time.DateTime.Timestamp
import TradeReentry.Cli.Paths
import TradeReentry.Files.Change

/-!
The command line on the real file system.

What lies at the paths that the run looks at is read into a disk, the run is computed, and what it
wrote and changed is carried out. A path that is no text, or that cannot be read, counts as absent.
-/

namespace TradeReentry.Cli

def bytesOf (t : Text) : ByteArray := ⟨t.toArray⟩

def textOf (bytes : ByteArray) : Text := bytes.data.toList

/-- The name that the file system knows a path by; a path that is no text has none. -/
def nameOf? (path : Text) : Option String := String.fromUTF8? (bytesOf path)

/-- The disk with what lies at a path, the directories above it being there. -/
def readNode (disk : Disk) (path : Text) : IO Disk := do
  let some name := nameOf? path | return disk
  let place := (← IO.currentDir) / name
  if ← place.isDir then return (disk.makeDirectories path).1
  match ← (IO.FS.readBinFile place).toBaseIO with
  | .ok content => return disk.write path (textOf content)
  | .error _ => return disk

/-- The paths directly in a directory; a file has none. -/
def pathsIn (path : Text) : IO (List Text) := do
  let some name := nameOf? path | return []
  match ← ((← IO.currentDir) / name).readDir.toBaseIO with
  | .ok entries => return entries.toList.map fun entry => Files.Path.join path entry.fileName
  | .error _ => return []

/-- The disk with what lies at a path, above it and directly in it. -/
def readPath (disk : Disk) (path : Text) : IO Disk := do
  let path := Files.Path.visible path
  let disk ← (Files.Path.lineage path).foldlM readNode disk
  (← pathsIn path).foldlM readNode disk

/-- Carries out a change. -/
def carryOut : Files.Change → IO Unit
  | .removeFile path => (nameOf? path).forM fun name => IO.FS.removeFile name
  | .makeDirectory path => (nameOf? path).forM fun name => IO.FS.createDirAll name
  | .writeFile path content =>
    (nameOf? path).forM fun name => IO.FS.writeBinFile name (bytesOf content)

/-- Runs a command line on the files that it is about and gives its exit status. -/
def runOnFiles (words : List Text) : IO UInt32 := do
  let disk ← (argumentPaths words).foldlM readPath .empty
  let disk ← (configuredPaths words disk).foldlM readPath disk
  let now : Instant := (← Std.Time.Timestamp.now).toMillisecondsSinceUnixEpoch.val
  let run := run words disk now
  (disk.changes run.disk).forM carryOut
  (← IO.getStdout).write (bytesOf (run.stdout now))
  (← IO.getStderr).write (bytesOf (run.stderr now))
  return run.exit.code.toUInt32

end TradeReentry.Cli

/-- Runs the program on the words of its command line. -/
def main (arguments : List String) : IO UInt32 :=
  TradeReentry.Cli.runOnFiles (arguments.map TradeReentry.Text.ofString)
