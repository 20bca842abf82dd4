import TradeReentry.Files.Disk

/-!
What turns one disk into another, as steps that a file system knows.

`Disk.changes` leaves alone what lies unchanged at its path. A directory comes before what lies in
it, as it does in a listing.
-/

namespace TradeReentry

namespace Files

/-- A step that changes what lies at a path. -/
inductive Change where
  | removeFile (path : Text)
  | makeDirectory (path : Text)
  | writeFile (path content : Text)
deriving DecidableEq, Repr

end Files

namespace Disk

open Files

/-- Every path on the disk with its content; a directory has none. -/
def everything (disk : Disk) : List (Text × Option Text) :=
  disk.topmost.listing "/" ++ disk.above.listing "../" ++ disk.working.listing []

/-- The steps from one disk to another: the files that are gone, then all that is new. -/
def changes (before after : Disk) : List Change :=
  let old := before.everything
  let new := after.everything
  let gone := old.filterMap fun (path, content?) =>
    if content?.isSome && !new.any (·.1 = path) then some (Change.removeFile path) else none
  let come := (new.filter (!old.contains ·)).map fun (path, content?) =>
    match content? with
    | none => Change.makeDirectory path
    | some content => Change.writeFile path content
  gone ++ come

end Disk

end TradeReentry
