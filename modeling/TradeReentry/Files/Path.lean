import TradeReentry.Text.Basic

/-!
Paths as texts: their names, the directory of each, and the ways to join a directory and a name.

A path is a text with slashes and may hold any byte. The operating system sees only what stands
before the first zero byte (`Path.visible`), while the rules on names take the whole text.
-/

namespace TradeReentry.Files

namespace Path

/-- The longest name that a directory holds, in bytes. -/
def maxNameLength : Nat := 255

/-- The length from which a path is refused as a whole, in bytes. -/
def lengthLimit : Nat := 4096

/-- What the operating system sees of a path. -/
def visible (path : Text) : Text := path.takeWhile (· ≠ 0)

def isAbsolute (path : Text) : Bool := path.head? = some Ascii.slash

def endsInSlash (path : Text) : Bool := path.getLast? = some Ascii.slash

/-- The names between the slashes. -/
def names (path : Text) : List Text := (Text.splitOn Ascii.slash path).filter (!·.isEmpty)

/-- The path of a name in a directory: one slash between them, unless the directory is empty or
ends in one. -/
def join (directory name : Text) : Text :=
  if directory.isEmpty || endsInSlash directory then directory ++ name
  else directory ++ "/" ++ name

/-- What follows the last slash. -/
def fileName (path : Text) : Text :=
  (path.reverse.takeWhile (· ≠ Ascii.slash)).reverse

/-- What stands before the last name and its slashes. The topmost directory is its own parent, and
the parent of a single name is empty. -/
def parent (path : Text) : Text :=
  let above := (path.reverse.dropWhile (· ≠ Ascii.slash)).dropWhile (· = Ascii.slash)
  if above.isEmpty && isAbsolute path then "/" else above.reverse

/-- The path without slashes at its end. -/
def trimSlashes (path : Text) : Text := if endsInSlash path then parent path else path

/-- The path and those of the directories that it lies in, the highest first. -/
def lineage (path : Text) : List Text :=
  go [] (trimSlashes path) (names path).length
where
  /-- Carries the paths that were found, and climbs as many times as there are names. -/
  go (found : List Text) (path : Text) : Nat → List Text
    | 0 => found
    | n + 1 => go (path :: found) (parent path) n

/-- Whether a name stands for the directory that it is in or the one above. -/
def isDots (name : Text) : Bool := name = "." || name = ".."

/-- The end of a name in a path: the length of the path up to there, and whether the name is dots. -/
structure NameEnd where
  length : Nat
  dots : Bool
deriving DecidableEq, Repr

/-- Where the names of a path end, the last one first. -/
def nameEnds (path : Text) : List NameEnd :=
  go [] 0 [] path
where
  /-- Carries the ends that were found, the bytes that were read and those of the open name, the
  latest first. -/
  go (found : List NameEnd) (position : Nat) (name : Text) : Text → List NameEnd
    | [] => close found position name
    | c :: rest =>
      if c = Ascii.slash then go (close found position name) (position + 1) [] rest
      else go found (position + 1) (c :: name) rest
  /-- Adds the end of a name that has bytes; dots read the same in both directions. -/
  close (found : List NameEnd) (position : Nat) (name : Text) : List NameEnd :=
    if name.isEmpty then found else ⟨position, isDots name⟩ :: found

/-- Whether a file name has the extension `.csv`; a name that only is one has none. -/
def hasCsvExtension (name : Text) : Bool := (".csv" : Text).isSuffixOf name && name ≠ ".csv"

end Path

end TradeReentry.Files
