import TradeReentry.Files.Content

/-!
Folders: what lies in a directory, as a tree of files and folders by name.

`Folder.find?` is the view of a folder, and `find?_set` and `find?_erase` say what the changes of one
name do to it. `node?`, `put` and `eraseAt` work along names from the folder inwards.
-/

namespace TradeReentry.Files

/-- What lies directly in a directory, by name. -/
inductive Folder where
  | empty
  | file (name : Text) (content : Content) (rest : Folder)
  | directory (name : Text) (inside rest : Folder)
deriving DecidableEq, Repr

/-- What lies at a name. -/
inductive Node where
  | file (content : Content)
  | directory (inside : Folder)
deriving DecidableEq, Repr

namespace Folder

instance : Inhabited Folder := ⟨empty⟩

/-! ## One name -/

/-- A folder with a node in front. -/
def add (name : Text) (node : Node) (rest : Folder) : Folder :=
  match node with
  | .file content => file name content rest
  | .directory inside => directory name inside rest

/-- What a name stands for. -/
def find? (name : Text) : Folder → Option Node
  | empty => none
  | file other content rest => if other = name then some (.file content) else rest.find? name
  | directory other inside rest => if other = name then some (.directory inside) else rest.find? name

/-- The folder in which a name stands for a node. -/
def set (name : Text) (node : Node) : Folder → Folder
  | empty => add name node empty
  | file other content rest =>
    if other = name then add name node rest else file other content (rest.set name node)
  | directory other inside rest =>
    if other = name then add name node rest else directory other inside (rest.set name node)

/-- The folder in which a name stands for nothing. -/
def erase (name : Text) : Folder → Folder
  | empty => empty
  | file other content rest =>
    if other = name then rest.erase name else file other content (rest.erase name)
  | directory other inside rest =>
    if other = name then rest.erase name else directory other inside (rest.erase name)

@[simp] theorem find?_add (name other : Text) (node : Node) (rest : Folder) :
    (add name node rest).find? other = if name = other then some node else rest.find? other := by
  cases node <;> rfl

theorem find?_set (name other : Text) (node : Node) (folder : Folder) :
    (folder.set name node).find? other =
      if name = other then some node else folder.find? other := by
  induction folder with
  | empty => simp [set, find?]
  | file one content rest ih => grind [set, find?, find?_add]
  | directory one inside rest _ ih => grind [set, find?, find?_add]

theorem find?_erase (name other : Text) (folder : Folder) :
    (folder.erase name).find? other = if name = other then none else folder.find? other := by
  induction folder with
  | empty => simp [erase, find?]
  | file one content rest ih => grind [erase, find?]
  | directory one inside rest _ ih => grind [erase, find?]

/-! ## Names one inside the other -/

/-- What lies at the end of a row of names. -/
def node? (folder : Folder) : List Text → Option Node
  | [] => some (.directory folder)
  | name :: rest =>
    match folder.find? name with
    | none => none
    | some (.file content) => if rest = [] then some (.file content) else none
    | some (.directory inside) => inside.node? rest

/-- The folder with a node at the end of a row of names, whose directories are there. -/
def put (folder : Folder) (node : Node) : List Text → Folder
  | [] => folder
  | [name] => folder.set name node
  | name :: next :: rest =>
    match folder.find? name with
    | some (.directory inside) => folder.set name (.directory (inside.put node (next :: rest)))
    | _ => folder

/-- The folder without what lies at the end of a row of names; no names stand for all of it. -/
def eraseAt (folder : Folder) : List Text → Folder
  | [] => empty
  | [name] => folder.erase name
  | name :: next :: rest =>
    match folder.find? name with
    | some (.directory inside) => folder.set name (.directory (inside.eraseAt (next :: rest)))
    | _ => folder

/-! ## All names -/

/-- The names of the files directly in a folder. -/
def fileNames : Folder → List Text
  | empty => []
  | file name _ rest => name :: rest.fileNames
  | directory _ _ rest => rest.fileNames

/-- Every path in a folder, after a common start, with its content; a directory has none and ends
in a slash. -/
def listing (start : Text) : Folder → List (Text × Option Text)
  | empty => []
  | file name content rest => (start ++ name, some content.text) :: rest.listing start
  | directory name inside rest =>
    let path := start ++ name ++ "/"
    (path, none) :: inside.listing path ++ rest.listing start

end Folder

end TradeReentry.Files
