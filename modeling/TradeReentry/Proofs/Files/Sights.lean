import TradeReentry.Files.Disk
import TradeReentry.Proofs.Files.Paths

/-!
# What a disk shows at its locations

A location shows nothing, a directory or a file. Where a path leads depends on the directories only
(`Disk.walk_congr`), and putting or erasing a file changes what one location shows
(`Disk.sight_put`, `Disk.sight_eraseTree`), so that all other paths keep their meaning.
-/

namespace TradeReentry

namespace Files

/-- What a location shows: nothing, a directory whatever lies in it, or a file. -/
inductive Sight where
  | nothing
  | directory
  | file (content : Content)
deriving DecidableEq, Repr

def Sight.of : Option Node → Sight
  | none => .nothing
  | some (.directory _) => .directory
  | some (.file content) => .file content

/-- Whether nothing lies below a node. -/
def Node.IsBare : Node → Prop
  | .file _ => True
  | .directory inside => inside = .empty

namespace Folder

theorem node?_concat (folder : Folder) (names : List Text) (name : Text) :
    folder.node? (names ++ [name]) =
      match folder.node? names with
      | some (.directory inside) => inside.find? name
      | _ => none := by
  induction names generalizing folder with
  | nil =>
    simp only [List.nil_append, node?]
    cases folder.find? name with
    | none => rfl
    | some node => cases node <;> simp
  | cons first rest ih =>
    simp only [List.cons_append, node?]
    cases folder.find? first with
    | none => rfl
    | some node =>
      cases node with
      | file content => cases rest <;> simp
      | directory inside => exact ih inside

/-- What the end of a row of names shows. -/
def sight (folder : Folder) (names : List Text) : Sight := .of (folder.node? names)

theorem sight_nil (folder : Folder) : folder.sight [] = .directory := rfl

theorem sight_cons (folder : Folder) (name : Text) (names : List Text) :
    folder.sight (name :: names) =
      match folder.find? name with
      | none => .nothing
      | some (.file content) => if names = [] then .file content else .nothing
      | some (.directory inside) => inside.sight names := by
  rw [sight, node?]
  cases folder.find? name with
  | none => rfl
  | some node =>
    cases node with
    | file content => by_cases h : names = [] <;> simp [h, Sight.of]
    | directory inside => rfl

theorem put_cons {names : List Text} (hne : names ≠ []) (folder : Folder) (node : Node)
    (name : Text) :
    folder.put node (name :: names) =
      match folder.find? name with
      | some (.directory inside) => folder.set name (.directory (inside.put node names))
      | _ => folder := by
  obtain ⟨next, rest, rfl⟩ := List.exists_cons_of_ne_nil hne
  rfl

theorem eraseAt_cons {names : List Text} (hne : names ≠ []) (folder : Folder) (name : Text) :
    folder.eraseAt (name :: names) =
      match folder.find? name with
      | some (.directory inside) => folder.set name (.directory (inside.eraseAt names))
      | _ => folder := by
  obtain ⟨next, rest, rfl⟩ := List.exists_cons_of_ne_nil hne
  rfl

/-- Nothing lies behind what is no directory. -/
theorem sight_behind {folder : Folder} {name : Text} (h : folder.sight [name] ≠ .directory)
    {names : List Text} (hne : names ≠ []) : folder.sight (name :: names) = .nothing := by
  rw [sight_cons] at h ⊢
  cases hfind : folder.find? name with
  | none => rfl
  | some node =>
    cases node with
    | file content => simp [hne]
    | directory inside => simp [hfind, sight_nil] at h

/-- A file or an empty directory that is put into a directory shows at its own place only. -/
theorem sight_put_of_bare {folder : Folder} {names : List Text} {name : Text} {node : Node}
    (hparent : folder.sight names = .directory)
    (hplace : folder.sight (names ++ [name]) ≠ .directory) (hbare : node.IsBare)
    (others : List Text) :
    (folder.put node (names ++ [name])).sight others =
      if others = names ++ [name] then .of (some node) else folder.sight others := by
  induction names generalizing folder others with
  | nil =>
    show (folder.set name node).sight others = _
    cases others with
    | nil => rfl
    | cons other rest =>
      by_cases hname : name = other
      · subst hname
        have hbehind : rest ≠ [] → folder.sight (name :: rest) = .nothing := sight_behind hplace
        rw [sight_cons, find?_set, if_pos rfl]
        cases node with
        | file content => by_cases hrest : rest = [] <;> simp [hrest, Sight.of, hbehind]
        | directory inside =>
          obtain rfl : inside = .empty := hbare
          cases rest with
          | nil => simp [Sight.of, sight_nil]
          | cons next more =>
            rw [hbehind (by simp)]
            simp [sight_cons, find?]
      · rw [sight_cons, sight_cons, find?_set]
        simp [hname, Ne.symm hname]
  | cons first rest ih =>
    rw [List.cons_append, put_cons (by simp)]
    rw [List.cons_append, sight_cons] at hplace
    rw [sight_cons] at hparent
    cases hfind : folder.find? first with
    | none => simp [hfind] at hparent
    | some held =>
      cases held with
      | file content => by_cases hrest : rest = [] <;> simp [hfind, hrest] at hparent
      | directory inside =>
        simp only [hfind] at hplace hparent
        cases others with
        | nil => rfl
        | cons other more =>
          rw [sight_cons, sight_cons, find?_set]
          by_cases hname : first = other
          · subst hname
            simp [hfind, ih hparent hplace]
          · simp [hname, Ne.symm hname]

/-- A file that is erased leaves nothing at its place and all else as it is. -/
theorem sight_eraseAt {folder : Folder} {names : List Text} {name : Text}
    (hplace : folder.sight (names ++ [name]) ≠ .directory) (others : List Text) :
    (folder.eraseAt (names ++ [name])).sight others =
      if others = names ++ [name] then .nothing else folder.sight others := by
  induction names generalizing folder others with
  | nil =>
    show (folder.erase name).sight others = _
    cases others with
    | nil => rfl
    | cons other rest =>
      rw [sight_cons, sight_cons, find?_erase]
      rw [List.nil_append, sight_cons] at hplace
      by_cases hname : name = other
      · subst hname
        cases hfind : folder.find? name with
        | none => simp
        | some node =>
          cases node with
          | file held => simp
          | directory inside => simp [hfind, sight_nil] at hplace
      · simp [hname, Ne.symm hname]
  | cons first rest ih =>
    rw [List.cons_append, eraseAt_cons (by simp)]
    rw [List.cons_append, sight_cons] at hplace
    cases others with
    | nil => cases hfind : folder.find? first with
      | none => rfl
      | some node => cases node <;> rfl
    | cons other more =>
      cases hfind : folder.find? first with
      | none =>
        by_cases hname : other = first
        · simp [hname, sight_cons, hfind]
        · simp [hname]
      | some node =>
        cases node with
        | file held =>
          -- A file in the way of the row of names: there is nothing behind it.
          by_cases hmore : more = []
          · simp [hmore]
          · by_cases hname : other = first
            · simp [hname, sight_cons, hfind, hmore]
            · simp [hname]
        | directory inside =>
          simp only [hfind] at hplace
          rw [sight_cons, sight_cons, find?_set]
          by_cases hname : first = other
          · subst hname
            simp [hfind, ih hplace]
          · simp [hname, Ne.symm hname]

theorem mem_fileNames {folder : Folder} {name : Text} {content : Content}
    (h : folder.find? name = some (.file content)) : name ∈ folder.fileNames := by
  induction folder with
  | empty => simp [find?] at h
  | file other held rest ih => grind [find?, fileNames]
  | directory other inside rest _ ih => grind [find?, fileNames]

end Folder

/-- The location of a name in a directory. -/
def Location.child (here : Location) (name : Text) : Location :=
  { here with trail := name :: here.trail }

@[simp] theorem Location.child_base (here : Location) (name : Text) :
    (here.child name).base = here.base := rfl

@[simp] theorem Location.child_trail (here : Location) (name : Text) :
    (here.child name).trail.reverse = here.trail.reverse ++ [name] := List.reverse_cons

theorem Location.child_inj {here : Location} {a b : Text} (h : here.child a = here.child b) :
    a = b := by
  simpa [child] using h

end Files

open Files

namespace Disk

@[simp] theorem folder_setFolder (disk : Disk) (base other : Base) (folder : Folder) :
    (disk.setFolder base folder).folder other = if base = other then folder else disk.folder other := by
  cases base <;> cases other <;> rfl

/-- What a location shows. -/
def sight (disk : Disk) (here : Location) : Sight := .of (disk.node? here)

theorem sight_eq (disk : Disk) (here : Location) :
    disk.sight here = (disk.folder here.base).sight here.trail.reverse := rfl

/-- A name in a directory is looked up in it. -/
theorem node?_child {disk : Disk} {here : Location} {inside : Folder}
    (h : disk.node? here = some (.directory inside)) (name : Text) :
    disk.node? (here.child name) = inside.find? name := by
  rw [node?] at h
  rw [node?, Location.child, List.reverse_cons, Folder.node?_concat, h]

theorem node?_of_sight_directory {disk : Disk} {here : Location}
    (h : disk.sight here = .directory) : ∃ inside, disk.node? here = some (.directory inside) := by
  rw [sight] at h
  cases hnode : disk.node? here with
  | none => simp [hnode, Sight.of] at h
  | some node =>
    cases node with
    | file content => simp [hnode, Sight.of] at h
    | directory inside => exact ⟨inside, rfl⟩

theorem node?_of_sight_file {disk : Disk} {here : Location} {content : Content}
    (h : disk.sight here = .file content) : disk.node? here = some (.file content) := by
  rw [sight] at h
  cases hnode : disk.node? here with
  | none => simp [hnode, Sight.of] at h
  | some node =>
    cases node with
    | file held =>
      simp only [hnode, Sight.of, Sight.file.injEq] at h
      rw [h]
    | directory inside => simp [hnode, Sight.of] at h

theorem trail_eq_iff (here other : Location) (name : Text) (hbase : here.base = other.base) :
    other.trail.reverse = here.trail.reverse ++ [name] ↔ other = here.child name := by
  obtain ⟨base, trail⟩ := other
  obtain ⟨base', trail'⟩ := here
  obtain rfl : base' = base := hbase
  rw [← List.reverse_cons, List.reverse_inj]
  simp [Location.child]

/-- A file or an empty directory that is put into a directory shows at its own location only. -/
theorem sight_put_of_bare {disk : Disk} {here : Location} {name : Text} {node : Node}
    (hparent : disk.sight here = .directory) (hplace : disk.sight (here.child name) ≠ .directory)
    (hbare : node.IsBare) (other : Location) :
    (disk.put (here.child name) node).sight other =
      if other = here.child name then .of (some node) else disk.sight other := by
  rw [sight_eq, Location.child_trail, Location.child_base] at hplace
  rw [sight_eq, put, folder_setFolder, Location.child_trail, Location.child_base]
  by_cases hbase : here.base = other.base
  · rw [if_pos hbase, Folder.sight_put_of_bare hparent hplace hbare]
    simp only [trail_eq_iff here other name hbase, hbase, sight_eq]
  · have hne : other ≠ here.child name := fun heq => hbase (heq ▸ rfl)
    rw [if_neg hbase, if_neg hne, sight_eq]

theorem sight_put {disk : Disk} {here : Location} {name : Text}
    (hparent : disk.sight here = .directory) (hplace : disk.sight (here.child name) ≠ .directory)
    (content : Content) (other : Location) :
    (disk.put (here.child name) (.file content)).sight other =
      if other = here.child name then .file content else disk.sight other :=
  sight_put_of_bare hparent hplace (by trivial) other

/-- A file that is erased leaves nothing at its location and all else as it is. -/
theorem sight_eraseTree {disk : Disk} {here : Location} {name : Text}
    (hplace : disk.sight (here.child name) ≠ .directory) (other : Location) :
    (disk.eraseTree (here.child name)).sight other =
      if other = here.child name then .nothing else disk.sight other := by
  rw [sight_eq, Location.child_trail, Location.child_base] at hplace
  rw [sight_eq, eraseTree, folder_setFolder, Location.child_trail, Location.child_base]
  by_cases hbase : here.base = other.base
  · rw [if_pos hbase, Folder.sight_eraseAt hplace]
    simp only [trail_eq_iff here other name hbase, hbase, sight_eq]
  · have hne : other ≠ here.child name := fun heq => hbase (heq ▸ rfl)
    rw [if_neg hbase, if_neg hne, sight_eq]

/-! ## Where paths lead -/

/-- The location that names lead to, as far as every one stands in a directory. -/
def walk (disk : Disk) (here : Location) : List Text → Option Location
  | [] => some here
  | name :: rest =>
    if disk.sight here = .directory ∧ name.length ≤ Path.maxNameLength then
      if name = "." then disk.walk here rest
      else if name = ".." then disk.walk here.up rest
      else disk.walk (here.child name) rest
    else none

theorem follow_eq_ok_iff (disk : Disk) (here : Location) (names : List Text)
    (result : Location × Option Node) :
    disk.follow here (disk.node? here) names = .ok result ↔
      disk.walk here names = some result.1 ∧ result.2 = disk.node? result.1 := by
  induction names generalizing here with
  | nil =>
    obtain ⟨place, node?⟩ := result
    simp only [follow, walk, Except.ok.injEq, Prod.mk.injEq, Option.some.injEq]
    constructor
    · rintro ⟨rfl, rfl⟩
      exact ⟨rfl, rfl⟩
    · rintro ⟨rfl, rfl⟩
      exact ⟨rfl, rfl⟩
  | cons name rest ih =>
    rw [walk, sight]
    cases hnode : disk.node? here with
    | none => simp [follow, Sight.of]
    | some node =>
      cases node with
      | file content => simp [follow, Sight.of]
      | directory inside =>
        have hup := ih here.up
        have hchild := ih (here.child name)
        rw [node?_child hnode] at hchild
        have hsame := ih here
        rw [hnode] at hsame
        rw [follow]
        by_cases hlong : Path.maxNameLength < name.length
        · simp [hlong, Nat.not_le.2 hlong]
        · simp only [hlong, Nat.not_lt.1 hlong, Sight.of, if_false, and_self, if_true]
          split
          · exact hsame
          · split
            · exact hup
            · exact hchild

/-- Where names lead depends on the directories only. -/
theorem walk_congr {disk disk' : Disk}
    (h : ∀ place, disk'.sight place = .directory ↔ disk.sight place = .directory) (here : Location)
    (names : List Text) : disk'.walk here names = disk.walk here names := by
  induction names generalizing here with
  | nil => rfl
  | cons name rest ih => simp only [walk, h, ih]

theorem walk_append (disk : Disk) (here : Location) (names more : List Text) :
    disk.walk here (names ++ more) = (disk.walk here names).bind (disk.walk · more) := by
  induction names generalizing here with
  | nil => rfl
  | cons name rest ih =>
    simp only [List.cons_append, walk, ih]
    split
    · split
      · rfl
      · split <;> rfl
    · rfl

/-- The base that a path starts from. -/
def start (path : Text) : Location := ⟨if Path.isAbsolute path then .topmost else .working, []⟩

/-- The location of a path. -/
def place? (disk : Disk) (path : Text) : Option Location :=
  let seen := Path.visible path
  if seen.isEmpty || Path.lengthLimit ≤ seen.length then none
  else disk.walk (start seen) (Path.names seen)

theorem place?_congr {disk disk' : Disk}
    (h : ∀ place, disk'.sight place = .directory ↔ disk.sight place = .directory) (path : Text) :
    disk'.place? path = disk.place? path := by
  simp only [place?, walk_congr h]

theorem locate_eq_ok_iff (disk : Disk) (path : Text) (result : Location × Option Node) :
    disk.locate path = .ok result ↔
      disk.place? path = some result.1 ∧ result.2 = disk.node? result.1 := by
  simp only [locate, followNames, place?]
  by_cases hempty : (Path.visible path).isEmpty
  · simp [hempty]
  · by_cases hlong : Path.lengthLimit ≤ (Path.visible path).length
    · simp [hempty, hlong]
    · simp only [hempty, hlong, Bool.false_eq_true, if_false, decide_false, Bool.or_self]
      exact follow_eq_ok_iff ..

end Disk

end TradeReentry
