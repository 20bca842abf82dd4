import TradeReentry.Proofs.Files.Sights
import TradeReentry.Proofs.Results

/-!
# What writing does to the paths of a disk

Appending to a file and creating one change what a single location shows (`Disk.append_spec`,
`Disk.create_spec`), and renaming moves a file (`Disk.rename_spec`). None of them makes or removes a
directory, so that every path leads where it led before.
-/

namespace TradeReentry

open Files

namespace Disk

/-- What a path shows. -/
def sightAt (disk : Disk) (path : Text) : Sight :=
  match disk.place? path with
  | none => .nothing
  | some place => disk.sight place

theorem sightAt_eq_file_iff {disk : Disk} {path : Text} {content : Content} :
    disk.sightAt path = .file content ↔
      ∃ place, disk.place? path = some place ∧ disk.sight place = .file content := by
  unfold sightAt
  cases disk.place? path <;> simp

theorem sightAt_eq_directory_iff {disk : Disk} {path : Text} :
    disk.sightAt path = .directory ↔
      ∃ place, disk.place? path = some place ∧ disk.sight place = .directory := by
  unfold sightAt
  cases disk.place? path <;> simp

theorem lookup_eq_ok_iff {disk : Disk} {path : Text} {node : Node} :
    disk.lookup path = .ok node ↔
      (∃ place, disk.place? path = some place ∧ disk.node? place = some node) ∧
        (∀ content, node = .file content → Path.endsInSlash (Path.visible path) = false) := by
  have hlocate := disk.locate_eq_ok_iff path
  rw [lookup]
  cases hl : disk.locate path with
  | error cause =>
    have hnone : ∀ place, disk.place? path ≠ some place := by
      intro place hplace
      have := (hlocate (place, disk.node? place)).2 ⟨hplace, rfl⟩
      simp [hl] at this
    simp [hnone, bind, Except.bind]
  | ok result =>
    obtain ⟨place, node?⟩ := result
    obtain ⟨hplace, hnode⟩ := (hlocate (place, node?)).1 hl
    simp only at hplace hnode
    rw [hplace]
    subst hnode
    simp only [bind, Except.bind, Option.some.injEq, exists_eq_left']
    cases hn : disk.node? place with
    | none => simp
    | some found =>
      cases found with
      | file content =>
        cases hslash : Path.endsInSlash (Path.visible path)
        · simp
        · simp only [if_true, reduceCtorEq, Option.some.injEq, false_iff, not_and]
          rintro rfl
          simp
      | directory inside =>
        simp only [Except.ok.injEq, Option.some.injEq]
        constructor
        · rintro rfl
          simp
        · exact And.left

theorem lookup_eq_file_iff {disk : Disk} {path : Text} {content : Content} :
    disk.lookup path = .ok (.file content) ↔
      disk.sightAt path = .file content ∧ Path.endsInSlash (Path.visible path) = false := by
  rw [lookup_eq_ok_iff, sightAt_eq_file_iff]
  constructor
  · rintro ⟨⟨place, hplace, hnode⟩, hslash⟩
    exact ⟨⟨place, hplace, by rw [sight, hnode, Sight.of]⟩, hslash content rfl⟩
  · rintro ⟨⟨place, hplace, hsight⟩, hslash⟩
    exact ⟨⟨place, hplace, node?_of_sight_file hsight⟩, fun _ _ => hslash⟩

theorem exists_lookup_directory_iff {disk : Disk} {path : Text} :
    (∃ inside, disk.lookup path = .ok (.directory inside)) ↔ disk.sightAt path = .directory := by
  rw [sightAt_eq_directory_iff]
  constructor
  · rintro ⟨inside, h⟩
    obtain ⟨⟨place, hplace, hnode⟩, -⟩ := lookup_eq_ok_iff.1 h
    exact ⟨place, hplace, by rw [sight, hnode, Sight.of]⟩
  · rintro ⟨place, hplace, hsight⟩
    obtain ⟨inside, hnode⟩ := node?_of_sight_directory hsight
    exact ⟨inside, lookup_eq_ok_iff.2 ⟨⟨place, hplace, hnode⟩, by simp⟩⟩

theorem isDirectory_iff {disk : Disk} {path : Text} :
    disk.isDirectory path = true ↔ disk.sightAt path = .directory := by
  rw [← exists_lookup_directory_iff, isDirectory, openDirectory]
  cases disk.lookup path with
  | error cause => simp [bind, Except.bind]
  | ok node => cases node <;> simp [bind, Except.bind]

/-! ## Locations of paths -/

/-- Whether a location is a directory or the place of a name in one. -/
def Rooted (disk : Disk) (place : Location) : Prop :=
  disk.sight place = .directory ∨
    ∃ here name, place = here.child name ∧ disk.sight here = .directory

theorem sight_base (disk : Disk) (base : Base) : disk.sight ⟨base, []⟩ = .directory := rfl

theorem sight_up {disk : Disk} {here : Location} (h : disk.sight here = .directory) :
    disk.sight here.up = .directory := by
  obtain ⟨base, trail⟩ := here
  cases trail with
  | nil => cases base <;> exact sight_base disk _
  | cons name trail =>
    rw [sight_eq, List.reverse_cons, Folder.sight, Folder.node?_concat] at h
    show Sight.of ((disk.folder base).node? trail.reverse) = _
    split at h
    · next inside hnode =>
      show Sight.of ((disk.folder base).node? trail.reverse) = _
      rw [show (disk.folder base).node? trail.reverse = _ from hnode, Sight.of]
    · simp [Sight.of] at h

theorem rooted_of_walk {disk : Disk} {names : List Text} {here place : Location}
    (h : disk.Rooted here) (hwalk : disk.walk here names = some place) : disk.Rooted place := by
  induction names generalizing here with
  | nil =>
    rw [walk, Option.some.injEq] at hwalk
    exact hwalk ▸ h
  | cons name rest ih =>
    rw [walk] at hwalk
    split at hwalk
    · next hhere =>
      split at hwalk
      · exact ih h hwalk
      · split at hwalk
        · exact ih (.inl (sight_up hhere.1)) hwalk
        · exact ih (.inr ⟨here, name, rfl, hhere.1⟩) hwalk
    · simp at hwalk

theorem rooted_of_place? {disk : Disk} {path : Text} {place : Location}
    (h : disk.place? path = some place) : disk.Rooted place := by
  simp only [place?] at h
  split at h
  · simp at h
  · exact rooted_of_walk (.inl (sight_base disk _)) h

/-- A place of a path that is no directory is that of a name in a directory. -/
theorem exists_child_of_place? {disk : Disk} {path : Text} {place : Location}
    (h : disk.place? path = some place) (hplace : disk.sight place ≠ .directory) :
    ∃ here name, place = here.child name ∧ disk.sight here = .directory :=
  (rooted_of_place? h).resolve_left hplace

/-! ## Writing -/

/-- Whether two disks differ by what lies at a location, where the second one has a file. -/
structure Wrote (disk disk' : Disk) (place : Location) (content : Content) : Prop where
  not_directory : disk.sight place ≠ .directory
  sight_eq : ∀ other, disk'.sight other = if other = place then .file content else disk.sight other

namespace Wrote

variable {disk disk' : Disk} {place : Location} {content : Content}

theorem directory_iff (h : Wrote disk disk' place content) (other : Location) :
    disk'.sight other = .directory ↔ disk.sight other = .directory := by
  rw [h.sight_eq]
  split
  · next heq => simpa [heq] using h.not_directory
  · rfl

end Wrote

theorem wrote_put {disk : Disk} {path : Text} {place : Location} (h : disk.place? path = some place)
    (hplace : disk.sight place ≠ .directory) (content : Content) :
    Wrote disk (disk.put place (.file content)) place content := by
  obtain ⟨here, name, rfl, hhere⟩ := exists_child_of_place? h hplace
  exact ⟨hplace, sight_put hhere hplace content⟩

theorem append_spec {disk disk' : Disk} {path data : Text} (h : disk.append path data = .ok disk') :
    ∃ place content, disk.place? path = some place ∧ disk.sight place = .file content ∧
      Wrote disk disk' place (content.append data) := by
  obtain ⟨node, hlookup, h⟩ := bind_eq_ok_iff.1 h
  cases node with
  | directory inside => simp at h
  | file content =>
    obtain ⟨result, hlocate, h⟩ := bind_eq_ok_iff.1 h
    obtain ⟨place, node?⟩ := result
    obtain ⟨hplace, -⟩ := (disk.locate_eq_ok_iff path _).1 hlocate
    obtain ⟨⟨place', hplace', hnode⟩, -⟩ := lookup_eq_ok_iff.1 hlookup
    obtain rfl : place = place' := Option.some.inj (hplace.symm.trans hplace')
    have hsight : disk.sight place = .file content := by rw [sight, hnode, Sight.of]
    obtain rfl := Except.ok.inj h
    exact ⟨place, content, hplace, hsight, wrote_put hplace (by simp [hsight]) _⟩

/-- What is found at a path that is no directory. -/
theorem not_directory_of_locate {disk : Disk} {path : Text} {place : Location} {node? : Option Node}
    (h : disk.locate path = .ok (place, node?)) (hnot : ∀ inside, node? ≠ some (.directory inside)) :
    disk.place? path = some place ∧ disk.sight place ≠ .directory := by
  obtain ⟨hplace, hnode⟩ := (disk.locate_eq_ok_iff path _).1 h
  refine ⟨hplace, ?_⟩
  intro hsight
  obtain ⟨inside, hinside⟩ := node?_of_sight_directory hsight
  exact hnot inside (hnode.trans hinside)

theorem create_spec {disk disk' : Disk} {path text : Text} (h : disk.create path text = .ok disk') :
    ∃ place, disk.place? path = some place ∧ Wrote disk disk' place (.ofText text) ∧
      Path.endsInSlash (Path.visible path) = false := by
  simp only [create] at h
  split at h
  · obtain ⟨-, -, h⟩ := bind_eq_ok_iff.1 h
    simp at h
  · next hslash =>
    obtain ⟨⟨place, node?⟩, hlocate, h⟩ := bind_eq_ok_iff.1 h
    split at h
    · simp at h
    · next location found hnot heq =>
      obtain ⟨rfl, rfl⟩ := Prod.mk.inj heq
      obtain ⟨hplace, hplain⟩ := not_directory_of_locate hlocate (by grind)
      obtain rfl := Except.ok.inj h
      exact ⟨place, hplace, wrote_put hplace hplain _, by simpa using hslash⟩

/-- A file that is renamed shows at its new path and no more at the old one. -/
theorem rename_spec {disk disk' : Disk} {source target : Text} {content : Content}
    (h : disk.rename source target = .ok disk') (hsource : disk.sightAt source = .file content) :
    ∃ old new, disk.place? source = some old ∧ disk.place? target = some new ∧
      disk.sight new ≠ .directory ∧
      ∀ other, disk'.sight other =
        if other = new then .file content
        else if other = old then .nothing else disk.sight other := by
  obtain ⟨node, hlookup, h⟩ := bind_eq_ok_iff.1 h
  obtain ⟨⟨old, oldNode?⟩, hold, h⟩ := bind_eq_ok_iff.1 h
  obtain ⟨⟨new, newNode?⟩, hnew, h⟩ := bind_eq_ok_iff.1 h
  obtain ⟨hplace, -⟩ := (disk.locate_eq_ok_iff source _).1 hold
  obtain ⟨place, hplace', hsight⟩ := sightAt_eq_file_iff.1 hsource
  obtain rfl : old = place := Option.some.inj (hplace.symm.trans hplace')
  split at h
  · simp at h
  · next location found hnot heq =>
    obtain ⟨rfl, rfl⟩ := Prod.mk.inj heq
    obtain ⟨htarget, hplain⟩ := not_directory_of_locate hnew (by grind)
    obtain rfl := Except.ok.inj h
    refine ⟨old, new, hplace, htarget, hplain, ?_⟩
    intro other
    have hnode : node = .file content := by
      obtain ⟨⟨place, hplace', hnode⟩, -⟩ := lookup_eq_ok_iff.1 hlookup
      obtain rfl : old = place := Option.some.inj (hplace.symm.trans hplace')
      exact Option.some.inj (hnode.symm.trans (node?_of_sight_file hsight))
    obtain ⟨above, first, rfl, -⟩ := exists_child_of_place? hplace (by simp [hsight])
    have hfile : disk.sight (above.child first) ≠ .directory := by simp [hsight]
    have herase := sight_eraseTree hfile
    obtain ⟨here, name, rfl, hhere⟩ := exists_child_of_place? htarget hplain
    have hparent : (disk.eraseTree (above.child first)).sight here = .directory := by
      rw [herase, if_neg, hhere]
      rintro rfl
      simp [hsight] at hhere
    have hempty : (disk.eraseTree (above.child first)).sight (here.child name) ≠ .directory := by
      rw [herase]
      split
      · simp
      · exact hplain
    rw [hnode, sight_put hparent hempty, herase]

/-! ## The files of a directory -/

theorem file?_eq_some_iff {disk : Disk} {path t : Text} :
    disk.file? path = some t ↔ ∃ content, disk.lookup path = .ok (.file content) ∧ content.text = t := by
  rw [file?]
  split
  · next content h => simp [h]
  · next hnot =>
    constructor
    · simp
    · rintro ⟨content, h, -⟩
      exact absurd h (hnot content)

theorem file?_eq_none_of_not_pathExists {disk : Disk} {path : Text}
    (h : disk.pathExists path = false) : disk.file? path = none := by
  rw [file?]
  split
  · next content hlookup => simp [pathExists, hlookup] at h
  · rfl

/-- What is there is a file or a directory. -/
theorem file?_eq_none_iff_isDirectory {disk : Disk} {path : Text} (h : disk.pathExists path = true) :
    disk.file? path = none ↔ disk.isDirectory path = true := by
  rw [pathExists] at h
  rw [file?, isDirectory, openDirectory]
  cases hlookup : disk.lookup path with
  | error cause => simp [hlookup] at h
  | ok node =>
    cases node with
    | file content => simp [bind, Except.bind]
    | directory inside => simp [bind, Except.bind]

theorem pathExists_of_isDirectory {disk : Disk} {path : Text} (h : disk.isDirectory path = true) :
    disk.pathExists path = true := by
  rw [isDirectory, openDirectory] at h
  rw [pathExists]
  cases hlookup : disk.lookup path with
  | error cause => simp [hlookup, bind, Except.bind] at h
  | ok node => rfl

variable {disk disk' : Disk} {directory name : Text}

/-- The place of a name in a directory is below that of the directory. -/
theorem place?_join (hzero : (0 : UInt8) ∉ directory) (hname : Path.IsName name)
    {place : Location} (h : disk.place? (Path.join directory name) = some place) :
    ∃ here, disk.walk (start directory) (Path.names directory) = some here ∧
      disk.sight here = .directory ∧ place = here.child name := by
  have hstart : start (Path.join directory name) = start directory := by
    rw [start, Path.isAbsolute_join hname, start]
  simp only [place?, Path.visible_of_not_zero (Path.not_zero_join hzero hname)] at h
  split at h
  · simp at h
  · rw [Path.names_join hname, hstart, walk_append] at h
    obtain ⟨here, hhere, h⟩ := Option.bind_eq_some_iff.1 h
    have hdots := hname.not_dots
    simp only [Path.isDots, Bool.or_eq_false_iff, decide_eq_false_iff_not] at hdots
    simp only [walk, hdots, if_false] at h
    split at h
    · next hd => exact ⟨here, hhere, hd.1, (Option.some.inj h).symm⟩
    · simp at h

/-- Different names in a directory have different places. -/
theorem place?_join_inj (hzero : (0 : UInt8) ∉ directory) (hname : Path.IsName name) {other : Text}
    (hother : Path.IsName other) {place : Location}
    (h : disk.place? (Path.join directory name) = some place)
    (h' : disk.place? (Path.join directory other) = some place) : name = other := by
  obtain ⟨here, hwalk, -, rfl⟩ := place?_join hzero hname h
  obtain ⟨here', hwalk', -, heq⟩ := place?_join hzero hother h'
  obtain rfl : here = here' := Option.some.inj (hwalk.symm.trans hwalk')
  exact Location.child_inj heq

/-- A directory whose path holds a zero byte is what the paths of its names show. -/
theorem sightAt_join_of_zero (hzero : (0 : UInt8) ∈ directory) (name : Text) :
    disk.sightAt (Path.join directory name) = disk.sightAt directory := by
  simp only [sightAt, place?, Path.visible_join hzero]

/-- A path without a zero byte that shows a file is the path of that file. -/
theorem file?_join_eq_some_iff (hzero : (0 : UInt8) ∉ directory) (hname : Path.IsName name)
    {t : Text} :
    disk.file? (Path.join directory name) = some t ↔
      ∃ content, disk.sightAt (Path.join directory name) = .file content ∧ content.text = t := by
  simp only [file?_eq_some_iff, lookup_eq_file_iff,
    Path.visible_of_not_zero (Path.not_zero_join hzero hname), Path.endsInSlash_join hname,
    and_true]

/-- A name that no file of a directory has. -/
theorem file?_join_of_not_mem {names : List Text} (hnames : disk.fileNames directory = .ok names)
    (hname : Path.IsName name) (hnot : name ∉ names) :
    disk.file? (Path.join directory name) = none := by
  obtain ⟨inside, hopen, rfl⟩ := map_eq_ok_iff.1 hnames
  obtain ⟨node, hlookup, hnode⟩ := bind_eq_ok_iff.1 hopen
  cases node with
  | file content => simp at hnode
  | directory inside' =>
    obtain rfl : inside' = inside := Except.ok.inj hnode
    rw [Option.eq_none_iff_forall_ne_some]
    intro t ht
    obtain ⟨content, hfile, -⟩ := file?_eq_some_iff.1 ht
    have hsight := (lookup_eq_file_iff.1 hfile).1
    by_cases hzero : (0 : UInt8) ∈ directory
    · rw [sightAt_join_of_zero hzero, exists_lookup_directory_iff.1 ⟨_, hlookup⟩] at hsight
      simp at hsight
    · obtain ⟨place, hplace, hsight⟩ := sightAt_eq_file_iff.1 hsight
      obtain ⟨here, hwalk, -, rfl⟩ := place?_join hzero hname hplace
      obtain ⟨⟨here', hplace', hnode'⟩, -⟩ := lookup_eq_ok_iff.1 hlookup
      simp only [place?, Path.visible_of_not_zero hzero] at hplace'
      split at hplace'
      · simp at hplace'
      · obtain rfl : here = here' := Option.some.inj (hwalk.symm.trans hplace')
        have hfind := node?_of_sight_file hsight
        rw [node?_child hnode'] at hfind
        exact hnot (Folder.mem_fileNames hfind)

/-- No file lies below what is no directory. The empty path is none, and names stand below it all the same. -/
theorem file?_join_of_not_isDirectory (hzero : (0 : UInt8) ∉ directory) (hne : directory ≠ [])
    (hname : Path.IsName name) (h : disk.isDirectory directory = false) :
    disk.file? (Path.join directory name) = none := by
  rw [Option.eq_none_iff_forall_ne_some]
  intro t ht
  obtain ⟨content, hsight, -⟩ := (file?_join_eq_some_iff hzero hname).1 ht
  obtain ⟨place, hplace, -⟩ := sightAt_eq_file_iff.1 hsight
  obtain ⟨here, hwalk, hhere, -⟩ := place?_join hzero hname hplace
  have hshort : directory.length ≤ (Path.join directory name).length := by
    rcases Path.join_eq directory name with ⟨hd, hj⟩ | ⟨above, ⟨hd, hj⟩ | ⟨hd, hj⟩⟩
    · exact absurd hd hne
    · rw [hj, hd]
      simp
    · rw [hj]
      simp
  have hdirectory : disk.place? directory = some here := by
    simp only [place?, Path.visible_of_not_zero hzero,
      Path.visible_of_not_zero (Path.not_zero_join hzero hname), List.isEmpty_iff, Bool.or_eq_true,
      decide_eq_true_eq] at hplace ⊢
    split at hplace
    · simp at hplace
    next hfits =>
    rw [not_or] at hfits
    rw [if_neg (not_or.2 ⟨hne, by omega⟩), hwalk]
  rw [isDirectory_iff.2 (sightAt_eq_directory_iff.2 ⟨here, hdirectory, hhere⟩)] at h
  exact absurd h (by decide)

theorem isDirectory_of_fileNames {names : List Text} (h : disk.fileNames directory = .ok names) :
    disk.isDirectory directory = true := by
  obtain ⟨inside, hopen, -⟩ := map_eq_ok_iff.1 h
  rw [isDirectory, hopen]

theorem isDirectory_congr (h : ∀ place, disk'.sight place = .directory ↔ disk.sight place = .directory)
    (path : Text) : disk'.isDirectory path = disk.isDirectory path := by
  rw [Bool.eq_iff_iff, isDirectory_iff, isDirectory_iff, sightAt_eq_directory_iff,
    sightAt_eq_directory_iff, place?_congr h]
  simp only [h]

end Disk

end TradeReentry
