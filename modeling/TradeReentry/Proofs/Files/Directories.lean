import TradeReentry.Proofs.Files.Writes

/-!
# Making directories

Directories are made where nothing lies and change nothing else, also where making them is refused
half-way (`Disk.grown_makeDirectories`), so that all that could be read reads the same
(`Disk.Grown.file?_eq_some`). If nothing is refused, the path is that of a directory afterwards
(`Disk.isDirectory_of_makeDirectories`).
-/

namespace TradeReentry

open Files Ascii

namespace Files.Path

/-! ## The ends of names -/

/-- Whether a path has its names end at some places, the last one first. -/
inductive EndsAt : Text → List NameEnd → Prop where
  | nil {slashes : Text} (hslashes : ∀ c ∈ slashes, c = slash) : EndsAt slashes []
  | cons {above name slashes : Text} {ends : List NameEnd} (h : EndsAt above ends)
      (hopen : above = [] ∨ endsInSlash above = true) (hname : name ≠ []) (hplain : slash ∉ name)
      (hslashes : ∀ c ∈ slashes, c = slash) :
    EndsAt (above ++ name ++ slashes) (⟨(above ++ name).length, isDots name⟩ :: ends)

theorem endsInSlash_append_slash (t : Text) : endsInSlash (t ++ [slash]) = true := by
  simp [endsInSlash]

/-- One more slash ends no name. -/
theorem EndsAt.append_slash {t : Text} {ends : List NameEnd} (h : EndsAt t ends) :
    EndsAt (t ++ [slash]) ends := by
  have hmore : ∀ slashes : Text, (∀ c ∈ slashes, c = slash) → ∀ c ∈ slashes ++ [slash], c = slash := by
    simp only [List.mem_append, List.mem_singleton]
    rintro slashes hslashes c (hc | hc)
    · exact hslashes c hc
    · exact hc
  cases h with
  | nil hslashes => exact .nil (hmore _ hslashes)
  | cons h hopen hname hplain hslashes =>
    rw [List.append_assoc]
    exact .cons h hopen hname hplain (hmore _ hslashes)

theorem isDots_reverse (name : Text) : isDots name.reverse = isDots name := by
  have hdot : ("." : Text).reverse = "." ∧ (".." : Text).reverse = ".." := by decide
  have hone : name.reverse = "." ↔ name = "." := by rw [List.reverse_eq_iff, hdot.1]
  have htwo : name.reverse = ".." ↔ name = ".." := by rw [List.reverse_eq_iff, hdot.2]
  simp only [isDots, hone, htwo]

/-- A name ends where the next byte is a slash or nothing. -/
theorem endsAt_close {above name : Text} {found : List NameEnd} (h : EndsAt above found)
    (hopen : above = [] ∨ endsInSlash above = true) (hplain : slash ∉ name) :
    EndsAt (above ++ name.reverse) (nameEnds.close found (above.length + name.length) name) := by
  rw [nameEnds.close]
  split
  · next hempty =>
    rw [List.isEmpty_iff.1 hempty, List.reverse_nil, List.append_nil]
    exact h
  · next hname =>
    have hends : EndsAt (above ++ name.reverse ++ []) _ :=
      .cons h hopen (by simpa using hname) (by simpa using hplain) (by simp)
    rwa [List.append_nil, isDots_reverse, List.length_append, List.length_reverse] at hends

theorem endsAt_go {above name : Text} {found : List NameEnd} (h : EndsAt above found)
    (hopen : above = [] ∨ endsInSlash above = true) (hplain : slash ∉ name) (rest : Text) :
    EndsAt (above ++ name.reverse ++ rest)
      (nameEnds.go found (above.length + name.length) name rest) := by
  induction rest generalizing above name found with
  | nil =>
    rw [List.append_nil]
    exact endsAt_close h hopen hplain
  | cons c rest ih =>
    rw [nameEnds.go]
    split
    · next hc =>
      subst hc
      have hends := ih (endsAt_close h hopen hplain).append_slash
        (.inr (endsInSlash_append_slash _)) List.not_mem_nil
      simpa [Nat.add_assoc] using hends
    · next hc =>
      have hmore : slash ∉ c :: name := by simp [hplain, Ne.symm hc]
      have hends := ih h hopen hmore
      simpa [Nat.add_assoc] using hends

theorem endsAt_nameEnds (path : Text) : EndsAt path (nameEnds path) :=
  endsAt_go (.nil (by simp)) (.inl rfl) List.not_mem_nil path

end Files.Path

namespace Disk

/-! ## Disks with more directories -/

/-- Whether a second disk differs from a first one by directories only, where nothing lay. -/
def Grown (disk disk' : Disk) : Prop :=
  ∀ place, disk'.sight place = disk.sight place ∨
    (disk.sight place = .nothing ∧ disk'.sight place = .directory)

namespace Grown

variable {disk disk' disk'' : Disk}

theorem refl (disk : Disk) : Grown disk disk := fun _ => .inl rfl

theorem trans (h : Grown disk disk') (h' : Grown disk' disk'') : Grown disk disk'' := by
  intro place
  have hfirst := h place
  have hsecond := h' place
  grind

theorem sight_eq_directory (h : Grown disk disk') {place : Location}
    (hplace : disk.sight place = .directory) : disk'.sight place = .directory := by
  have := h place
  grind

/-- No file changes, and none appears or goes. -/
theorem sight_eq_file_iff (h : Grown disk disk') {place : Location} {content : Content} :
    disk'.sight place = .file content ↔ disk.sight place = .file content := by
  have := h place
  grind

theorem walk_eq_some (h : Grown disk disk') {names : List Text} {here place : Location}
    (hwalk : disk.walk here names = some place) : disk'.walk here names = some place := by
  induction names generalizing here with
  | nil => exact hwalk
  | cons name rest ih =>
    rw [walk] at hwalk ⊢
    split at hwalk
    · next hhere =>
      rw [if_pos ⟨h.sight_eq_directory hhere.1, hhere.2⟩]
      grind
    · simp at hwalk

/-- Every path that led somewhere leads there still. -/
theorem place?_eq_some (h : Grown disk disk') {path : Text} {place : Location}
    (hplace : disk.place? path = some place) : disk'.place? path = some place := by
  simp only [place?] at hplace ⊢
  split at hplace
  · simp at hplace
  · next hfits =>
    rw [if_neg hfits]
    exact h.walk_eq_some hplace

theorem sightAt_eq_directory (h : Grown disk disk') {path : Text}
    (hpath : disk.sightAt path = .directory) : disk'.sightAt path = .directory := by
  obtain ⟨place, hplace, hsight⟩ := sightAt_eq_directory_iff.1 hpath
  exact sightAt_eq_directory_iff.2 ⟨place, h.place?_eq_some hplace, h.sight_eq_directory hsight⟩

theorem lookup_eq_file (h : Grown disk disk') {path : Text} {content : Content}
    (hlookup : disk.lookup path = .ok (.file content)) : disk'.lookup path = .ok (.file content) := by
  rw [lookup_eq_file_iff, sightAt_eq_file_iff] at hlookup ⊢
  obtain ⟨⟨place, hplace, hsight⟩, hslash⟩ := hlookup
  exact ⟨⟨place, h.place?_eq_some hplace, h.sight_eq_file_iff.2 hsight⟩, hslash⟩

/-- The files hold what they held. -/
theorem file?_eq_some (h : Grown disk disk') {path t : Text} (hfile : disk.file? path = some t) :
    disk'.file? path = some t := by
  obtain ⟨content, hlookup, rfl⟩ := file?_eq_some_iff.1 hfile
  exact file?_eq_some_iff.2 ⟨content, h.lookup_eq_file hlookup, rfl⟩

end Grown

/-! ## Slashes and dots at the end of a path -/

variable {disk disk' : Disk}

theorem sightAt_congr {path path' : Text} (h : Path.visible path = Path.visible path') :
    disk.sightAt path = disk.sightAt path' := by
  simp only [sightAt, place?, h]

theorem sightAt_visible (disk : Disk) (path : Text) :
    disk.sightAt (Path.visible path) = disk.sightAt path := by
  apply sightAt_congr
  rw [Path.visible, Path.visible, List.takeWhile_takeWhile]
  simp

theorem start_append {t : Text} (hne : t ≠ []) (u : Text) : start (t ++ u) = start t := by
  cases t with
  | nil => exact absurd rfl hne
  | cons c rest => rfl

theorem not_zero_of_slashes {slashes : Text} (hslashes : ∀ c ∈ slashes, c = slash) :
    (0 : UInt8) ∉ slashes := fun h => absurd (hslashes 0 h) (by decide)

theorem names_append_slashes (t : Text) {slashes : Text} (hslashes : ∀ c ∈ slashes, c = slash) :
    Path.names (t ++ slashes) = Path.names t := by
  induction slashes generalizing t with
  | nil => rw [List.append_nil]
  | cons c rest ih =>
    obtain ⟨rfl, hrest⟩ := List.forall_mem_cons.1 hslashes
    rw [List.append_cons, ih _ hrest, Path.names_append, Path.names_nil, List.append_nil]

/-- What a path without a zero byte shows. -/
theorem sightAt_eq_walk {path : Text} (hne : path ≠ []) (hzero : (0 : UInt8) ∉ path)
    (hfits : path.length < Path.lengthLimit) :
    disk.sightAt path = .directory ↔ ∃ place, disk.walk (start path) (Path.names path) = some place ∧
      disk.sight place = .directory := by
  rw [sightAt_eq_directory_iff]
  simp only [place?, Path.visible_of_not_zero hzero]
  rw [if_neg (by simp [hne, Nat.not_le.2 hfits])]

theorem visible_take (t u : Text) : (Path.visible (t ++ u)).take t.length = Path.visible t := by
  rw [Path.visible, List.take_takeWhile, List.take_left, Path.visible]

theorem length_visible_le (t u : Text) :
    (Path.visible t).length ≤ (Path.visible (t ++ u)).length := by
  rw [← visible_take t u]
  exact List.length_take_le' ..

/-- Slashes are the path of the topmost directory. -/
theorem sightAt_slashes {slashes : Text} (hne : slashes ≠ []) (hslashes : ∀ c ∈ slashes, c = slash)
    (hfits : slashes.length < Path.lengthLimit) : disk.sightAt slashes = .directory := by
  rw [sightAt_eq_walk hne (not_zero_of_slashes hslashes) hfits]
  have hnames : Path.names slashes = [] := names_append_slashes [] hslashes
  exact ⟨start slashes, by rw [hnames, walk], sight_base disk _⟩

theorem sightAt_append_slashes {t slashes : Text} (hne : t ≠ []) (hslashes : ∀ c ∈ slashes, c = slash)
    (hfits : (Path.visible (t ++ slashes)).length < Path.lengthLimit)
    (h : disk.sightAt t = .directory) : disk.sightAt (t ++ slashes) = .directory := by
  by_cases hzero : (0 : UInt8) ∈ t
  · rw [sightAt_congr (Path.visible_append hzero slashes), h]
  · have hzero' : (0 : UInt8) ∉ t ++ slashes := by simp [hzero, not_zero_of_slashes hslashes]
    have hshort := (length_visible_le t slashes).trans_lt hfits
    rw [Path.visible_of_not_zero hzero'] at hfits
    rw [Path.visible_of_not_zero hzero] at hshort
    rw [sightAt_eq_walk hne hzero hshort] at h
    rwa [sightAt_eq_walk (by simp [hne]) hzero' hfits, start_append hne,
      names_append_slashes t hslashes]

/-- A dot stays in a directory, and two dots lead to one. -/
theorem walk_dots {name : Text} (hdots : Path.isDots name = true) {here : Location}
    (h : disk.sight here = .directory) :
    ∃ place, disk.walk here [name] = some place ∧ disk.sight place = .directory := by
  have hshort : name.length ≤ Path.maxNameLength := by
    simp only [Path.isDots, Bool.or_eq_true, decide_eq_true_eq] at hdots
    rcases hdots with rfl | rfl <;> decide
  simp only [Path.isDots, Bool.or_eq_true, decide_eq_true_eq] at hdots
  simp only [walk, if_pos (And.intro h hshort)]
  by_cases hone : name = "."
  · exact ⟨here, by rw [if_pos hone], h⟩
  · exact ⟨here.up, by rw [if_neg hone, if_pos (hdots.resolve_left hone)], sight_up h⟩

theorem names_dots {name : Text} (hdots : Path.isDots name = true) :
    Path.names name = [name] ∧ (0 : UInt8) ∉ name := by
  simp only [Path.isDots, Bool.or_eq_true, decide_eq_true_eq] at hdots
  rcases hdots with rfl | rfl <;> decide

theorem sightAt_append_dots {above name : Text} (hdots : Path.isDots name = true)
    (hfits : (Path.visible (above ++ name)).length < Path.lengthLimit)
    (h : above = [] ∨ Path.endsInSlash above = true ∧ disk.sightAt above = .directory) :
    disk.sightAt (above ++ name) = .directory := by
  obtain ⟨hnames, hplain⟩ := names_dots hdots
  have hne : name ≠ [] := by
    rintro rfl
    exact absurd hdots (by decide)
  rcases h with rfl | ⟨hopen, hdirectory⟩
  · rw [List.nil_append, Path.visible_of_not_zero hplain] at hfits
    rw [List.nil_append, sightAt_eq_walk hne hplain hfits, hnames]
    exact walk_dots hdots (sight_base disk _)
  · by_cases hzero : (0 : UInt8) ∈ above
    · rw [sightAt_congr (Path.visible_append hzero name), hdirectory]
    · have hzero' : (0 : UInt8) ∉ above ++ name := by simp [hzero, hplain]
      have hshort := (length_visible_le above name).trans_lt hfits
      rw [Path.visible_of_not_zero hzero'] at hfits
      rw [Path.visible_of_not_zero hzero] at hshort
      rw [Path.endsInSlash, decide_eq_true_eq] at hopen
      obtain ⟨before, rfl⟩ := List.getLast?_eq_some_iff.1 hopen
      rw [sightAt_eq_walk (by simp) hzero hshort, Path.names_append, Path.names_nil,
        List.append_nil] at hdirectory
      obtain ⟨here, hwalk, hhere⟩ := hdirectory
      rw [sightAt_eq_walk (by simp) hzero' hfits, start_append (by simp), ← List.append_cons,
        Path.names_append, hnames, walk_append, hwalk]
      exact walk_dots hdots hhere

/-! ## Making directories -/

theorem makeDirectory_spec {path : Text} (h : disk.makeDirectory path = .ok disk') :
    Grown disk disk' ∧ disk'.sightAt path = .directory := by
  obtain ⟨⟨place, node?⟩, hlocate, h⟩ := bind_eq_ok_iff.1 h
  obtain ⟨hplace, hnode⟩ := (disk.locate_eq_ok_iff path _).1 hlocate
  have hsight : disk.sight place = .of node? := by
    rw [sight, ← hnode]
  split at h
  · next location heq =>
    obtain ⟨rfl, rfl⟩ := Prod.mk.inj heq
    obtain rfl := Except.ok.inj h
    obtain ⟨here, name, rfl, hhere⟩ := exists_child_of_place? hplace (by simp [hsight, Sight.of])
    have hplain : disk.sight (here.child name) ≠ .directory := by simp [hsight, Sight.of]
    have hbare : (Node.directory .empty).IsBare := rfl
    have hput := sight_put_of_bare hhere hplain hbare
    have hgrown : Grown disk (disk.put (here.child name) (.directory .empty)) := by
      intro other
      rw [hput]
      split
      · next hother => exact .inr ⟨hother ▸ hsight, rfl⟩
      · exact .inl rfl
    refine ⟨hgrown, sightAt_eq_directory_iff.2 ⟨_, hgrown.place?_eq_some hplace, ?_⟩⟩
    rw [hput, if_pos rfl, Sight.of]
  · next location inside heq =>
    obtain ⟨rfl, rfl⟩ := Prod.mk.inj heq
    obtain rfl := Except.ok.inj h
    exact ⟨.refl disk, sightAt_eq_directory_iff.2 ⟨place, hplace, by rw [hsight, Sight.of]⟩⟩
  · simp at h

theorem grown_makeEach (disk : Disk) (paths : List Text) : Grown disk (disk.makeEach paths).1 := by
  induction paths generalizing disk with
  | nil => exact .refl disk
  | cons path rest ih =>
    rw [makeEach]
    split
    · exact .refl disk
    · next made hmake => exact (makeDirectory_spec hmake).1.trans (ih made)

/-- Directories that were all made are there. -/
theorem sightAt_of_makeEach {paths : List Text} (h : disk.makeEach paths = (disk', none)) :
    ∀ path ∈ paths, disk'.sightAt path = .directory := by
  induction paths generalizing disk with
  | nil => simp
  | cons path rest ih =>
    rw [makeEach] at h
    split at h
    · simp at h
    · next made hmake =>
      have hgrown := grown_makeEach made rest
      rw [h] at hgrown
      exact List.forall_mem_cons.2
        ⟨hgrown.sightAt_eq_directory (makeDirectory_spec hmake).2, ih h⟩

/-- A path whose last name is that of a directory, seen up to the end of that name. -/
theorem sightAt_of_take {path : Text} {last : Path.NameEnd} {ends : List Path.NameEnd}
    (h : Path.EndsAt path (last :: ends)) {more : Text}
    (hfits : (Path.visible (path ++ more)).length < Path.lengthLimit)
    (hdirectory : disk.sightAt ((Path.visible (path ++ more)).take last.length) = .directory) :
    disk.sightAt path = .directory := by
  cases h with
  | @cons above name slashes _ _ _ hname _ hslashes =>
    rw [List.append_assoc _ slashes, visible_take, sightAt_visible] at hdirectory
    exact sightAt_append_slashes (by simp [hname]) hslashes
      ((length_visible_le _ more).trans_lt hfits) hdirectory

/-- Whether a path, unless it is empty, is that of a directory once some paths are. -/
def Suffices (disk : Disk) (made : List Text) (path : Text) : Prop :=
  ∀ disk', Grown disk disk' → (∀ p ∈ made, disk'.sightAt p = .directory) →
    path = [] ∨ disk'.sightAt path = .directory

/-- Of a name that is dots nothing has to be made, and the directory above is enough. -/
theorem Suffices.append_dots {made : List Text} {above name slashes : Text}
    (h : disk.Suffices made above) (hdots : Path.isDots name = true)
    (hopen : above = [] ∨ Path.endsInSlash above = true) (hname : name ≠ [])
    (hslashes : ∀ c ∈ slashes, c = slash)
    (hfits : (Path.visible (above ++ name ++ slashes)).length < Path.lengthLimit) :
    disk.Suffices made (above ++ name ++ slashes) := by
  intro disk' hgrown hmade
  have habove := h disk' hgrown hmade
  refine .inr (sightAt_append_slashes (by simp [hname]) hslashes hfits ?_)
  refine sightAt_append_dots hdots ((length_visible_le _ slashes).trans_lt hfits) ?_
  grind

/-- On the way up, the path of a name is collected unless it is dots, and the way ends below a directory
that is there. -/
theorem missingUpward_cons {seen : Text} {below missing : List Text} {allowance : Nat}
    {last : Path.NameEnd} {rest : List Path.NameEnd}
    (h : disk.missingUpward seen below allowance (last :: rest) = .ok missing) :
    let more := if last.dots then below else seen.take last.length :: below
    (∃ above others, rest = above :: others ∧
      disk.sightAt (seen.take above.length) = .directory ∧ missing = more) ∨
      ∃ allowance', disk.missingUpward seen more allowance' rest = .ok missing := by
  intro more
  rw [missingUpward] at h
  split at h
  · simp at h
  cases rest with
  | nil => exact .inr ⟨allowance, h⟩
  | cons above others =>
    simp only at h
    split at h
    · next inside hlookup =>
      exact .inl ⟨above, others, rfl, exists_lookup_directory_iff.1 ⟨inside, hlookup⟩,
        (Except.ok.inj h).symm⟩
    · simp at h
    · exact .inr ⟨_, h⟩
    · exact .inr ⟨_, h⟩
    · simp at h

/-- The paths that are collected on the way up from a directory: whoever makes them makes it. The
path may go on, and only what is seen of it counts. -/
theorem missingUpward_spec {path : Text} {ends : List Path.NameEnd} (h : Path.EndsAt path ends)
    {more : Text} (hfits : (Path.visible (path ++ more)).length < Path.lengthLimit)
    {below missing : List Text} {allowance : Nat}
    (hmissing : disk.missingUpward (Path.visible (path ++ more)) below allowance ends = .ok missing) :
    ∃ made, missing = made ++ below ∧ disk.Suffices made path := by
  have hshort := (length_visible_le path more).trans_lt hfits
  induction h generalizing more below missing allowance with
  | @nil slashes hslashes =>
    obtain rfl := Except.ok.inj hmissing
    refine ⟨[], rfl, fun disk' _ _ => ?_⟩
    by_cases hnil : slashes = []
    · exact .inl hnil
    · rw [Path.visible_of_not_zero (not_zero_of_slashes hslashes)] at hshort
      exact .inr (sightAt_slashes hnil hslashes hshort)
  | @cons above name slashes ends habove hopen hname hplain hslashes ih =>
    have hends := Path.EndsAt.cons habove hopen hname hplain hslashes
    have hsplit : above ++ name ++ slashes ++ more = above ++ (name ++ (slashes ++ more)) := by simp
    obtain ⟨made, hmade, hsuffices⟩ : ∃ made, missing = made ++ (if Path.isDots name then below else
        (Path.visible (above ++ name ++ slashes ++ more)).take (above ++ name).length :: below) ∧
          disk.Suffices made above := by
      rcases missingUpward_cons hmissing with ⟨last, others, rfl, hthere, rfl⟩ | ⟨allowance', hupward⟩
      · rw [hsplit] at hfits hthere
        exact ⟨[], rfl, fun disk' hgrown _ =>
          .inr (hgrown.sightAt_eq_directory (sightAt_of_take habove hfits hthere))⟩
      · rw [hsplit] at hfits hupward ⊢
        exact ih hfits hupward ((length_visible_le above _).trans_lt hfits)
    cases hdots : Path.isDots name with
    | true =>
      exact ⟨made, by simpa [hdots] using hmade, hsuffices.append_dots hdots hopen hname hslashes hshort⟩
    | false =>
      refine ⟨made ++ [_], by simpa [hdots] using hmade, fun disk' _ h => .inr ?_⟩
      exact sightAt_of_take hends hfits (h _ (by simp))

/-- A path that is too long as a whole is refused for that. -/
theorem length_visible_lt {path : Text} {cause : Refusal} (h : disk.lookup path = .error cause)
    (hcause : cause ≠ .nameTooLong) : (Path.visible path).length < Path.lengthLimit := by
  by_contra hlong
  rw [Nat.not_lt] at hlong
  have hne : Path.visible path ≠ [] := by
    intro hnil
    rw [hnil] at hlong
    exact absurd hlong (by decide)
  refine hcause ?_
  simpa [lookup, locate, followNames, hne, hlong, bind, Except.bind] using h.symm

/-- How making a directory and those above it goes: it is there, or that is refused before anything is
made, or those that are missing are made. -/
inductive Making (disk : Disk) (path : Text) : Disk × Option Refusal → Prop where
  | there (hthere : disk.sightAt path = .directory) : Making disk path (disk, none)
  | refused (cause : Refusal) : Making disk path (disk, some cause)
  | missing (paths : List Text) (hne : path ≠ [])
      (hfits : (Path.visible path).length < Path.lengthLimit)
      (hpaths : disk.missingUpward (Path.visible path) [] makeLimit (Path.nameEnds path) = .ok paths) :
    Making disk path (disk.makeEach paths)

theorem making (disk : Disk) (path : Text) : Making disk path (disk.makeDirectories path) := by
  unfold makeDirectories
  split
  · exact .refused _
  next hne =>
  rw [List.isEmpty_iff] at hne
  split
  · next inside hlookup => exact .there (exists_lookup_directory_iff.1 ⟨inside, hlookup⟩)
  · exact .refused _
  · next hlookup =>
    split
    · exact .refused _
    · next hpaths => exact .missing _ hne (length_visible_lt hlookup (by simp)) hpaths
  · next hlookup =>
    split
    · exact .refused _
    · next hpaths => exact .missing _ hne (length_visible_lt hlookup (by simp)) hpaths
  · exact .refused _

/-- Making a directory makes directories only. -/
theorem grown_makeDirectories (disk : Disk) (path : Text) :
    Grown disk (disk.makeDirectories path).1 := by
  have hmaking := making disk path
  generalize disk.makeDirectories path = made at hmaking
  cases hmaking with
  | there _ => exact .refl disk
  | refused _ => exact .refl disk
  | missing paths _ _ _ => exact grown_makeEach disk paths

/-- A directory that could be made is there. -/
theorem isDirectory_of_makeDirectories {path : Text} (h : disk.makeDirectories path = (disk', none)) :
    disk'.isDirectory path = true := by
  rw [isDirectory_iff]
  have hmaking := making disk path
  rw [h] at hmaking
  generalize hstep : (disk', (none : Option Refusal)) = step at hmaking
  cases hmaking with
  | there hthere =>
    obtain ⟨rfl, -⟩ := Prod.mk.inj hstep
    exact hthere
  | refused cause => simp at hstep
  | missing paths hne hfits hpaths =>
    have hends := Path.endsAt_nameEnds path
    rw [← List.append_nil path] at hfits hpaths
    obtain ⟨made, hmade, hsuffices⟩ := missingUpward_spec (by simpa using hends) hfits hpaths
    rw [List.append_nil] at hmade
    have hgrown := grown_makeEach disk paths
    rw [← hstep] at hgrown
    exact (hsuffices disk' hgrown fun p hp =>
      sightAt_of_makeEach hstep.symm p (hmade ▸ hp)).resolve_left (by simpa using hne)

end Disk

end TradeReentry
