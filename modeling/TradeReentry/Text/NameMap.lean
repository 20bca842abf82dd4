import TradeReentry.Text.Basic

/-!
Finite maps from names to values, listed in the byte order of the names.

The order belongs to the type, so that two maps with the same entries are equal however they were
built. `insert` replaces the value of a name; `find?_insert` says what every name then holds.
-/

namespace TradeReentry

/-- A finite map whose entries stand in the byte order of their names. -/
structure NameMap (α : Type) where
  entries : List (Text × α)
  sorted : entries.Pairwise (·.1 < ·.1)

namespace NameMap

variable {α β : Type}

instance [DecidableEq α] : DecidableEq (NameMap α) := fun m n =>
  decidable_of_iff (m.entries = n.entries) ⟨fun h => by cases m; cases n; simp_all, fun h => h ▸ rfl⟩

instance [Repr α] : Repr (NameMap α) := ⟨fun m => reprPrec m.entries⟩

def empty : NameMap α := ⟨[], .nil⟩

instance : Inhabited (NameMap α) := ⟨empty⟩

/-- The value that the first entry of a name holds. -/
def lookup (name : Text) (entries : List (Text × α)) : Option α :=
  (entries.find? (·.1 = name)).map (·.2)

def find? (m : NameMap α) (name : Text) : Option α := lookup name m.entries

def contains (m : NameMap α) (name : Text) : Bool := (m.find? name).isSome

def names (m : NameMap α) : List Text := m.entries.map (·.1)

def size (m : NameMap α) : Nat := m.entries.length

/-- Puts an entry at its place among sorted entries, in place of one with its name. -/
def insertEntry (name : Text) (value : α) : List (Text × α) → List (Text × α)
  | [] => [(name, value)]
  | (other, held) :: rest =>
    if name = other then (name, value) :: rest
    else if name < other then (name, value) :: (other, held) :: rest
    else (other, held) :: insertEntry name value rest

theorem name_of_mem_insertEntry {name : Text} {value : α} {entries : List (Text × α)}
    {e : Text × α} (h : e ∈ insertEntry name value entries) : e.1 = name ∨ e ∈ entries := by
  induction entries with
  | nil => simp_all [insertEntry]
  | cons head rest ih =>
    obtain ⟨other, held⟩ := head
    unfold insertEntry at h
    split at h
    · rcases List.mem_cons.1 h with rfl | h
      · exact .inl rfl
      · exact .inr (List.mem_cons_of_mem _ h)
    · split at h
      · rcases List.mem_cons.1 h with rfl | h
        · exact .inl rfl
        · exact .inr h
      · rcases List.mem_cons.1 h with rfl | h
        · exact .inr (List.mem_cons_self ..)
        · exact (ih h).imp id (List.mem_cons_of_mem _)

/-- One of two different names comes before the other. -/
theorem lt_of_not_lt {a b : Text} (hne : a ≠ b) (h : ¬a < b) : b < a := by
  rcases Decidable.em (b < a) with h' | h'
  · exact h'
  · exact absurd (List.le_antisymm (List.not_lt.1 h') (List.not_lt.1 h)) hne

theorem sorted_insertEntry (name : Text) (value : α) {entries : List (Text × α)}
    (h : entries.Pairwise (·.1 < ·.1)) : (insertEntry name value entries).Pairwise (·.1 < ·.1) := by
  induction entries with
  | nil => simp [insertEntry]
  | cons head rest ih =>
    obtain ⟨other, held⟩ := head
    have ⟨hhead, hrest⟩ := List.pairwise_cons.1 h
    unfold insertEntry
    split
    · next heq => exact List.pairwise_cons.2 ⟨fun e he => heq ▸ hhead e he, hrest⟩
    · next hne =>
      split
      · next hlt =>
        refine List.pairwise_cons.2 ⟨fun e he => ?_, h⟩
        rcases List.mem_cons.1 he with rfl | he
        · exact hlt
        · exact List.lt_trans hlt (hhead e he)
      · next hlt =>
        refine List.pairwise_cons.2 ⟨fun e he => ?_, ih hrest⟩
        rcases name_of_mem_insertEntry he with hname | he
        · exact hname ▸ lt_of_not_lt hne hlt
        · exact hhead e he

/-- The map with a name holding a value. -/
def insert (m : NameMap α) (name : Text) (value : α) : NameMap α :=
  ⟨insertEntry name value m.entries, sorted_insertEntry name value m.sorted⟩

/-- The map with a name holding a function of the value it held. -/
def modify (m : NameMap α) (name : Text) (initial : α) (f : α → α) : NameMap α :=
  m.insert name (f ((m.find? name).getD initial))

/-- The map without a name. -/
def erase (m : NameMap α) (name : Text) : NameMap α :=
  ⟨m.entries.filter (·.1 ≠ name), m.sorted.filter _⟩

/-- The map of some entries; of two entries with one name the later one stays. -/
def ofList (entries : List (Text × α)) : NameMap α :=
  entries.foldl (fun m (name, value) => m.insert name value) empty

theorem lookup_insertEntry (name other : Text) (value : α) (entries : List (Text × α)) :
    lookup other (insertEntry name value entries) =
      if name = other then some value else lookup other entries := by
  induction entries with
  | nil => by_cases h : name = other <;> simp [insertEntry, lookup, h]
  | cons head rest ih =>
    obtain ⟨key, held⟩ := head
    simp only [lookup, insertEntry] at ih ⊢
    by_cases h : name = key
    · subst h
      by_cases h' : name = other <;> simp [h']
    · by_cases hlt : name < key
      · rw [if_neg h, if_pos hlt]
        by_cases h' : name = other <;> simp [h']
      · rw [if_neg h, if_neg hlt]
        by_cases h' : key = other
        · have : name ≠ other := h' ▸ h
          simp [h', this]
        · simp [h', ih]

@[simp] theorem find?_empty (name : Text) : (empty : NameMap α).find? name = none := rfl

theorem find?_insert (m : NameMap α) (name other : Text) (value : α) :
    (m.insert name value).find? other = if name = other then some value else m.find? other :=
  lookup_insertEntry name other value m.entries

/-- Of the entries with a name, the last one counts. -/
theorem find?_ofList (entries : List (Text × α)) (name : Text) :
    (ofList entries).find? name = lookup name entries.reverse := by
  have hfold : ∀ m : NameMap α, (entries.foldl (fun m e => m.insert e.1 e.2) m).find? name =
      (lookup name entries.reverse).or (m.find? name) := by
    intro m
    induction entries generalizing m with
    | nil => rfl
    | cons e rest ih =>
      rw [List.foldl_cons, ih, find?_insert, List.reverse_cons]
      simp only [lookup, List.find?_append, List.find?_singleton]
      cases rest.reverse.find? (·.1 = name) with
      | some found => rfl
      | none => by_cases h : e.1 = name <;> simp [h]
  have h := hfold empty
  rw [find?_empty, Option.or_none] at h
  exact h

theorem find?_erase (m : NameMap α) (name other : Text) :
    (m.erase name).find? other = if name = other then none else m.find? other := by
  simp only [find?, lookup, erase, List.find?_filter]
  split
  · next h =>
    subst h
    simp [List.find?_eq_none]
  · next h =>
    congr 2
    funext e
    by_cases he : e.1 = other <;> simp [he, Ne.symm h]

theorem mem_iff_lookup {entries : List (Text × α)} (h : entries.Pairwise (·.1 < ·.1))
    (name : Text) (value : α) : (name, value) ∈ entries ↔ lookup name entries = some value := by
  unfold lookup
  induction entries with
  | nil => simp
  | cons head rest ih =>
    obtain ⟨key, held⟩ := head
    obtain ⟨hhead, hrest⟩ := List.pairwise_cons.1 h
    by_cases hkey : key = name
    · have hnot : (name, value) ∉ rest := fun he =>
        List.lt_irrefl name (hkey ▸ hhead (name, value) he)
      simp [hkey, hnot, eq_comm]
    · simp [hkey, Ne.symm hkey, ih hrest]

/-- The entries are the names with the values that they hold. -/
theorem mem_entries_iff (m : NameMap α) (name : Text) (value : α) :
    (name, value) ∈ m.entries ↔ m.find? name = some value := mem_iff_lookup m.sorted name value

/-- The names are those that hold a value. -/
theorem mem_names_iff (m : NameMap α) (name : Text) : name ∈ m.names ↔ m.contains name = true := by
  rw [names, contains, List.mem_map, Option.isSome_iff_exists]
  constructor
  · rintro ⟨⟨key, value⟩, hmem, rfl⟩
    exact ⟨value, (m.mem_entries_iff key value).1 hmem⟩
  · rintro ⟨value, hvalue⟩
    exact ⟨(name, value), (m.mem_entries_iff name value).2 hvalue, rfl⟩

theorem sorted_names (m : NameMap α) : m.names.Pairwise (· < ·) := List.pairwise_map.2 m.sorted

/-- No name is listed twice. -/
theorem nodup_names (m : NameMap α) : m.names.Nodup := by
  refine m.sorted_names.imp fun {first second} hlt heq => ?_
  exact List.lt_irrefl first (heq ▸ hlt)

/-- Two maps in which every name holds the same are equal. -/
theorem ext_find? {m n : NameMap α} (h : ∀ name, m.find? name = n.find? name) : m = n := by
  have nodup : ∀ {entries : List (Text × α)}, entries.Pairwise (·.1 < ·.1) → entries.Nodup := by
    intro entries hsorted
    refine hsorted.imp fun {e f} hlt heq => ?_
    exact List.lt_irrefl e.1 (heq ▸ hlt)
  have hperm : m.entries.Perm n.entries := by
    refine (List.perm_ext_iff_of_nodup (nodup m.sorted) (nodup n.sorted)).2 fun e => ?_
    obtain ⟨name, value⟩ := e
    rw [mem_entries_iff, mem_entries_iff, h]
  have hentries : m.entries = n.entries := by
    refine hperm.eq_of_pairwise (fun e f _ _ hlt hgt => ?_) m.sorted n.sorted
    exact absurd hgt (List.lt_asymm hlt)
  cases m
  cases n
  obtain rfl := hentries
  rfl

/-- Of two values put in for one name, the later one stays. -/
theorem insert_insert (m : NameMap α) (name : Text) (value later : α) :
    (m.insert name value).insert name later = m.insert name later := by
  apply ext_find?
  intro other
  simp only [find?_insert]
  split <;> rfl

/-- The order in which two names are put in does not matter. -/
theorem insert_comm (m : NameMap α) {name other : Text} (h : name ≠ other) (value held : α) :
    (m.insert name value).insert other held = (m.insert other held).insert name value := by
  apply ext_find?
  intro key
  simp only [find?_insert]
  by_cases hname : name = key
  · have hother : other ≠ key := fun hkey => h (hname.trans hkey.symm)
    simp [hname, hother]
  · simp [hname]

/-- The order in which two names are changed alike does not matter. -/
theorem modify_comm (m : NameMap α) (name other : Text) (initial : α) (f : α → α) :
    (m.modify name initial f).modify other initial f =
      (m.modify other initial f).modify name initial f := by
  by_cases h : name = other
  · rw [h]
  · simp only [modify, find?_insert, if_neg h, if_neg (Ne.symm h)]
    exact insert_comm m h ..

/-- A name that holds nothing makes the map larger by one. -/
theorem size_insert {m : NameMap α} {name : Text} (h : m.find? name = none) (value : α) :
    (m.insert name value).size = m.size + 1 := by
  have hentries : ∀ entries : List (Text × α), lookup name entries = none →
      (insertEntry name value entries).length = entries.length + 1 := by
    intro entries hlookup
    induction entries with
    | nil => rfl
    | cons head rest ih =>
      obtain ⟨other, held⟩ := head
      have hne : name ≠ other := by
        rintro rfl
        simp [lookup] at hlookup
      have hrest : lookup name rest = none := by simpa [lookup, Ne.symm hne] using hlookup
      rw [insertEntry, if_neg hne]
      split
      · rfl
      · rw [List.length_cons, List.length_cons, ih hrest]
  exact hentries m.entries h

/-- The map without a name that held a value is smaller by one. -/
theorem size_erase {m : NameMap α} {name : Text} {value : α} (h : m.find? name = some value) :
    (m.erase name).size + 1 = m.size := by
  have hback : (m.erase name).insert name value = m := by
    apply ext_find?
    intro other
    rw [find?_insert, find?_erase]
    split
    · next heq => exact heq ▸ h.symm
    · rfl
  rw [← size_insert (m := m.erase name) (by rw [find?_erase, if_pos rfl]) value, hback]

/-- The names depend only on which of them hold a value. -/
theorem names_eq_of_contains {m n : NameMap α} (h : ∀ name, m.contains name = n.contains name) :
    m.names = n.names := by
  have hperm : m.names.Perm n.names := by
    refine (List.perm_ext_iff_of_nodup m.nodup_names n.nodup_names).2 fun name => ?_
    rw [mem_names_iff, mem_names_iff, h]
  exact hperm.eq_of_pairwise (fun _ _ _ _ hlt hgt => absurd hgt (List.lt_asymm hlt)) m.sorted_names
    n.sorted_names

/-- Another value for a name takes the place of the one that it held. -/
theorem entries_insert {m : NameMap α} {name : Text} {held : α} (h : m.find? name = some held)
    (value : α) : ∃ before after, m.entries = before ++ (name, held) :: after ∧
      (m.insert name value).entries = before ++ (name, value) :: after := by
  have hentries : ∀ {entries : List (Text × α)}, entries.Pairwise (·.1 < ·.1) →
      lookup name entries = some held → ∃ before after, entries = before ++ (name, held) :: after ∧
        insertEntry name value entries = before ++ (name, value) :: after := by
    intro entries hsorted hlookup
    induction entries with
    | nil => simp [lookup] at hlookup
    | cons head rest ih =>
      obtain ⟨hhead, hrest⟩ := List.pairwise_cons.1 hsorted
      obtain ⟨other, first⟩ := head
      by_cases hname : name = other
      · subst hname
        obtain rfl : first = held := by simpa [lookup] using hlookup
        exact ⟨[], rest, rfl, by simp [insertEntry]⟩
      · have hfound : lookup name rest = some held := by
          simpa [lookup, Ne.symm hname] using hlookup
        have hlt : other < name := hhead _ ((mem_iff_lookup hrest name held).2 hfound)
        obtain ⟨before, after, hold, hnew⟩ := ih hrest hfound
        refine ⟨(other, first) :: before, after, by rw [hold, List.cons_append], ?_⟩
        rw [insertEntry, if_neg hname, if_neg (List.lt_asymm hlt), hnew, List.cons_append]
  exact hentries m.sorted h

/-- What does not look at a name does not see that it is put in. -/
theorem filter_insertEntry {p : Text × α → Bool} {name : Text} (hp : ∀ value, p (name, value) = false)
    (value : α) (entries : List (Text × α)) :
    (insertEntry name value entries).filter p = entries.filter p := by
  induction entries with
  | nil => simp [insertEntry, hp]
  | cons head rest ih =>
    obtain ⟨key, held⟩ := head
    unfold insertEntry
    split
    · next heq => simp [← heq, hp]
    · split
      · simp [hp]
      · rw [List.filter_cons, List.filter_cons, ih]

end NameMap

end TradeReentry
