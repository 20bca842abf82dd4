import TradeReentry.Proofs.Ledger.Continuing

/-!
# Leaving a file in time

A ledger keeps a file while it is young and small by its own account: the instant at which it took the file
and the size that it counted. Both are right in every run in which nobody else writes ledger files
(`accounts_of_tracked`), failed rows included, so that a row only goes to a file that the ledger opened less
than the rotation time ago and that is below the limit on the disk, or to the one that carries the stamp of the
second (`limits_of_tracked`).
-/

namespace TradeReentry.Ledger

open Files

variable {settings : LedgerSettings} {schema : Schema} {ledger : Ledger} {disk disk' : Disk} {now : Instant}
  {row : Row}

/-! ## The size of a file -/

/-- The number of bytes of the file at a path; a file that is not there has none. -/
def sizeAt (disk : Disk) (path : Text) : Nat := ((disk.file? path).getD []).length

theorem sizeAt_of_file? {path t : Text} (h : disk.file? path = some t) : sizeAt disk path = t.length := by
  rw [sizeAt, h, Option.getD_some]

theorem sizeAt_of_not_pathExists {path : Text} (h : disk.pathExists path = false) : sizeAt disk path = 0 := by
  rw [sizeAt, Disk.file?_eq_none_of_not_pathExists h]
  rfl

/-- The size that is told when a line is added is that of the file. -/
theorem length_continued_of_appendLine {path line : Text} {size : Nat}
    (h : appendLine disk path line = .ok (disk', size)) (schema : Schema) :
    ∃ t, disk.file? path = some t ∧ (continued schema line (some t)).length = size := by
  rw [appendLine] at h
  split at h
  · simp at h
  · simp at h
  · next content hlookup =>
    simp only at h
    split at h
    · simp at h
    · obtain ⟨-, rfl⟩ := Prod.mk.inj (Except.ok.inj h)
      refine ⟨content.text, Disk.file?_eq_some_iff.2 ⟨content, hlookup, rfl⟩, ?_⟩
      rw [continued, List.length_append, Content.length_text, Content.getLast?_text]

/-- The size that is told of a file which was created is that of its text, and its unfinished file was there. -/
theorem exists_create_of_createFile {path content : Text} {size : Nat}
    (h : createFile disk path content = .ok (disk', size)) :
    size = content.length ∧ ∃ created, disk.create (path ++ ".tmp") content = .ok created := by
  rw [createFile] at h
  split at h
  · simp at h
  · next created hcreated =>
    split at h
    · simp at h
    · obtain ⟨-, rfl⟩ := Prod.mk.inj (Except.ok.inj h)
      exact ⟨rfl, created, hcreated⟩

/-- The path of a ledger file is that of a file, also where only a part of it is seen. -/
theorem endsInSlash_of_create (ledger : Ledger) (opened : Instant) {content : Text} {created : Disk}
    (h : disk.create (ledger.pathAt opened ++ ".tmp") content = .ok created) :
    Path.endsInSlash (Path.visible (ledger.pathAt opened)) = false := by
  obtain ⟨-, -, -, htemporary⟩ := Disk.create_spec h
  by_cases hzero : (0 : UInt8) ∈ ledger.pathAt opened
  · rwa [Path.visible_append hzero] at htemporary
  · have hlast : (".csv" : Text).getLast? = some 118 := by decide
    have hslash : (118 : UInt8) ≠ Ascii.slash := by decide
    rw [Path.visible_of_not_zero hzero, pathAt, FileName.ofInstant, Path.join_append, Path.endsInSlash,
      List.getLast?_append, hlast]
    simpa using hslash

/-- The size that is told of a line which was written is that of the file in use. -/
theorem sizeAt_of_writeLine {opened : Instant} (hopened : ledger.currentFile = ledger.pathAt opened)
    {line : Text} {size : Nat} {log : List Log.Entry}
    (h : ledger.writeLine disk line = .ok (disk', size, log)) :
    ∃ t, disk'.file? ledger.currentFile = some t ∧ t.length = size := by
  have hwritten := h
  simp only [writeLine] at h
  split at h
  · obtain ⟨⟨after, size'⟩, happend, h⟩ := map_eq_ok_iff.1 h
    obtain ⟨rfl, hrest⟩ := Prod.mk.inj h
    obtain ⟨rfl, -⟩ := Prod.mk.inj hrest
    obtain ⟨t, hfile, hlength⟩ := length_continued_of_appendLine happend ledger.schema
    exact ⟨_, file?_of_writeLine hfile hwritten, hlength⟩
  · next hexists =>
    obtain ⟨⟨after, size'⟩, hcreate, h⟩ := map_eq_ok_iff.1 h
    obtain ⟨rfl, hrest⟩ := Prod.mk.inj h
    obtain ⟨rfl, -⟩ := Prod.mk.inj hrest
    obtain ⟨place, temporary, hplace, -, -, -, hsight⟩ := createFile_spec hcreate
    obtain ⟨hsize, created, hcreated⟩ := exists_create_of_createFile hcreate
    have hslash : Path.endsInSlash (Path.visible ledger.currentFile) = false := by
      rw [hopened] at hcreated ⊢
      exact endsInSlash_of_create ledger opened hcreated
    refine ⟨_, Disk.file?_eq_some_iff.2 ⟨_, Disk.lookup_eq_file_iff.2
      ⟨Disk.sightAt_eq_file_iff.2 ⟨place, ?_, ?_⟩, hslash⟩, Content.text_ofText _⟩, hsize.symm⟩
    · rw [Disk.place?_congr (lineWritten_of_writeLine hwritten).directories, hplace]
    · rw [hsight, if_pos rfl]

/-! ## One row -/

/-- Whether a ledger knows the size of the file in use, which has the name of the instant at which it was
taken. -/
structure Accounted (ledger : Ledger) (disk : Disk) : Prop where
  path_eq : ledger.currentFile ≠ [] → ledger.currentFile = ledger.pathAt ledger.startedAt
  size_eq : ledger.currentFile ≠ [] → ledger.currentSize = sizeAt disk ledger.currentFile

theorem Accounted.inUse (h : Accounted ledger disk) : ledger.InUse := by
  by_cases hfile : ledger.currentFile = []
  · exact .inl hfile
  · exact .inr ⟨ledger.startedAt, h.path_eq hfile⟩

/-- The file for a row is known as the one before it was. -/
theorem Accounted.choice (h : Accounted ledger disk) {chosen : Ledger}
    (hchoice : Choice ledger disk now chosen) : Accounted chosen disk ∧ chosen.currentFile ≠ [] := by
  cases hchoice with
  | keep hfile _ hchosen =>
    subst hchosen
    exact ⟨h, hfile⟩
  | adopt t records highest hfile _ _ hchosen =>
    subst hchosen
    exact ⟨⟨fun _ => rfl, fun _ => (sizeAt_of_file? hfile).symm⟩, ledger.pathAt_ne_nil now⟩
  | create hfile hchosen =>
    subst hchosen
    exact ⟨⟨fun _ => rfl, fun _ => (sizeAt_of_not_pathExists hfile).symm⟩, ledger.pathAt_ne_nil now⟩

/-- A row is written to the file in use afterwards, which is that of its instant or one that is kept, and whose
size is known. -/
theorem Accounted.written (h : Accounted ledger disk) {receipt : Receipt}
    (hresult : (ledger.append disk now row).result = .ok receipt) :
    (ledger.append disk now row).state.1.currentFile = receipt.path ∧
      (∃ t, (ledger.append disk now row).state.2.file? receipt.path = some t ∧
        (ledger.append disk now row).state.1.currentSize = t.length) ∧
      (receipt.path = ledger.pathAt now ∨
        (receipt.path = ledger.currentFile ∧ ledger.keepsFile now = true)) ∧
      ∃ line, LineWritten ledger.schema receipt.path line disk (ledger.append disk now row).state.2 := by
  cases ledger.append_outcome disk now row with
  | refused _ herror _ => simp [herror] at hresult
  | unplaced _ herror _ => simp [herror] at hresult
  | unwritten _ _ _ _ herror _ => simp [herror] at hresult
  | written chosen after size warnings _ hchoice hwrite hok hstate =>
    obtain rfl := Except.ok.inj (hok.symm.trans hresult)
    obtain ⟨haccounted, hne⟩ := h.choice hchoice
    obtain ⟨t, hfile, hlength⟩ := sizeAt_of_writeLine (haccounted.path_eq hne) hwrite
    have hwritten := lineWritten_of_writeLine hwrite
    rw [hchoice.schema_eq.1] at hwritten
    rw [hstate]
    refine ⟨rfl, ⟨t, hfile, hlength.symm⟩, ?_, _, hwritten⟩
    show chosen.currentFile = _ ∨ chosen.currentFile = _ ∧ _
    cases hchoice with
    | keep _ hkeep hchosen =>
      subst hchosen
      exact hkeep.elim (fun hkeep => .inr ⟨rfl, hkeep⟩) fun hsame => .inl hsame.symm
    | adopt _ _ _ _ _ _ hchosen => exact .inl (hchosen ▸ rfl)
    | create _ hchosen => exact .inl (hchosen ▸ rfl)

/-- A ledger knows the file in use after every row, written or not. -/
theorem Accounted.append (h : Accounted ledger disk) (now : Instant) (row : Row) :
    Accounted (ledger.append disk now row).state.1 (ledger.append disk now row).state.2 := by
  cases ledger.append_outcome disk now row with
  | refused _ _ hstate =>
    rw [hstate]
    exact h
  | unplaced _ _ hstate =>
    rw [hstate]
    exact ⟨h.path_eq, h.size_eq⟩
  | unwritten _ chosen hchoice _ _ hstate =>
    -- the ledger may have gone on to another file, which is as it was
    rw [hstate]
    obtain ⟨hpath, hsize⟩ := (h.choice hchoice).1
    exact ⟨hpath, hsize⟩
  | written chosen _ _ _ _ hchoice _ hresult hstate =>
    obtain ⟨hcurrent, ⟨t, hfile, hlength⟩, -⟩ := h.written hresult
    refine ⟨?_, fun _ => ?_⟩
    · rw [hstate]
      exact (h.choice hchoice).1.path_eq
    · rw [hcurrent, sizeAt_of_file? hfile, hlength]

/-- A row leaves the file in use and the instant at which it was taken alone, or the file of the row's instant
takes its place, which is another one. -/
theorem currentFile_append (ledger : Ledger) (disk : Disk) (now : Instant) (row : Row) :
    ((ledger.append disk now row).state.1.currentFile = ledger.currentFile ∧
        (ledger.append disk now row).state.1.startedAt = ledger.startedAt) ∨
      ((ledger.append disk now row).state.1.currentFile = ledger.pathAt now ∧
        (ledger.append disk now row).state.1.startedAt = now ∧ ledger.pathAt now ≠ ledger.currentFile) := by
  by_cases hsame : ledger.pathAt now = ledger.currentFile
  · left
    have hchoose : ledger.chooseFile disk now = .ok (ledger, []) := by simp [chooseFile, hsame]
    unfold append
    cases checkNames ledger.schema row with
    | error e => exact ⟨rfl, rfl⟩
    | ok _ =>
      simp only [hchoose]
      split <;> exact ⟨rfl, rfl⟩
  · have hchosen : ∀ chosen, Choice ledger disk now chosen →
        (chosen.currentFile = ledger.currentFile ∧ chosen.startedAt = ledger.startedAt) ∨
          (chosen.currentFile = ledger.pathAt now ∧ chosen.startedAt = now ∧
            ledger.pathAt now ≠ ledger.currentFile) := by
      intro chosen hchoice
      cases hchoice with
      | keep _ _ hchosen => exact .inl (hchosen ▸ ⟨rfl, rfl⟩)
      | adopt _ _ _ _ _ _ hchosen => exact .inr (hchosen ▸ ⟨rfl, rfl, hsame⟩)
      | create _ hchosen => exact .inr (hchosen ▸ ⟨rfl, rfl, hsame⟩)
    cases ledger.append_outcome disk now row with
    | refused _ _ hstate => exact .inl (hstate ▸ ⟨rfl, rfl⟩)
    | unplaced _ _ hstate => exact .inl (hstate ▸ ⟨rfl, rfl⟩)
    | unwritten _ chosen hchoice _ _ hstate =>
      rw [hstate]
      exact hchosen chosen hchoice
    | written chosen _ _ _ _ hchoice _ _ hstate =>
      rw [hstate]
      exact hchosen chosen hchoice

/-- The limit of the size is not above the setting. -/
theorem sizeLimit_le (ledger : Ledger) (h : 0 ≤ ledger.settings.maxFileSizeMb) :
    (ledger.sizeLimit : Int) ≤ ledger.settings.maxFileSizeMb * 2 ^ 20 := by
  have hnonneg : 0 ≤ ledger.settings.maxFileSizeMb * 2 ^ 20 := by omega
  rw [sizeLimit, Int.toNat_of_nonneg (Int.emod_nonneg _ (by decide))]
  omega

/-! ## Runs -/

/-- The file in use after the row of an instant, which was written or not. -/
structure Use where
  now : Instant
  path : Text
deriving DecidableEq, Repr

/-- The uses of files by one ledger, that ledger and the disk after a run that began with any disk. The clock
may show anything, and nobody else touches the files of the ledger. -/
inductive Tracked (settings : LedgerSettings) (schema : Schema) : List Use → Ledger → Disk → Prop where
  | start (disk : Disk) : Tracked settings schema [] { settings, schema } disk
  /-- Others use the disk. -/
  | elsewhere {past : List Use} {ledger : Ledger} {disk : Disk} (h : Tracked settings schema past ledger disk)
      (disk' : Disk) (hfiles : ∀ opened, disk'.file? (ledger.pathAt opened) = disk.file? (ledger.pathAt opened)) :
    Tracked settings schema past ledger disk'
  | append {past : List Use} {ledger : Ledger} {disk : Disk} (h : Tracked settings schema past ledger disk)
      (now : Instant) (row : Row) :
    Tracked settings schema (past ++ [⟨now, (ledger.append disk now row).state.1.currentFile⟩])
      (ledger.append disk now row).state.1 (ledger.append disk now row).state.2

/-- Whether the file of a path became the one in use at an instant and has been it ever since. -/
def OpenedAt (past : List Use) (path : Text) (opened : Instant) : Prop :=
  ∃ before after, past = before ++ ⟨opened, path⟩ :: after ∧ (∀ use ∈ before.getLast?, use.path ≠ path) ∧
    ∀ use ∈ after, use.path = path

/-- A file that is kept in use stays opened. -/
theorem OpenedAt.concat {past : List Use} {path : Text} {opened : Instant} (h : OpenedAt past path opened)
    (now : Instant) : OpenedAt (past ++ [⟨now, path⟩]) path opened := by
  obtain ⟨before, after, rfl, hbefore, hafter⟩ := h
  refine ⟨before, after ++ [⟨now, path⟩], by simp, hbefore, ?_⟩
  intro use huse
  rcases List.mem_append.1 huse with huse | huse
  · exact hafter use huse
  · rw [List.mem_singleton.1 huse]

/-- How a ledger and the disk stand to the uses so far. -/
structure Accounts (settings : LedgerSettings) (schema : Schema) (past : List Use) (ledger : Ledger)
    (disk : Disk) : Prop where
  settings_eq : ledger.settings = settings
  schema_eq : ledger.schema = schema
  accounted : Accounted ledger disk
  current : ∀ use ∈ past.getLast?, use.path = ledger.currentFile
  opened : ledger.currentFile ≠ [] → OpenedAt past ledger.currentFile ledger.startedAt

/-- Every row keeps the account of a ledger. -/
theorem Accounts.append {past : List Use} (h : Accounts settings schema past ledger disk) (now : Instant)
    (row : Row) :
    Accounts settings schema (past ++ [⟨now, (ledger.append disk now row).state.1.currentFile⟩])
      (ledger.append disk now row).state.1 (ledger.append disk now row).state.2 where
  settings_eq := (inUse_append h.accounted.inUse disk now row).2.1.trans h.settings_eq
  schema_eq := (inUse_append h.accounted.inUse disk now row).1.trans h.schema_eq
  accounted := h.accounted.append now row
  current := by simp
  opened hne := by
    rcases currentFile_append ledger disk now row with ⟨hpath, hstarted⟩ | ⟨hpath, hstarted, hother⟩
    · rw [hpath] at hne
      rw [hpath, hstarted]
      exact (h.opened hne).concat now
    · rw [hpath, hstarted]
      refine ⟨past, [], rfl, ?_, by simp⟩
      intro use huse hsame
      exact hother (hsame.symm.trans (h.current use huse))

theorem accounts_of_tracked {past : List Use} (h : Tracked settings schema past ledger disk) :
    Accounts settings schema past ledger disk := by
  induction h with
  | start disk => exact ⟨rfl, rfl, ⟨(absurd rfl ·), (absurd rfl ·)⟩, by simp, (absurd rfl ·)⟩
  | elsewhere _ disk' hfiles ih =>
    refine ⟨ih.settings_eq, ih.schema_eq, ⟨ih.accounted.path_eq, fun hne => ?_⟩, ih.current, ih.opened⟩
    have hfile := ih.accounted.path_eq hne
    rw [ih.accounted.size_eq hne, sizeAt, sizeAt, hfile, hfiles]
  | append _ now row ih => exact ih.append now row

/-- A row that is written goes to the file that carries the stamp of the second, or to one that the ledger
opened less than the rotation time ago and that is below the limit on the disk just before. The ledger then
knows the size of the file, and no other file has changed; a row that is not written changes none. -/
theorem limits_of_tracked {past : List Use} (hlimit : 1 ≤ settings.maxFileSizeMb)
    (h : Tracked settings schema past ledger disk) (now : Instant) (row : Row) :
    (∀ e, (ledger.append disk now row).result = .error e → (ledger.append disk now row).state.2 = disk) ∧
      ∀ receipt, (ledger.append disk now row).result = .ok receipt →
        (ledger.append disk now row).state.1.currentFile = receipt.path ∧
        (∃ t, (ledger.append disk now row).state.2.file? receipt.path = some t ∧
          (ledger.append disk now row).state.1.currentSize = t.length) ∧
        (receipt.path = ledger.pathAt now ∨ ∃ opened,
          OpenedAt past receipt.path opened ∧ receipt.path = ledger.pathAt opened ∧
          now - opened < settings.rotationHours * Instant.millisPerHour ∧
          (sizeAt disk receipt.path : Int) < settings.maxFileSizeMb * 2 ^ 20) ∧
        ∀ path t, (ledger.append disk now row).state.2.file? path = some t → disk.file? path ≠ some t →
          disk.place? path = disk.place? receipt.path := by
  refine ⟨fun e he => (append_error he).1, ?_⟩
  intro receipt hresult
  have haccounts := accounts_of_tracked h
  obtain ⟨hcurrent, hfile, hchosen, line, hwritten⟩ := haccounts.accounted.written hresult
  refine ⟨hcurrent, hfile, ?_, ?_⟩
  · rcases hchosen with hstamp | ⟨hkept, hkeeps⟩
    · exact .inl hstamp
    right
    simp only [keepsFile, Bool.and_eq_true, decide_eq_true_eq, Bool.not_eq_true',
      List.isEmpty_eq_false_iff] at hkeeps
    obtain ⟨⟨hne, hage⟩, hbelow⟩ := hkeeps
    have hle := ledger.sizeLimit_le (by rw [haccounts.settings_eq]; omega)
    rw [haccounts.accounted.size_eq hne] at hbelow
    rw [haccounts.settings_eq] at hage hle
    rw [hkept]
    exact ⟨ledger.startedAt, haccounts.opened hne, haccounts.accounted.path_eq hne, hage, by omega⟩
  · intro path t' hafter hbefore
    obtain hsame | ⟨place, hplace, hplace', -⟩ := hwritten.file?_cases hafter
    · exact absurd hsame hbefore
    · rw [hplace, hplace']

/-- A row after half an hour goes to the file of the first one, which is left when an hour has passed. -/
theorem limits_of_tracked_halfHour :
    let origin : Disk := { working := .directory "d" .empty .empty }
    let settings : LedgerSettings := { outputDirectory := "d", rotationHours := 1, maxFileSizeMb := 1 }
    let row : Row := .ofList [
      ("trade_id", "T1"), ("hybrid_id", "W1_QUICK"), ("symbol", "EURUSD"), ("outcome_class", "WIN"),
      ("duration_class", "QUICK"), ("reentry_action", "R1"), ("parameter_set_id", "P1"),
      ("resolved_tier", "EXACT"), ("chain_position", "R1"), ("lot_size", "0.1"),
      ("stop_loss", "20"), ("take_profit", "40")]
    let ledger : Ledger := { settings, schema := .reentryDecisions }
    let ten : Instant := 1768471200000
    let first := ledger.append origin ten row
    let second := first.state.1.append first.state.2 (ten + 1800000) row
    let third := second.state.1.append second.state.2 (ten + 3600000) row
    (∃ receipt opened, second.result = .ok receipt ∧
      OpenedAt [⟨ten, "d/reentry_decisions_20260115_100000.csv"⟩] receipt.path opened ∧
      ten + 1800000 - opened < 1 * Instant.millisPerHour ∧
      (sizeAt first.state.2 receipt.path : Int) < 1 * 2 ^ 20) ∧
      third.result.map (·.path) = .ok "d/reentry_decisions_20260115_110000.csv" := by
  intro origin settings row ledger ten first second third
  have htracked : Tracked settings .reentryDecisions
      [⟨ten, first.state.1.currentFile⟩] first.state.1 first.state.2 := (Tracked.start origin).append ten row
  have hcurrent : first.state.1.currentFile = "d/reentry_decisions_20260115_100000.csv" := by decide +kernel
  have hpath : second.result.map (·.path) = .ok "d/reentry_decisions_20260115_100000.csv" := by
    decide +kernel
  have hother : first.state.1.pathAt (ten + 1800000) ≠ "d/reentry_decisions_20260115_100000.csv" := by
    decide +kernel
  obtain ⟨receipt, hresult, hfile⟩ := map_eq_ok_iff.1 hpath
  obtain ⟨-, hwritten⟩ := limits_of_tracked (by decide) htracked (ten + 1800000) row
  obtain ⟨-, -, hlimits, -⟩ := hwritten receipt hresult
  rw [hcurrent] at hlimits
  rcases hlimits with hstamp | ⟨opened, hopened, -, hage, hsize⟩
  · exact absurd (hstamp.symm.trans hfile) hother
  · exact ⟨⟨receipt, opened, hresult, hopened, hage, hsize⟩, by decide +kernel⟩

end TradeReentry.Ledger
