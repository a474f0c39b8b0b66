/-
  Runs/Store.lean --- run artefacts on disk.

  Source: app/runs/store.py.

  The state of the store is the content of its files: the lock file, and a
  directory for every run.  Each definition of the first section is one file
  operation, atomic on the file system; the routines of `RunStore` are sequences
  of them.  The routines are given here run to their end without a failure.
  Runs/Lifecycle.lean takes the same operations one at a time, with a failure or
  a crash possible at each.
-/
import Mathlib.Data.List.Sort
import SeapathWebui.Foundation.Text
import SeapathWebui.Runs.Models

set_option autoImplicit false

namespace SeapathWebui.Runs

open SeapathWebui.Foundation

/-- The name of a run directory. -/
abbrev RunId : Type := String

/-- The files of one run directory; `none` is a file that does not exist. -/
structure RunDirectory where
  inventory : Option String := none
  events : Option String := none
  log : Option String := none
  /-- `run.json.tmp` -/
  temporary : Option RunRecord := none
  /-- `run.json` -/
  record : Option RunRecord := none
  deriving DecidableEq, Inhabited

/-- The run store as it is on disk. -/
structure Disk where
  /-- The content of `.lock`. -/
  lock : Option String := none
  directories : Dict RunId RunDirectory := ∅
  deriving DecidableEq, Inhabited

namespace Disk

/-- `run.json` of a run. -/
def record (d : Disk) (i : RunId) : Option RunRecord :=
  (d.directories.get? i).bind (·.record)

/-- `run.json.tmp` of a run. -/
def temporary (d : Disk) (i : RunId) : Option RunRecord :=
  (d.directories.get? i).bind (·.temporary)

/-- `inventory.yaml` of a run. -/
def inventoryOf (d : Disk) (i : RunId) : Option String :=
  (d.directories.get? i).bind (·.inventory)

/-- The directory of a run exists. -/
def hasDirectory (d : Disk) (i : RunId) : Prop := d.directories.contains i = true

/-- The content of an existing run directory changes. -/
def change (d : Disk) (i : RunId) (f : RunDirectory → RunDirectory) : Disk :=
  { d with directories := d.directories.modify i f }

/-! ## File operations -/

/-- `directory.mkdir(parents=True, exist_ok=True)` -/
def makeDirectory (d : Disk) (i : RunId) : Disk :=
  if d.directories.contains i then d
  else { d with directories := d.directories.set i {} }

/-- `(directory / _INVENTORY).write_text(inventory)` -/
def writeInventory (d : Disk) (i : RunId) (text : String) : Disk :=
  d.change i fun dir => { dir with inventory := some text }

/-- `(directory / _EVENTS).touch()` -/
def touchEvents (d : Disk) (i : RunId) : Disk :=
  d.change i fun dir => { dir with events := some (dir.events.getD "") }

/-- `(directory / _LOG).touch()` -/
def touchLog (d : Disk) (i : RunId) : Disk :=
  d.change i fun dir => { dir with log := some (dir.log.getD "") }

/-- The write of `append_event`: one line, at the end. -/
def appendEvent (d : Disk) (i : RunId) (line : String) : Disk :=
  d.change i fun dir => { dir with events := some (dir.events.getD "" ++ line ++ "\n") }

/-- The write of `append_log`. -/
def appendLog (d : Disk) (i : RunId) (text : String) : Disk :=
  d.change i fun dir => { dir with log := some (dir.log.getD "" ++ text) }

/-- `temporary.write_text(record.model_dump_json(indent=2))` -/
def writeTemporary (d : Disk) (r : RunRecord) : Disk :=
  d.change r.id fun dir => { dir with temporary := some r }

/-- `os.replace(temporary, path)` -/
def replaceRecord (d : Disk) (i : RunId) : Disk :=
  d.change i fun dir =>
    match dir.temporary with
    | none => dir
    | some r => { dir with record := some r, temporary := none }

/-- The exclusive create of `acquire`; `none` is the `FileExistsError`. -/
def createLock (d : Disk) : Option Disk :=
  match d.lock with
  | some _ => none
  | none => some { d with lock := some "" }

/-- `handle.write(...)` on the descriptor `acquire` opened. -/
def writeLock (d : Disk) (text : String) : Disk := { d with lock := some text }

/-- `(self._root / _LOCK).unlink(missing_ok=True)` -/
def unlinkLock (d : Disk) : Disk := { d with lock := none }

/-- `_lock_holder`: the stripped content, or `None` when that is empty or the
file is absent. -/
def lockHolder (d : Disk) : Option String :=
  match d.lock with
  | none => none
  | some text => if Text.strip text = "" then none else some (Text.strip text)

/-! ### What an operation leaves alone -/

variable (d : Disk) (i j : RunId) (f : RunDirectory → RunDirectory)

@[simp] theorem lock_change : (d.change i f).lock = d.lock := rfl

theorem record_change : (d.change i f).record j =
    if i = j then (d.directories.get? j).bind (fun dir => (f dir).record)
    else d.record j := by
  unfold record change
  rw [Dict.get?_modify]
  by_cases h : i = j
  · cases hd : d.directories.get? j <;> simp [h]
  · simp [h]

theorem temporary_change : (d.change i f).temporary j =
    if i = j then (d.directories.get? j).bind (fun dir => (f dir).temporary)
    else d.temporary j := by
  unfold temporary change
  rw [Dict.get?_modify]
  by_cases h : i = j
  · cases hd : d.directories.get? j <;> simp [h]
  · simp [h]

theorem inventoryOf_change : (d.change i f).inventoryOf j =
    if i = j then (d.directories.get? j).bind (fun dir => (f dir).inventory)
    else d.inventoryOf j := by
  unfold inventoryOf change
  rw [Dict.get?_modify]
  by_cases h : i = j
  · cases hd : d.directories.get? j <;> simp [h]
  · simp [h]

/-- A change that keeps the `inventory.yaml` of the directory keeps that of every run. -/
theorem inventoryOf_change_of_keeps {f : RunDirectory → RunDirectory}
    (h : ∀ dir, (f dir).inventory = dir.inventory) :
    (d.change i f).inventoryOf j = d.inventoryOf j := by
  rw [inventoryOf_change]
  by_cases hij : i = j
  · simp [hij, h, inventoryOf]
  · simp [hij]

/-- A change that keeps the `run.json` of the directory keeps that of every run. -/
theorem record_change_of_keeps {f : RunDirectory → RunDirectory}
    (h : ∀ dir, (f dir).record = dir.record) : (d.change i f).record j = d.record j := by
  rw [record_change]
  by_cases hij : i = j
  · simp [hij, h, record]
  · simp [hij]

/-- The exclusive create goes through exactly where there is no lock. -/
theorem createLock_eq_some {d d' : Disk} :
    d.createLock = some d' ↔ d.lock = none ∧ d' = { d with lock := some "" } := by
  unfold createLock
  cases d.lock with
  | none => simp [eq_comm]
  | some text => simp

@[simp] theorem lock_makeDirectory : (d.makeDirectory i).lock = d.lock := by
  unfold makeDirectory; split <;> rfl

@[simp] theorem record_makeDirectory : (d.makeDirectory i).record j = d.record j := by
  unfold makeDirectory
  split
  · rfl
  · rename_i h
    unfold record
    by_cases hij : i = j
    · have hnone : d.directories.get? i = none := by
        simpa [Dict.contains] using h
      subst hij
      simp [hnone]
    · simp [Dict.get?_set_of_ne _ _ hij]

@[simp] theorem lock_writeInventory (text : String) :
    (d.writeInventory i text).lock = d.lock := rfl
@[simp] theorem lock_touchEvents : (d.touchEvents i).lock = d.lock := rfl
@[simp] theorem lock_touchLog : (d.touchLog i).lock = d.lock := rfl
@[simp] theorem lock_appendEvent (line : String) : (d.appendEvent i line).lock = d.lock := rfl
@[simp] theorem lock_appendLog (text : String) : (d.appendLog i text).lock = d.lock := rfl
@[simp] theorem lock_writeTemporary (r : RunRecord) : (d.writeTemporary r).lock = d.lock := rfl
@[simp] theorem lock_replaceRecord : (d.replaceRecord i).lock = d.lock := rfl
@[simp] theorem lock_writeLock (text : String) : (d.writeLock text).lock = some text := rfl
@[simp] theorem lock_unlinkLock : d.unlinkLock.lock = none := rfl

@[simp] theorem inventoryOf_touchEvents : (d.touchEvents i).inventoryOf j = d.inventoryOf j :=
  inventoryOf_change_of_keeps d i j fun _ => rfl
@[simp] theorem inventoryOf_touchLog : (d.touchLog i).inventoryOf j = d.inventoryOf j :=
  inventoryOf_change_of_keeps d i j fun _ => rfl
@[simp] theorem inventoryOf_writeTemporary (r : RunRecord) :
    (d.writeTemporary r).inventoryOf j = d.inventoryOf j :=
  inventoryOf_change_of_keeps d r.id j fun _ => rfl
@[simp] theorem inventoryOf_replaceRecord :
    (d.replaceRecord i).inventoryOf j = d.inventoryOf j :=
  inventoryOf_change_of_keeps d i j fun dir => by cases h : dir.temporary <;> rfl

@[simp] theorem record_writeInventory (text : String) :
    (d.writeInventory i text).record j = d.record j :=
  record_change_of_keeps d i j fun _ => rfl
@[simp] theorem record_touchEvents : (d.touchEvents i).record j = d.record j :=
  record_change_of_keeps d i j fun _ => rfl
@[simp] theorem record_touchLog : (d.touchLog i).record j = d.record j :=
  record_change_of_keeps d i j fun _ => rfl
@[simp] theorem record_appendEvent (line : String) :
    (d.appendEvent i line).record j = d.record j :=
  record_change_of_keeps d i j fun _ => rfl
@[simp] theorem record_appendLog (text : String) :
    (d.appendLog i text).record j = d.record j :=
  record_change_of_keeps d i j fun _ => rfl
@[simp] theorem record_writeTemporary (r : RunRecord) :
    (d.writeTemporary r).record j = d.record j :=
  record_change_of_keeps d r.id j fun _ => rfl
@[simp] theorem record_writeLock (text : String) : (d.writeLock text).record j = d.record j := rfl
@[simp] theorem record_unlinkLock : d.unlinkLock.record j = d.record j := rfl

/-- `os.replace` installs what the temporary file held, and touches no other run. -/
theorem record_replaceRecord : (d.replaceRecord i).record j =
    if i = j then (d.temporary j).or (d.record j) else d.record j := by
  unfold replaceRecord
  rw [record_change]
  by_cases hij : i = j
  · simp only [hij, if_true, temporary, record]
    cases hd : d.directories.get? j with
    | none => rfl
    | some dir => cases ht : dir.temporary <;> simp [ht]
  · simp [hij]

@[simp] theorem hasDirectory_change : (d.change i f).hasDirectory j ↔ d.hasDirectory j := by
  unfold hasDirectory change Dict.contains
  rw [Dict.get?_modify]
  by_cases hij : i = j
  · cases d.directories.get? j <;> simp [hij]
  · simp [hij]

theorem hasDirectory_makeDirectory : (d.makeDirectory i).hasDirectory i := by
  unfold makeDirectory
  split
  · assumption
  · simp [hasDirectory, Dict.contains]

theorem hasDirectory_of_record {d : Disk} {i : RunId} {r : RunRecord}
    (h : d.record i = some r) : d.hasDirectory i := by
  obtain ⟨dir, hdir, _⟩ := Option.bind_eq_some_iff.mp h
  simp [hasDirectory, Dict.contains, hdir]

theorem inventoryOf_writeInventory {d : Disk} {i : RunId} {text : String}
    (h : d.hasDirectory i) : (d.writeInventory i text).inventoryOf i = some text := by
  unfold writeInventory
  rw [inventoryOf_change, if_pos rfl]
  obtain ⟨dir, hdir⟩ := Option.isSome_iff_exists.mp h
  rw [hdir]
  rfl

theorem temporary_writeTemporary {d : Disk} {r : RunRecord} (h : d.hasDirectory r.id) :
    (d.writeTemporary r).temporary r.id = some r := by
  unfold writeTemporary
  rw [temporary_change, if_pos rfl]
  obtain ⟨dir, hdir⟩ := Option.isSome_iff_exists.mp h
  rw [hdir]
  rfl

theorem record_replaceRecord_self {d : Disk} {r : RunRecord}
    (h : d.temporary r.id = some r) : (d.replaceRecord r.id).record r.id = some r := by
  simp [record_replaceRecord, h]

theorem record_replaceRecord_of_ne {i j : RunId} (h : i ≠ j) :
    (d.replaceRecord i).record j = d.record j := by
  simp [record_replaceRecord, h]

end Disk

/-! ## The routines of `RunStore` -/

namespace RunStore

/-- The exceptions of the store. -/
inductive StoreError
  /-- `RunLocked`, with its message. -/
  | runLocked (message : String)
  deriving DecidableEq, Repr

/-- The message of `RunLocked`, naming the run that is already going. -/
def lockedMessage (holder : Option String) : String :=
  "Run " ++ holder.getD "None" ++ " is already going. Two operators must not " ++
    "converge the same machines at once."

/-- `RunStore.acquire` -/
def acquire (d : Disk) (i : RunId) : Except StoreError Disk :=
  match d.createLock with
  | none => .error (.runLocked (lockedMessage d.lockHolder))
  | some d => .ok (d.writeLock i)

/-- `RunStore.release` -/
def release (d : Disk) (i : RunId) : Disk :=
  if d.lockHolder = some i ∨ d.lockHolder = none then d.unlinkLock else d

/-- `RunStore.save` -/
def save (d : Disk) (r : RunRecord) : Disk :=
  (d.writeTemporary r).replaceRecord r.id

/-- `RunStore.create` -/
def create (d : Disk) (r : RunRecord) (inventory : String) : Disk :=
  let d := d.makeDirectory r.id
  -- the inventory the run uses, frozen so the repository can move on
  let d := d.writeInventory r.id inventory
  let d := d.touchEvents r.id
  let d := d.touchLog r.id
  save d r

theorem record_save {d : Disk} {r : RunRecord} (h : d.hasDirectory r.id) :
    (save d r).record r.id = some r :=
  Disk.record_replaceRecord_self (Disk.temporary_writeTemporary h)

theorem hasDirectory_create (d : Disk) (r : RunRecord) (inventory : String) :
    (create d r inventory).hasDirectory r.id := by
  simp only [create, save, Disk.replaceRecord, Disk.writeTemporary, Disk.touchLog,
    Disk.touchEvents, Disk.writeInventory, Disk.hasDirectory_change]
  exact Disk.hasDirectory_makeDirectory d r.id

/-- Saving a record leaves the inventory of every run as it is. -/
@[simp] theorem inventoryOf_save (d : Disk) (r : RunRecord) (i : RunId) :
    (save d r).inventoryOf i = d.inventoryOf i := by
  simp [save]

/-- The inventory of a new run is the given text. -/
theorem inventoryOf_create (d : Disk) (r : RunRecord) (inventory : String) :
    (create d r inventory).inventoryOf r.id = some inventory := by
  simp only [create, inventoryOf_save, Disk.inventoryOf_touchLog, Disk.inventoryOf_touchEvents]
  exact Disk.inventoryOf_writeInventory (Disk.hasDirectory_makeDirectory d r.id)

/-- `RunStore.load`, for a directory whose `run.json` can be read. -/
def load (d : Disk) (i : RunId) : Option RunRecord := d.record i

/-- The readable records, in directory order.  `unreadable` are the entries
whose `run.json` could not be read this time. -/
def readable (d : Disk) (unreadable : List RunId) : List RunRecord :=
  d.directories.entries.filterMap fun e =>
    if e.1 ∈ unreadable then none else e.2.record

/-- `RunStore.list`: the newest `limit` readable records, newest first. -/
def list (d : Disk) (limit : Nat) (unreadable : List RunId) : List RunRecord :=
  ((readable d unreadable).insertionSort fun a b => b.id ≤ a.id).take limit

/-- The record `reconcile` writes over one that was left unfinished. -/
def interrupt (now : Instant) (r : RunRecord) : RunRecord :=
  { r with
    state := .interrupted
    finishedAt := some now
    message := some ("The service restarted while this run was going. The run is " ++
      "relaunchable: the playbooks are idempotent, so converging again is the recovery.") }

@[simp] theorem interrupt_id (now : Instant) (r : RunRecord) : (interrupt now r).id = r.id := rfl

@[simp] theorem interrupt_unfinished (now : Instant) (r : RunRecord) :
    (interrupt now r).unfinished = false := rfl

theorem mem_readable {d : Disk} {unreadable : List RunId} {r : RunRecord} :
    r ∈ readable d unreadable ↔ ∃ i, i ∉ unreadable ∧ d.record i = some r := by
  simp only [readable, List.mem_filterMap, Disk.record, Option.bind_eq_some_iff]
  constructor
  · rintro ⟨⟨i, dir⟩, hmem, hsome⟩
    by_cases hi : i ∈ unreadable
    · simp [hi] at hsome
    · exact ⟨i, hi, dir, Dict.mem_entries_iff.mp hmem, by simpa [hi] using hsome⟩
  · rintro ⟨i, hi, dir, hget, hrecord⟩
    exact ⟨(i, dir), Dict.mem_entries_iff.mpr hget, by simp [hi, hrecord]⟩

/-- Everything listed is on disk and was readable. -/
theorem mem_readable_of_mem_list {d : Disk} {limit : Nat} {unreadable : List RunId}
    {r : RunRecord} (h : r ∈ list d limit unreadable) : r ∈ readable d unreadable :=
  (List.mem_insertionSort _).mp (List.mem_of_mem_take h)

/-- No run is listed twice, where every directory holds its own run's record. -/
theorem nodup_ids_list {d : Disk} {limit : Nat} {unreadable : List RunId}
    (hids : ∀ i r, d.record i = some r → r.id = i) :
    ((list d limit unreadable).map (·.id)).Nodup := by
  have hreadable : ((readable d unreadable).map (·.id)).Nodup := by
    have hsub : ((readable d unreadable).map (·.id)).Sublist
        (d.directories.entries.map Prod.fst) := by
      unfold readable
      rw [List.map_filterMap]
      have hown : ∀ e ∈ d.directories.entries, ∀ r, e.2.record = some r → r.id = e.1 := by
        intro e he r hr
        refine hids e.1 r ?_
        simp [Disk.record, Dict.mem_entries_iff.mp he, hr]
      generalize d.directories.entries = entries at hown ⊢
      induction entries with
      | nil => simp
      | cons e rest ih =>
          have hrest := ih fun e' he' => hown e' (List.mem_cons_of_mem _ he')
          rw [List.filterMap_cons, List.map_cons]
          by_cases hi : e.1 ∈ unreadable
          · simpa [hi] using hrest.cons e.1
          · cases hr : e.2.record with
            | none => simpa [hi, hr] using hrest.cons e.1
            | some r =>
                have : r.id = e.1 := hown e (by simp) r hr
                simpa [hi, hr, this] using hrest.cons_cons e.1
    exact hsub.nodup d.directories.nodup
  have hsorted : (((readable d unreadable).insertionSort fun a b => b.id ≤ a.id).map
      (·.id)).Nodup :=
    ((List.perm_insertionSort _ _).map _).nodup_iff.mpr hreadable
  unfold list
  rw [List.map_take]
  exact (List.take_sublist _ _).nodup hsorted

end RunStore

end SeapathWebui.Runs
