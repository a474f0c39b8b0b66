/-
  Runs/Reconcile.lean --- closing the runs a restart interrupted, by file operations
  that may fail.

  Source: `load`, `list`, `save` and `reconcile` of app/runs/store.py.

  Runs/Lifecycle.lean takes `reconcile` one operation at a time, over a store that holds
  records.  Here every operation is answered by the system, and a record is the bytes of
  its file.  A file that is no record is left out (`load_eq_ok`); any other operation that
  fails is raised to the caller, since nothing in `reconcile` catches it
  (`returns_reconcile`).
-/
import SeapathWebui.Foundation.Files
import SeapathWebui.Runs.Store

set_option autoImplicit false

namespace SeapathWebui.Runs

open SeapathWebui.Foundation

/-- An entry of the store's directory, with the answers to the operations on it, and to
those that save the record it holds. -/
structure RunEntry where
  /-- `entry.is_dir()` -/
  directory : Answer Bool
  /-- `run.json` -/
  record : Answer ByteArray
  writeTemporary : Answer Unit
  replaceRecord : Answer Unit

/-- The answers to the file operations of `reconcile`. -/
structure RunFiles where
  /-- `self._root.is_dir()` -/
  root : Answer Bool
  /-- `self._root.iterdir()` -/
  entries : Answer (List RunEntry)
  unlinkLock : Answer Unit

variable {σ : Type} (parse : String → Option RunRecord)

/-- `RunRecord.model_validate_json`, of the text of a file; `none` is its `ValueError`. -/
def validateJson (text : String) : Except (Exc σ) RunRecord :=
  match parse text with
  | none => .error .value
  | some record => .ok record

/-- `RunStore.load` -/
def RunEntry.load (entry : RunEntry) : Except (Exc σ) (Option RunRecord) :=
  attempt Exc.isOsOrValue do
    let text ← readText entry.record
    validateJson parse text

/-- One round of `RunStore.list`. -/
def RunEntry.read (entry : RunEntry) : Except (Exc σ) (Option (RunRecord × RunEntry)) := do
  let present ← pathQuery entry.directory
  if present then do
    let record ← entry.load parse
    pure (record.map fun record => (record, entry))
  else pure none

/-- How `list` ends: newest first, and no more than `limit`. -/
def newest (limit : Nat) (records : List (RunRecord × RunEntry)) :
    List (RunRecord × RunEntry) :=
  (records.insertionSort fun a b => b.1.id ≤ a.1.id).take limit

/-- `RunStore.list`, each record with the entry it is from. -/
def RunFiles.list (files : RunFiles) (limit : Nat) :
    Except (Exc σ) (List (RunRecord × RunEntry)) := do
  let present ← pathQuery files.root
  if present then do
    let entries ← call files.entries
    let records ← entries.mapM (RunEntry.read parse)
    pure (newest limit (records.filterMap id))
  else pure []

/-- `RunStore.save`.  The directory of a record has its id for a name. -/
def RunEntry.save (entry : RunEntry) (record : RunRecord) : Except (Exc σ) Unit := do
  openPath record.id entry.writeTemporary
  call entry.replaceRecord

/-- One round of `reconcile`. -/
def closeRun (now : Instant) (listed : RunRecord × RunEntry) :
    Except (Exc σ) (Option RunRecord) :=
  if listed.1.unfinished then do
    listed.2.save (RunStore.interrupt now listed.1)
    pure (some (RunStore.interrupt now listed.1))
  else pure none

/-- `RunStore.reconcile`: the records it closed. -/
def RunFiles.reconcile (files : RunFiles) (now : Instant) :
    Except (Exc σ) (List RunRecord) := do
  let listed ← files.list parse 1000
  let closed ← listed.mapM (closeRun now)
  let recovered := closed.filterMap id
  if recovered = [] then pure recovered
  else do
    unlinkMissingOk files.unlinkLock
    pure recovered

/-! ## What is listed -/

/-- The entries of the store, where there is one that can be listed. -/
def RunFiles.found (files : RunFiles) : List RunEntry :=
  match files.root, files.entries with
  | .ok true, .ok entries => entries
  | .ok true, .error _ => []
  | .ok false, _ => []
  | .error _, _ => []

/-- The record of an entry, where it has one. -/
def RunEntry.recordOf (entry : RunEntry) : Option RunRecord :=
  match entry.record with
  | .ok bytes => (String.fromUTF8? bytes).bind parse
  | .error _ => none

/-- What a round of `list` adds. -/
def RunEntry.listed (entry : RunEntry) : Option (RunRecord × RunEntry) :=
  if entry.directory = .ok true then
    (entry.recordOf parse).map fun record => (record, entry)
  else none

/-- The records `reconcile` looks at. -/
def RunFiles.records (files : RunFiles) (limit : Nat) : List (RunRecord × RunEntry) :=
  newest limit (files.found.filterMap (RunEntry.listed parse))

/-- The unfinished ones among them. -/
def RunFiles.interrupted (files : RunFiles) : List (RunRecord × RunEntry) :=
  (files.records parse 1000).filter fun listed => listed.1.unfinished

/-- Where the entries hold the records of a store, these are what the store lists. -/
theorem map_fst_records {files : RunFiles} {d : Disk} {unreadable : List RunId} (limit : Nat)
    (h : files.found.filterMap (fun entry => (entry.listed parse).map Prod.fst) =
      RunStore.readable d unreadable) :
    (files.records parse limit).map Prod.fst = RunStore.list d limit unreadable := by
  have hsort : ((files.found.filterMap (RunEntry.listed parse)).insertionSort
      fun a b => b.1.id ≤ a.1.id).map Prod.fst =
        ((files.found.filterMap (RunEntry.listed parse)).map Prod.fst).insertionSort
          fun a b => b.id ≤ a.id :=
    List.map_insertionSort _ _ _ _ fun _ _ _ _ => Iff.rfl
  rw [RunFiles.records, newest, List.map_take, hsort, List.map_filterMap, h, RunStore.list]

/-- Whatever the file holds, loading it returns. -/
theorem load_eq_ok (entry : RunEntry) :
    (entry.load parse : Except (Exc σ) (Option RunRecord)) = .ok (entry.recordOf parse) := by
  have hload : ∀ text, (attempt Exc.isOsOrValue (validateJson parse text) :
      Except (Exc σ) (Option RunRecord)) = .ok (parse text) := by
    intro text
    unfold validateJson
    cases parse text with
    | none => rfl
    | some record => rfl
  unfold RunEntry.load RunEntry.recordOf
  cases entry.record with
  | error e => rfl
  | ok bytes =>
      cases hbytes : String.fromUTF8? bytes with
      | none =>
          have hread : (readText (.ok bytes) : Except (Exc σ) String) = .error .value := by
            simp [readText, call, decodeText, hbytes]
          rw [hread, error_bind]
          simp [attempt, Exc.isOsOrValue, hbytes]
      | some text =>
          have hread : (readText (.ok bytes) : Except (Exc σ) String) = .ok text :=
            readText_eq_ok.mpr ⟨bytes, rfl, hbytes⟩
          rw [hread, ok_bind, hload text]
          simp [hbytes]

theorem read_eq_ok {entry : RunEntry} (h : Answered entry.directory) :
    (entry.read parse : Except (Exc σ) (Option (RunRecord × RunEntry))) =
      .ok (entry.listed parse) := by
  unfold RunEntry.read RunEntry.listed
  by_cases hdirectory : entry.directory = .ok true
  · rw [pathQuery_eq_true.mpr hdirectory, if_pos hdirectory, ok_bind, if_pos rfl, load_eq_ok,
      ok_bind]
    rfl
  · rw [pathQuery_eq_false.mpr ⟨h, hdirectory⟩, if_neg hdirectory]
    rfl

theorem returns_read {entry : RunEntry} :
    Returns (entry.read parse : Except (Exc σ) (Option (RunRecord × RunEntry))) ↔
      Answered entry.directory := by
  constructor
  · intro h
    exact returns_pathQuery.mp (returns_bind.mp h).1
  · intro h
    exact ⟨_, read_eq_ok parse h⟩

/-- The store can be listed. -/
structure RunFiles.Listable (files : RunFiles) : Prop where
  root : Answered files.root
  entries : files.root = .ok true → Returns files.entries
  directories : ∀ entry ∈ files.found, Answered entry.directory

theorem found_eq {files : RunFiles} {entries : List RunEntry} (hroot : files.root = .ok true)
    (hentries : files.entries = .ok entries) : files.found = entries := by
  simp [RunFiles.found, hroot, hentries]

theorem found_eq_nil {files : RunFiles} (hroot : files.root ≠ .ok true) : files.found = [] := by
  unfold RunFiles.found
  split
  · exact absurd ‹_› hroot
  all_goals rfl

theorem list_eq_ok {files : RunFiles} (h : files.Listable) (limit : Nat) :
    (files.list parse limit : Except (Exc σ) (List (RunRecord × RunEntry))) =
      .ok (files.records parse limit) := by
  by_cases hroot : files.root = .ok true
  · obtain ⟨entries, hentries⟩ := h.entries hroot
    have hfound := found_eq hroot hentries
    have hloop : (entries.mapM (RunEntry.read parse) :
        Except (Exc σ) (List (Option (RunRecord × RunEntry)))) =
          .ok (entries.map (RunEntry.listed parse)) :=
      mapM_of_forall_eq_ok fun entry hentry =>
        read_eq_ok parse (h.directories entry (hfound ▸ hentry))
    rw [RunFiles.list, pathQuery_eq_true.mpr hroot, ok_bind, if_pos rfl,
      call_eq_ok.mpr hentries, ok_bind, hloop, ok_bind, RunFiles.records, hfound,
      List.filterMap_map]
    rfl
  · rw [RunFiles.list, pathQuery_eq_false.mpr ⟨h.root, hroot⟩, ok_bind, RunFiles.records,
      found_eq_nil hroot]
    simp [newest, pure, Except.pure]

theorem returns_list {files : RunFiles} {limit : Nat} :
    Returns (files.list parse limit : Except (Exc σ) (List (RunRecord × RunEntry))) ↔
      files.Listable := by
  constructor
  · intro h
    obtain ⟨hroot, h⟩ := returns_bind.mp h
    refine ⟨returns_pathQuery.mp hroot, fun hpresent => ?_, fun entry hentry => ?_⟩
    · have hrest := h true (pathQuery_eq_true.mpr hpresent)
      exact returns_call.mp (returns_bind.mp hrest).1
    · by_cases hpresent : files.root = .ok true
      · obtain ⟨hentries, hloop⟩ := returns_bind.mp (h true (pathQuery_eq_true.mpr hpresent))
        obtain ⟨entries, hentries⟩ := hentries
        have hrounds := (returns_bind.mp (hloop entries hentries)).1
        rw [found_eq hpresent (call_eq_ok.mp hentries)] at hentry
        exact (returns_read parse).mp (returns_mapM.mp hrounds entry hentry)
      · rw [found_eq_nil hpresent] at hentry
        cases hentry
  · intro h
    exact ⟨_, list_eq_ok parse h limit⟩

/-! ## What is saved -/

/-- A record can be saved: its id is the name of a directory, and no operation fails. -/
def Saved (listed : RunRecord × RunEntry) : Prop :=
  '\x00' ∉ listed.1.id.toList ∧ Returns listed.2.writeTemporary ∧
    Returns listed.2.replaceRecord

theorem returns_closeRun {now : Instant} {listed : RunRecord × RunEntry} :
    Returns (closeRun now listed : Except (Exc σ) (Option RunRecord)) ↔
      (listed.1.unfinished = true → Saved listed) := by
  have hsave : Returns (listed.2.save (RunStore.interrupt now listed.1) : Except (Exc σ) Unit) ↔
      Saved listed := by
    rw [RunEntry.save, returns_seq, returns_openPath, returns_call, RunStore.interrupt_id,
      and_assoc, Saved]
  unfold closeRun
  split
  · rename_i h
    rw [returns_seq, hsave, imp_iff_right h]
    exact and_iff_left (returns_ok _)
  · rename_i h
    exact iff_of_true (returns_ok _) fun hunfinished => absurd hunfinished h

theorem closeRun_eq_ok {now : Instant} {listed : RunRecord × RunEntry}
    {closed : Option RunRecord} (h : (closeRun now listed : Except (Exc σ) _) = .ok closed) :
    closed.isSome = listed.1.unfinished := by
  unfold closeRun at h
  split at h
  · rename_i hunfinished
    obtain ⟨-, h⟩ := seq_eq_ok.mp h
    obtain rfl := Except.ok.inj h
    exact hunfinished.symm
  · rename_i hfinished
    obtain rfl := Except.ok.inj h
    simpa using hfinished

/-- A run is closed exactly if there was one to close. -/
theorem filterMap_closed_eq_nil {now : Instant} {records : List (RunRecord × RunEntry)}
    {closed : List (Option RunRecord)}
    (h : (records.mapM (closeRun now) : Except (Exc σ) _) = .ok closed) :
    closed.filterMap id = [] ↔ records.filter (fun listed => listed.1.unfinished) = [] := by
  have hrounds := mapM_eq_ok.mp h
  clear h
  induction hrounds with
  | nil => simp
  | @cons listed o _ _ hround _ ih =>
      have hsome := closeRun_eq_ok hround
      cases o with
      | none => simpa [← hsome] using ih
      | some record => simp [← hsome]

/-- Every operation that `reconcile` comes to is answered. -/
structure RunFiles.Recovers (files : RunFiles) : Prop where
  listable : files.Listable
  saved : ∀ listed ∈ files.interrupted parse, Saved listed
  unlocked : files.interrupted parse ≠ [] → Unlinked files.unlinkLock

/-- Nothing in `reconcile` is caught: it returns where no operation fails. -/
theorem returns_reconcile {files : RunFiles} {now : Instant} :
    Returns (files.reconcile parse now : Except (Exc σ) (List RunRecord)) ↔
      files.Recovers parse := by
  have hlist (h : files.Listable) :
      (files.list parse 1000 : Except (Exc σ) _) = .ok (files.records parse 1000) :=
    list_eq_ok parse h 1000
  have hrounds : (∀ listed ∈ files.records parse 1000,
      Returns (closeRun now listed : Except (Exc σ) (Option RunRecord))) ↔
        ∀ listed ∈ files.interrupted parse, Saved listed := by
    simp only [returns_closeRun, RunFiles.interrupted, List.mem_filter, and_imp]
  constructor
  · intro h
    obtain ⟨hlistable, h⟩ := returns_bind.mp h
    have hlistable := (returns_list parse).mp hlistable
    obtain ⟨hloop, h⟩ := returns_bind.mp (h _ (hlist hlistable))
    refine ⟨hlistable, hrounds.mp (returns_mapM.mp hloop), fun hne => ?_⟩
    obtain ⟨closed, hclosed⟩ := hloop
    have hunlink := h closed hclosed
    rw [if_neg fun hnil => hne ((filterMap_closed_eq_nil hclosed).mp hnil)] at hunlink
    exact returns_unlinkMissingOk.mp (returns_seq.mp hunlink).1
  · intro h
    refine returns_bind.mpr ⟨(returns_list parse).mpr h.listable, fun listed hlisted => ?_⟩
    obtain rfl := Except.ok.inj ((hlist h.listable).symm.trans hlisted)
    refine returns_bind.mpr ⟨returns_mapM.mpr (hrounds.mpr h.saved), fun closed hclosed => ?_⟩
    by_cases hnil : closed.filterMap id = []
    · rw [if_pos hnil]
      exact returns_ok _
    · have hne := fun hnone => hnil ((filterMap_closed_eq_nil hclosed).mpr hnone)
      rw [if_neg hnil]
      exact returns_seq.mpr ⟨returns_unlinkMissingOk.mpr (h.unlocked hne), returns_ok _⟩

end SeapathWebui.Runs
