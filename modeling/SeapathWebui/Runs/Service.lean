/-
  Runs/Service.lean --- the pure parts of the run service.

  Source: app/runs/service.py: `_new_run_id`, the record `launch` creates,
  `_final_state` and `_final_message`, and the three ways `_execute` fills the
  record before its last save.
-/
import SeapathWebui.Runs.Store

set_option autoImplicit false

namespace SeapathWebui.Runs

open SeapathWebui.Foundation

/-! ## Run identifiers -/

/-- `_new_run_id`: `strftime("%Y%m%dT%H%M%S.%f")`. -/
def newRunId (now : Instant) : RunId :=
  String.ofList (Text.padDecimal 4 now.year ++ Text.padDecimal 2 now.month ++
    Text.padDecimal 2 now.day ++ 'T' :: (Text.padDecimal 2 now.hour ++
    Text.padDecimal 2 now.minute ++ Text.padDecimal 2 now.second ++ '.' ::
    Text.padDecimal 6 now.microsecond))

theorem newRunId_no_space (now : Instant) :
    ∀ c ∈ (newRunId now).toList, Text.isSpace c = false := by
  have hpad : ∀ {w n : Nat} {c : Char}, c ∈ Text.padDecimal w n → Text.isSpace c = false :=
    fun h => Text.isSpace_of_isDigit (Text.isDigit_of_mem_padDecimal h)
  intro c hc
  simp only [newRunId, String.toList_ofList, List.mem_append, List.mem_cons] at hc
  rcases hc with ((h | h) | h) | rfl | ((h | h) | h) | rfl | h
  all_goals first | exact hpad h | decide

theorem newRunId_ne_empty (now : Instant) : newRunId now ≠ "" := by
  intro h
  have := congrArg String.toList h
  simp [newRunId] at this

/-- `.lock` read back after `acquire` wrote it names the run. -/
theorem lockHolder_newRunId {d : Disk} {now : Instant} (h : d.lock = some (newRunId now)) :
    d.lockHolder = some (newRunId now) := by
  unfold Disk.lockHolder
  rw [h]
  simp [Text.strip_eq_self (newRunId_no_space now), newRunId_ne_empty]

/-! ## The record of a run -/

/-- What `launch` puts in a new record besides the identifier. -/
structure LaunchRequest where
  playbook : String
  playbookId : String
  check : Bool
  launchedBy : String
  inventoryCommit : Option String
  collectionVersion : String
  deriving DecidableEq, Repr, Inhabited

/-- The record as `launch` constructs it: `pending`. -/
def newRecord (i : RunId) (q : LaunchRequest) : RunRecord :=
  { id := i
    playbook := q.playbook
    playbookId := q.playbookId
    check := q.check
    launchedBy := q.launchedBy
    inventoryCommit := q.inventoryCommit
    collectionVersion := q.collectionVersion }

/-- The record `launch` saves before it starts the thread. -/
def markRunning (now : Instant) (r : RunRecord) : RunRecord :=
  { r with state := .running, startedAt := some now }

/-- `_final_state` -/
def finalState (outcome : RunOutcome) (progress : RunProgress) : RunState :=
  if outcome.cancelled then .cancelled
  else if (outcome.error.getD "") != "" then .failed
  -- without the recap the run did not finish, it stopped existing
  else if !progress.finalStatusSeen then .interrupted
  else if outcome.returnCode = some 0 then .success
  else .failed

/-- `", ".join(sorted(reached)) or "none"` -/
def hostsReached (progress : RunProgress) : String :=
  let reached := progress.hosts.entries.filterMap fun e => if e.2.reached then some e.1 else none
  let names := ", ".intercalate (reached.insertionSort fun a b => a ≤ b)
  if names = "" then "none" else names

/-- `_final_message`, called with the final state already in the record. -/
def finalMessage (r : RunRecord) (outcome : RunOutcome) : Option String :=
  if (outcome.error.getD "") != "" then outcome.error
  else
    match r.state with
    | .interrupted => some ("The run ended without a final status, which usually means the " ++
        "playbook rebooted the machine it was running from. Relaunching is safe: the " ++
        "playbooks are idempotent. Hosts reached: " ++ hostsReached r.progress ++ ".")
    | .cancelled => some ("Cancelled. A convergence stopped part way leaves the machine " ++
        "between two states, so relaunch or check it before relying on it.")
    | .failed => some ("A host failed and any_errors_fatal stopped everything. The per host " ++
        "results below name which ones were reached.")
    | .pending | .running | .success => none

/-- The record `_execute` saves last when the adapter returned an outcome. -/
def finishRecord (now : Instant) (outcome : RunOutcome) (progress : RunProgress)
    (r : RunRecord) : RunRecord :=
  let r := { r with
    command := outcome.command
    returnCode := outcome.returnCode
    state := finalState outcome progress }
  { r with
    message := finalMessage r outcome
    finishedAt := some now
    progress := progress }

/-- The record `_execute` saves last when the adapter raised. -/
def failRecord (now : Instant) (message : String) (progress : RunProgress)
    (r : RunRecord) : RunRecord :=
  { r with
    state := .failed
    message := some message
    finishedAt := some now
    progress := progress }

@[simp] theorem newRecord_id (i : RunId) (q : LaunchRequest) : (newRecord i q).id = i := rfl
@[simp] theorem markRunning_id (now : Instant) (r : RunRecord) :
    (markRunning now r).id = r.id := rfl
@[simp] theorem finishRecord_id (now : Instant) (o : RunOutcome) (p : RunProgress)
    (r : RunRecord) : (finishRecord now o p r).id = r.id := rfl
@[simp] theorem failRecord_id (now : Instant) (m : String) (p : RunProgress) (r : RunRecord) :
    (failRecord now m p r).id = r.id := rfl

@[simp] theorem newRecord_unfinished (i : RunId) (q : LaunchRequest) :
    (newRecord i q).unfinished = true := rfl
@[simp] theorem markRunning_unfinished (now : Instant) (r : RunRecord) :
    (markRunning now r).unfinished = true := rfl
@[simp] theorem failRecord_unfinished (now : Instant) (m : String) (p : RunProgress)
    (r : RunRecord) : (failRecord now m p r).unfinished = false := rfl

/-- Whatever the adapter reports, the last save closes the record. -/
@[simp] theorem finishRecord_unfinished (now : Instant) (o : RunOutcome) (p : RunProgress)
    (r : RunRecord) : (finishRecord now o p r).unfinished = false := by
  simp only [RunRecord.unfinished, finishRecord, finalState]
  split_ifs <;> rfl

end SeapathWebui.Runs
