/-
  Runs/Models.lean --- what a run is, while it happens and afterwards.

  Source: app/runs/models.py, and `RunOutcome` of app/runs/adapter.py.

  `run.json` is one `RunRecord`; the record is written and read back whole, so
  the file is modelled by the record it holds.
-/
import SeapathWebui.Foundation.Dict

set_option autoImplicit false

namespace SeapathWebui.Runs

open SeapathWebui.Foundation

/-- A UTC `datetime`, to the microsecond. -/
structure Instant where
  year : Nat
  month : Nat
  day : Nat
  hour : Nat
  minute : Nat
  second : Nat
  microsecond : Nat
  deriving DecidableEq, Repr, Inhabited

/-- `RunState`. -/
inductive RunState
  | pending
  | running
  | success
  | failed
  | cancelled
  /-- Ended with no final status, almost always because the playbook rebooted
  the machine it was running from. -/
  | interrupted
  deriving DecidableEq, Repr, Inhabited

/-- `HostProgress`. -/
structure HostProgress where
  ok : Int := 0
  changed : Int := 0
  failed : Int := 0
  skipped : Int := 0
  unreachable : Int := 0
  lastTask : Option String := none
  deriving DecidableEq, Repr, Inhabited

/-- `HostProgress.reached`. -/
def HostProgress.reached (h : HostProgress) : Bool :=
  h.ok != 0 || h.changed != 0 || h.failed != 0 || h.skipped != 0

/-- `RunProgress`. -/
structure RunProgress where
  play : Option String := none
  task : Option String := none
  tasksStarted : Nat := 0
  hosts : Dict String HostProgress := ∅
  /-- Ansible emitted its recap. -/
  finalStatusSeen : Bool := false
  deriving DecidableEq, Inhabited

/-- `RunRecord`: the run as `GET /runs/{id}` answers it. -/
structure RunRecord where
  id : String
  playbook : String
  playbookId : String
  state : RunState := .pending
  check : Bool := false
  startedAt : Option Instant := none
  finishedAt : Option Instant := none
  launchedBy : String
  inventoryCommit : Option String := none
  collectionVersion : String := "unknown"
  command : List String := []
  returnCode : Option Int := none
  progress : RunProgress := {}
  message : Option String := none
  deriving DecidableEq, Inhabited

/-- `RunRecord.finished`. -/
def RunRecord.finished (r : RunRecord) : Bool :=
  match r.state with
  | .success | .failed | .cancelled | .interrupted => true
  | .pending | .running => false

/-- The test of `reconcile`: `state in (PENDING, RUNNING)`. -/
def RunRecord.unfinished (r : RunRecord) : Bool :=
  match r.state with
  | .pending | .running => true
  | .success | .failed | .cancelled | .interrupted => false

theorem RunRecord.finished_eq_not_unfinished (r : RunRecord) :
    r.finished = !r.unfinished := by
  cases h : r.state <;> simp [RunRecord.finished, RunRecord.unfinished, h]

/-- `RunOutcome` of the adapter. -/
structure RunOutcome where
  returnCode : Option Int
  command : List String
  cancelled : Bool := false
  error : Option String := none
  deriving DecidableEq, Repr, Inhabited

end SeapathWebui.Runs
