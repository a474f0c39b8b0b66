/-
  Runs/Lifecycle.lean --- the run service, one file operation at a time.

  Source: app/runs/service.py `launch` and `_execute`, app/runs/store.py
  `acquire`, `create`, `save`, `release` and `reconcile`, and the startup task of
  app/core/bootstrap.py that calls `reconcile`.

  Any number of launch requests are handled by concurrent worker threads, and
  each request that gets as far starts a run thread.  The two run one after the
  other in the same piece of code, so one `Phase` says where a request, and then
  the run it started, stands.  Every step is one file operation on the store, or
  one call back from the adapter; every file operation may also raise.  Between
  any two steps the process may crash: the threads are gone, the files stay.  A
  restart reconciles before it serves.

  What the adapter reports (events, output, the outcome, an exception) comes from
  the labels, so a property proved of every run holds of every adapter.
-/
import SeapathWebui.Foundation.Threads
import SeapathWebui.Foundation.Transition
import SeapathWebui.Runs.Service

set_option autoImplicit false

namespace SeapathWebui.Runs

open SeapathWebui.Foundation

/-! ## Where a request stands -/

/-- The file operations of `create` before its `save`, and the read of the
inventory that is evaluated as its argument. -/
inductive CreateOp
  | readInventory
  | makeDirectory
  | writeInventory
  | touchEvents
  | touchLog
  deriving DecidableEq, Repr

/-- The two file operations of `save`. -/
inductive SaveOp
  | writeTemporary
  | replace
  deriving DecidableEq, Repr

/-- Which of the four `save` calls is going on. -/
inductive SaveStage
  /-- the last operation of `create` -/
  | create
  /-- `launch`, marking the run as running -/
  | mark
  /-- `on_event` -/
  | event
  /-- the `finally` block of `_execute` -/
  | final
  deriving DecidableEq, Repr

/-- The two callers of `release`. -/
inductive ReleaseCause
  /-- `create` raised: `launch` releases and raises again. -/
  | createFailed
  /-- the end of `_execute` -/
  | runEnded
  deriving DecidableEq, Repr

/-- The next operation of a launch request or of the run thread it started,
with the local variables it needs. -/
inductive Phase
  /-- not received yet -/
  | idle
  /-- `acquire`: the exclusive create -/
  | opening (r : RunRecord) (inventory : String)
  /-- `acquire`: the file exists, the run id is not written yet -/
  | writingId (r : RunRecord) (inventory : String)
  | creating (op : CreateOp) (r : RunRecord) (inventory : String)
  | saving (stage : SaveStage) (op : SaveOp) (r : RunRecord)
  /-- `thread.start()` -/
  | starting (r : RunRecord)
  /-- inside `adapter.execute`, between two calls back.  `assigned` says that
  `record.progress` is the object `run_progress` already. -/
  | executing (r : RunRecord) (progress : RunProgress) (assigned : Bool)
  /-- `on_event`: `append_event` -/
  | appending (line : String) (r : RunRecord) (progress : RunProgress) (assigned : Bool)
  /-- `release`: reading the holder -/
  | releasing (cause : ReleaseCause) (r : RunRecord)
  /-- `release`: the unlink -/
  | unlinking (cause : ReleaseCause) (r : RunRecord)
  /-- an exception after the exclusive create that no `release` follows, or the
  unlink of `release` raised: the run is over and its lock is still there -/
  | abandoned
  /-- the request was refused, the run ended, or the process died -/
  | ended
  deriving DecidableEq

/-- From the exclusive create that succeeded to the end of `release`, whether the
id is written already or not, and for ever where the run never gets to the end of
its release. -/
def Phase.owns : Phase → Bool
  | .writingId _ _ | .creating _ _ _ | .saving _ _ _ | .starting _ | .executing _ _ _
  | .appending _ _ _ _ | .releasing _ _ | .unlinking _ _ | .abandoned => true
  | .idle | .opening _ _ | .ended => false

/-- A playbook is executing: the run thread is inside `adapter.execute`. -/
def Phase.runsPlaybook : Phase → Bool
  | .executing _ _ _ | .appending _ _ _ _ | .saving .event _ _ => true
  | _ => false

theorem Phase.owns_of_runsPlaybook {l : Phase} (h : l.runsPlaybook = true) : l.owns = true := by
  cases l <;> first | rfl | simp [Phase.runsPlaybook] at h

/-! ## Steps of a request -/

/-- What happens at the next step of a request. -/
inductive Action
  /-- the request arrives; `inventory` is the text `raw()` is going to return -/
  | launch (q : LaunchRequest) (inventory : String)
  /-- the pending operation succeeds; `now` is what the clock reads -/
  | proceed (now : Instant)
  /-- the pending operation raises, leaving the files as they were (a temporary
  record cut short is written again before anything reads it) -/
  | fail
  /-- writing the run id raises, leaving `written` in the lock file -/
  | failWriting (written : String)
  /-- the adapter reports an event: the line `summarise` makes of it, if any, and
  the progress it leaves -/
  | event (line : Option String) (progress : RunProgress)
  /-- the adapter reports output, which `append_log` writes -/
  | output (text : String)
  /-- the adapter returns -/
  | finish (outcome : RunOutcome) (now : Instant)
  /-- the adapter raises -/
  | raise (message : String) (now : Instant)

/-- The record as the run thread sees it after `run_progress` changed. -/
def liveRecord (assigned : Bool) (progress : RunProgress) (r : RunRecord) : RunRecord :=
  if assigned then { r with progress := progress } else r

@[simp] theorem liveRecord_id (assigned : Bool) (p : RunProgress) (r : RunRecord) :
    (liveRecord assigned p r).id = r.id := by
  unfold liveRecord; split <;> rfl

@[simp] theorem liveRecord_unfinished (assigned : Bool) (p : RunProgress) (r : RunRecord) :
    (liveRecord assigned p r).unfinished = r.unfinished := by
  unfold liveRecord; split <;> rfl

/-- The operation of `create` that follows. -/
def afterCreateOp (r : RunRecord) (inventory : String) : CreateOp → Phase
  | .readInventory => .creating .makeDirectory r inventory
  | .makeDirectory => .creating .writeInventory r inventory
  | .writeInventory => .creating .touchEvents r inventory
  | .touchEvents => .creating .touchLog r inventory
  | .touchLog => .saving .create .writeTemporary r

/-- What an operation of `create` does to the store. -/
def createEffect (r : RunRecord) (inventory : String) (d : Disk) : CreateOp → Disk
  | .readInventory => d
  | .makeDirectory => d.makeDirectory r.id
  | .writeInventory => d.writeInventory r.id inventory
  | .touchEvents => d.touchEvents r.id
  | .touchLog => d.touchLog r.id

/-- Where a request goes on after a `save` that succeeded. -/
def afterSave (now : Instant) (r : RunRecord) : SaveStage → Phase
  | .create => .saving .mark .writeTemporary (markRunning now r)
  | .mark => .starting r
  | .event => .executing r r.progress true
  | .final => .releasing .runEnded r

/-- Where a `save` that raises leaves the request.  Only the one inside `create`
is followed by a release; the exception of the last one leaves the `finally`
block. -/
def afterSaveRaised (r : RunRecord) : SaveStage → Phase
  | .create => .releasing .createFailed r
  | .mark => .abandoned
  | .event => .executing r r.progress true
  | .final => .abandoned

/-- One step of a request on the store.  `i` is the identifier `_new_run_id`
gives it. -/
def requestStep (i : RunId) : Action → Disk → Phase → Option (Disk × Phase)
  | .launch q inventory, d, .idle => some (d, .opening (newRecord i q) inventory)
  | .proceed _, d, .opening r inventory =>
      match d.createLock with
      | none => some (d, .ended)
      | some d => some (d, .writingId r inventory)
  | .fail, d, .opening _ _ => some (d, .ended)
  | .proceed _, d, .writingId r inventory =>
      some (d.writeLock r.id, .creating .readInventory r inventory)
  -- raised outside the `try` around `create`: nobody releases
  | .failWriting written, d, .writingId _ _ => some (d.writeLock written, .abandoned)
  | .proceed _, d, .creating op r inventory =>
      some (createEffect r inventory d op, afterCreateOp r inventory op)
  | .fail, d, .creating _ r _ => some (d, .releasing .createFailed r)
  | .proceed _, d, .saving stage .writeTemporary r =>
      some (d.writeTemporary r, .saving stage .replace r)
  | .proceed now, d, .saving stage .replace r =>
      some (d.replaceRecord r.id, afterSave now r stage)
  | .fail, d, .saving stage _ r => some (d, afterSaveRaised r stage)
  | .proceed _, d, .starting r => some (d, .executing r {} false)
  | .fail, d, .starting _ => some (d, .abandoned)
  | .event none p, d, .executing r _ _ =>
      some (d, .saving .event .writeTemporary { r with progress := p })
  | .event (some line) p, d, .executing r _ assigned =>
      some (d, .appending line (liveRecord assigned p r) p assigned)
  | .output text, d, .executing r p assigned =>
      some (d.appendLog r.id text, .executing r p assigned)
  | .finish outcome now, d, .executing r p _ =>
      some (d, .saving .final .writeTemporary (finishRecord now outcome p r))
  | .raise message now, d, .executing r p _ =>
      some (d, .saving .final .writeTemporary (failRecord now message p r))
  | .proceed _, d, .appending line r p _ =>
      some (d.appendEvent r.id line, .saving .event .writeTemporary { r with progress := p })
  -- the exception goes into the adapter, which may stop or carry on
  | .fail, d, .appending _ r p assigned => some (d, .executing r p assigned)
  | .proceed _, d, .releasing cause r =>
      if d.lockHolder = some r.id ∨ d.lockHolder = none then some (d, .unlinking cause r)
      else some (d, .ended)
  -- `_lock_holder` turns a read error into `None`
  | .fail, d, .releasing cause r => some (d, .unlinking cause r)
  | .proceed _, d, .unlinking _ _ => some (d.unlinkLock, .ended)
  | .fail, d, .unlinking _ _ => some (d, .abandoned)
  | _, _, _ => none

/-! ## The service -/

/-- What the process is doing. -/
inductive Service
  /-- not running -/
  | stopped
  /-- `reconcile`: the records still to look at, and those already closed -/
  | reconciling (todo recovered : List RunRecord)
  /-- `reconcile`: saving a record it interrupts -/
  | closing (op : SaveOp) (r : RunRecord) (todo recovered : List RunRecord)
  /-- `reconcile`: the unlink at its end -/
  | unlocking (recovered : List RunRecord)
  /-- serving requests -/
  | serving
  deriving DecidableEq

/-- The store and the process: what the threads share. -/
structure Node where
  disk : Disk
  service : Service
  deriving DecidableEq

/-- The whole system: the node and the requests of every history, `ι` many. -/
abbrev World (ι : Type*) : Type _ := Config ι Node Phase

/-- A request only makes steps while the process serves. -/
def threadStep {ι : Type*} (clock : ι → Instant) (t : ι) (a : Action) (n : Node) (l : Phase) :
    Option (Node × Phase) :=
  if n.service = .serving then
    (requestStep (newRunId (clock t)) a n.disk l).map fun p => ({ n with disk := p.1 }, p.2)
  else none

/-- One step of `reconcile`. -/
def reconcileStep (now : Instant) (n : Node) : Option Node :=
  match n.service with
  | .reconciling [] [] => some { n with service := .serving }
  | .reconciling [] (r :: recovered) => some { n with service := .unlocking (r :: recovered) }
  | .reconciling (r :: todo) recovered =>
      if r.unfinished then
        some { n with
          service := .closing .writeTemporary (RunStore.interrupt now r) todo recovered }
      else some { n with service := .reconciling todo recovered }
  | .closing .writeTemporary r todo recovered =>
      some ⟨n.disk.writeTemporary r, .closing .replace r todo recovered⟩
  | .closing .replace r todo recovered =>
      some ⟨n.disk.replaceRecord r.id, .reconciling todo (recovered ++ [r])⟩
  | .unlocking _ => some ⟨n.disk.unlinkLock, .serving⟩
  | .stopped | .serving => none

/-- Every thread of the process is gone. -/
def Phase.kill : Phase → Phase
  | .idle => .idle
  | _ => .ended

/-- The steps of the system. -/
inductive Label (ι : Type*)
  /-- a request, or the run it started, takes a step -/
  | request (t : ι) (a : Action)
  /-- the process dies -/
  | crash
  /-- the process starts and `reconcile` lists the newest 1000 records, those
  excepted whose `run.json` cannot be read this time -/
  | start (unreadable : List RunId)
  /-- `reconcile` takes a step -/
  | reconcile (now : Instant)
  /-- a file operation of `reconcile` raises, which ends the start -/
  | reconcileRaises

/-- One step of the system. -/
def worldStep {ι : Type*} [DecidableEq ι] (clock : ι → Instant) (w : World ι) :
    Label ι → Option (World ι)
  | .request t a => w.advance (threadStep clock) t a
  | .crash =>
      if w.shared.service = .stopped then none
      else some ⟨{ w.shared with service := .stopped }, fun t => (w.locals t).kill⟩
  | .start unreadable =>
      if w.shared.service = .stopped then
        some ⟨{ w.shared with
          service := .reconciling (RunStore.list w.shared.disk 1000 unreadable) [] }, w.locals⟩
      else none
  | .reconcile now =>
      match reconcileStep now w.shared with
      | none => none
      | some n => some ⟨n, w.locals⟩
  | .reconcileRaises =>
      match w.shared.service with
      | .closing _ _ _ _ | .unlocking _ =>
          some ⟨{ w.shared with service := .stopped }, w.locals⟩
      | .stopped | .reconciling _ _ | .serving => none

/-- Before the first start: nothing runs. -/
def boot {ι : Type*} (d : Disk) : World ι := ⟨⟨d, .stopped⟩, fun _ => .idle⟩

/-- `w` is reached by the history `labels` from the store `d`. -/
def Reaches {ι : Type*} [DecidableEq ι] (clock : ι → Instant) (d : Disk)
    (labels : List (Label ι)) (w : World ι) : Prop :=
  execute (worldStep clock) (boot d) labels = some w

/-! ## A request alone

Taken one after the other and without a failure, the steps of a request are the
routines of the store. -/

/-- The steps of one request on the store. -/
def requestRun (i : RunId) (p : Disk × Phase) (actions : List Action) : Option (Disk × Phase) :=
  execute (fun p a => requestStep i a p.1 p.2) p actions

/-- `acquire`, `create`, and the `save` that marks the run as running. -/
theorem requestRun_launch {i : RunId} {d acquired : Disk} {q : LaunchRequest}
    {inventory : String} {now : Instant} (h : RunStore.acquire d i = .ok acquired) :
    requestRun i (d, .idle) (.launch q inventory :: List.replicate 11 (.proceed now)) =
      some (RunStore.save (RunStore.create acquired (newRecord i q) inventory)
        (markRunning now (newRecord i q)), .starting (markRunning now (newRecord i q))) := by
  unfold RunStore.acquire at h
  cases hlock : d.createLock with
  | none => rw [hlock] at h; cases h
  | some opened =>
      rw [hlock] at h
      obtain rfl := Except.ok.inj h
      simp only [requestRun, execute, requestStep, List.replicate, hlock]
      rfl

/-- The launch that loses: `acquire` refuses, and the store is as it was. -/
theorem requestRun_refused {i : RunId} {d : Disk} {q : LaunchRequest} {inventory : String}
    {now : Instant} {e : RunStore.StoreError} (h : RunStore.acquire d i = .error e) :
    requestRun i (d, .idle) [.launch q inventory, .proceed now] = some (d, .ended) := by
  unfold RunStore.acquire at h
  cases hlock : d.createLock with
  | none => simp only [requestRun, execute, requestStep, hlock]
  | some opened => rw [hlock] at h; cases h

/-- The end of `_execute`: the last `save`. -/
theorem requestRun_finish (i : RunId) (d : Disk) (r : RunRecord) (p : RunProgress)
    (assigned : Bool) (outcome : RunOutcome) (now : Instant) :
    requestRun i (d, .executing r p assigned)
        [.finish outcome now, .proceed now, .proceed now] =
      some (RunStore.save d (finishRecord now outcome p r),
        .releasing .runEnded (finishRecord now outcome p r)) := rfl

/-- `release`, of a lock that is the run's own or names nobody. -/
theorem requestRun_release {i : RunId} {d : Disk} {cause : ReleaseCause} {r : RunRecord}
    {now : Instant} (h : d.lockHolder = some r.id ∨ d.lockHolder = none) :
    requestRun i (d, .releasing cause r) [.proceed now, .proceed now] =
      some (RunStore.release d r.id, .ended) := by
  simp only [requestRun, execute, requestStep, RunStore.release, if_pos h]

/-- `release`, of a lock that names another run. -/
theorem requestRun_release_foreign {i : RunId} {d : Disk} {cause : ReleaseCause}
    {r : RunRecord} {now : Instant} (h : ¬ (d.lockHolder = some r.id ∨ d.lockHolder = none)) :
    requestRun i (d, .releasing cause r) [.proceed now] =
      some (RunStore.release d r.id, .ended) := by
  simp only [requestRun, execute, requestStep, RunStore.release, if_neg h]

/-! ## What a step can do -/

theorem Phase.kill_eq (l : Phase) : l.kill = .idle ∧ l = .idle ∨ l.kill = .ended := by
  cases l <;> simp [Phase.kill]

@[simp] theorem Phase.owns_kill (l : Phase) : l.kill.owns = false := by
  cases l <;> rfl

/-- Nothing happens to a request that was given up. -/
theorem requestStep_abandoned (i : RunId) (a : Action) (d : Disk) :
    requestStep i a d .abandoned = none := by
  cases a with
  | event line p => cases line <;> rfl
  | _ => rfl

/-- The steps of a request, each by what it starts from and what it leaves. -/
inductive RequestStep (i : RunId) : Action → Disk → Phase → Disk → Phase → Prop
  | launch (q : LaunchRequest) (inventory : String) (d : Disk) :
      RequestStep i (.launch q inventory) d .idle d (.opening (newRecord i q) inventory)
  /-- the lock file is there already -/
  | refuse (now : Instant) {d : Disk} (r : RunRecord) (inventory : String)
      (hlock : d.lock ≠ none) :
      RequestStep i (.proceed now) d (.opening r inventory) d .ended
  | failOpening (d : Disk) (r : RunRecord) (inventory : String) :
      RequestStep i .fail d (.opening r inventory) d .ended
  /-- the exclusive create succeeds -/
  | acquire (now : Instant) {d : Disk} (r : RunRecord) (inventory : String)
      (hlock : d.lock = none) :
      RequestStep i (.proceed now) d (.opening r inventory) (d.writeLock "")
        (.writingId r inventory)
  | writeId (now : Instant) (d : Disk) (r : RunRecord) (inventory : String) :
      RequestStep i (.proceed now) d (.writingId r inventory) (d.writeLock r.id)
        (.creating .readInventory r inventory)
  | failWriting (written : String) (d : Disk) (r : RunRecord) (inventory : String) :
      RequestStep i (.failWriting written) d (.writingId r inventory) (d.writeLock written)
        .abandoned
  | create (now : Instant) (op : CreateOp) (d : Disk) (r : RunRecord) (inventory : String) :
      RequestStep i (.proceed now) d (.creating op r inventory) (createEffect r inventory d op)
        (afterCreateOp r inventory op)
  | failCreate (op : CreateOp) (d : Disk) (r : RunRecord) (inventory : String) :
      RequestStep i .fail d (.creating op r inventory) d (.releasing .createFailed r)
  /-- the first half of a save -/
  | write (now : Instant) (stage : SaveStage) (d : Disk) (r : RunRecord) :
      RequestStep i (.proceed now) d (.saving stage .writeTemporary r) (d.writeTemporary r)
        (.saving stage .replace r)
  /-- the second half -/
  | replace (now : Instant) (stage : SaveStage) (d : Disk) (r : RunRecord) :
      RequestStep i (.proceed now) d (.saving stage .replace r) (d.replaceRecord r.id)
        (afterSave now r stage)
  | failSave (stage : SaveStage) (op : SaveOp) (d : Disk) (r : RunRecord) :
      RequestStep i .fail d (.saving stage op r) d (afterSaveRaised r stage)
  | start (now : Instant) (d : Disk) (r : RunRecord) :
      RequestStep i (.proceed now) d (.starting r) d (.executing r {} false)
  | failStart (d : Disk) (r : RunRecord) : RequestStep i .fail d (.starting r) d .abandoned
  /-- an event that `summarise` makes no line of -/
  | silentEvent (p : RunProgress) (d : Disk) (r : RunRecord) (before : RunProgress)
      (assigned : Bool) :
      RequestStep i (.event none p) d (.executing r before assigned) d
        (.saving .event .writeTemporary { r with progress := p })
  | event (line : String) (p : RunProgress) (d : Disk) (r : RunRecord) (before : RunProgress)
      (assigned : Bool) :
      RequestStep i (.event (some line) p) d (.executing r before assigned) d
        (.appending line (liveRecord assigned p r) p assigned)
  | output (text : String) (d : Disk) (r : RunRecord) (p : RunProgress) (assigned : Bool) :
      RequestStep i (.output text) d (.executing r p assigned) (d.appendLog r.id text)
        (.executing r p assigned)
  | finish (outcome : RunOutcome) (now : Instant) (d : Disk) (r : RunRecord)
      (p : RunProgress) (assigned : Bool) :
      RequestStep i (.finish outcome now) d (.executing r p assigned) d
        (.saving .final .writeTemporary (finishRecord now outcome p r))
  | raise (message : String) (now : Instant) (d : Disk) (r : RunRecord) (p : RunProgress)
      (assigned : Bool) :
      RequestStep i (.raise message now) d (.executing r p assigned) d
        (.saving .final .writeTemporary (failRecord now message p r))
  | append (now : Instant) (line : String) (d : Disk) (r : RunRecord) (p : RunProgress)
      (assigned : Bool) :
      RequestStep i (.proceed now) d (.appending line r p assigned) (d.appendEvent r.id line)
        (.saving .event .writeTemporary { r with progress := p })
  | failAppend (line : String) (d : Disk) (r : RunRecord) (p : RunProgress)
      (assigned : Bool) :
      RequestStep i .fail d (.appending line r p assigned) d (.executing r p assigned)
  /-- the lock is the run's own, or names nobody -/
  | held (now : Instant) (cause : ReleaseCause) {d : Disk} (r : RunRecord)
      (hholder : d.lockHolder = some r.id ∨ d.lockHolder = none) :
      RequestStep i (.proceed now) d (.releasing cause r) d (.unlinking cause r)
  /-- it names another run -/
  | foreign (now : Instant) (cause : ReleaseCause) {d : Disk} (r : RunRecord)
      (hholder : ¬ (d.lockHolder = some r.id ∨ d.lockHolder = none)) :
      RequestStep i (.proceed now) d (.releasing cause r) d .ended
  | failHolder (cause : ReleaseCause) (d : Disk) (r : RunRecord) :
      RequestStep i .fail d (.releasing cause r) d (.unlinking cause r)
  | unlink (now : Instant) (cause : ReleaseCause) (d : Disk) (r : RunRecord) :
      RequestStep i (.proceed now) d (.unlinking cause r) d.unlinkLock .ended
  | failUnlink (cause : ReleaseCause) (d : Disk) (r : RunRecord) :
      RequestStep i .fail d (.unlinking cause r) d .abandoned

/-- Every other pair of an action and a phase has no step. -/
theorem RequestStep.of_eq_some {i : RunId} {a : Action} {d d' : Disk} {l l' : Phase}
    (h : requestStep i a d l = some (d', l')) : RequestStep i a d l d' l' := by
  cases a <;> cases l <;> simp only [requestStep, reduceCtorEq, Option.some.injEq,
    Prod.mk.injEq] at h
  case launch.idle q inventory =>
    obtain ⟨rfl, rfl⟩ := h
    exact .launch q inventory d
  case proceed.opening now r inventory =>
    split at h
    · rename_i hbusy
      have hlock : d.lock ≠ none := by
        intro hlock
        rw [Disk.createLock_eq_some.mpr ⟨hlock, rfl⟩] at hbusy
        cases hbusy
      obtain ⟨rfl, rfl⟩ := Prod.mk.inj (Option.some.inj h)
      exact .refuse now r inventory hlock
    · rename_i opened hopened
      obtain ⟨rfl, rfl⟩ := Prod.mk.inj (Option.some.inj h)
      obtain ⟨hlock, rfl⟩ := Disk.createLock_eq_some.mp hopened
      exact .acquire now r inventory hlock
  case fail.opening r inventory =>
    obtain ⟨rfl, rfl⟩ := h
    exact .failOpening d r inventory
  case proceed.writingId now r inventory =>
    obtain ⟨rfl, rfl⟩ := h
    exact .writeId now d r inventory
  case failWriting.writingId written r inventory =>
    obtain ⟨rfl, rfl⟩ := h
    exact .failWriting written d r inventory
  case proceed.creating now op r inventory =>
    obtain ⟨rfl, rfl⟩ := h
    exact .create now op d r inventory
  case fail.creating op r inventory =>
    obtain ⟨rfl, rfl⟩ := h
    exact .failCreate op d r inventory
  case proceed.saving now stage op r =>
    cases op with
    | writeTemporary =>
        obtain ⟨rfl, rfl⟩ := Prod.mk.inj (Option.some.inj h)
        exact .write now stage d r
    | replace =>
        obtain ⟨rfl, rfl⟩ := Prod.mk.inj (Option.some.inj h)
        exact .replace now stage d r
  case fail.saving stage op r =>
    obtain ⟨rfl, rfl⟩ := h
    exact .failSave stage op d r
  case proceed.starting now r =>
    obtain ⟨rfl, rfl⟩ := h
    exact .start now d r
  case fail.starting r =>
    obtain ⟨rfl, rfl⟩ := h
    exact .failStart d r
  case event.executing line p r before assigned =>
    cases line with
    | none =>
        obtain ⟨rfl, rfl⟩ := Prod.mk.inj (Option.some.inj h)
        exact .silentEvent p d r before assigned
    | some line =>
        obtain ⟨rfl, rfl⟩ := Prod.mk.inj (Option.some.inj h)
        exact .event line p d r before assigned
  case output.executing text r p assigned =>
    obtain ⟨rfl, rfl⟩ := h
    exact .output text d r p assigned
  case finish.executing outcome now r p assigned =>
    obtain ⟨rfl, rfl⟩ := h
    exact .finish outcome now d r p assigned
  case raise.executing message now r p assigned =>
    obtain ⟨rfl, rfl⟩ := h
    exact .raise message now d r p assigned
  case proceed.appending now line r p assigned =>
    obtain ⟨rfl, rfl⟩ := h
    exact .append now line d r p assigned
  case fail.appending line r p assigned =>
    obtain ⟨rfl, rfl⟩ := h
    exact .failAppend line d r p assigned
  case proceed.releasing now cause r =>
    split at h
    · rename_i hholder
      obtain ⟨rfl, rfl⟩ := Prod.mk.inj (Option.some.inj h)
      exact .held now cause r hholder
    · rename_i hholder
      obtain ⟨rfl, rfl⟩ := Prod.mk.inj (Option.some.inj h)
      exact .foreign now cause r hholder
  case fail.releasing cause r =>
    obtain ⟨rfl, rfl⟩ := h
    exact .failHolder cause d r
  case proceed.unlinking now cause r =>
    obtain ⟨rfl, rfl⟩ := h
    exact .unlink now cause d r
  case fail.unlinking cause r =>
    obtain ⟨rfl, rfl⟩ := h
    exact .failUnlink cause d r

/-- A write of a request that replaces no record and appends no event, or none at all. -/
inductive MinorWrite (d : Disk) : Disk → Prop
  | none : MinorWrite d d
  | lock (text : Option String) : MinorWrite d { d with lock := text }
  | create (op : CreateOp) (r : RunRecord) (inventory : String) :
      MinorWrite d (createEffect r inventory d op)
  | temporary (r : RunRecord) : MinorWrite d (d.writeTemporary r)
  | log (i : RunId) (text : String) : MinorWrite d (d.appendLog i text)

/-- What a step of a request writes. -/
theorem requestStep_writes {i : RunId} {a : Action} {d d' : Disk} {l l' : Phase}
    (h : requestStep i a d l = some (d', l')) :
    MinorWrite d d' ∨
    (∃ now stage r, l = .saving stage .replace r ∧ d' = d.replaceRecord r.id ∧
      l' = afterSave now r stage) ∨
    ∃ line r p assigned, l = .appending line r p assigned ∧ d' = d.appendEvent r.id line := by
  cases RequestStep.of_eq_some h with
  | replace now stage d r => exact .inr (.inl ⟨now, stage, r, rfl, rfl, rfl⟩)
  | append now line d r p assigned => exact .inr (.inr ⟨line, r, p, assigned, rfl, rfl⟩)
  | create now op d r inventory => exact .inl (.create op r inventory)
  | write now stage d r => exact .inl (.temporary r)
  | output text d r p assigned => exact .inl (.log r.id text)
  | acquire | writeId | failWriting | unlink => exact .inl (.lock _)
  | launch | refuse | failOpening | failCreate | failSave | start | failStart | silentEvent
  | event | finish | raise | failAppend | held | foreign | failHolder | failUnlink =>
      exact .inl .none

theorem threadStep_eq_some {ι : Type*} {clock : ι → Instant} {t : ι} {a : Action}
    {n m : Node} {l l' : Phase} :
    threadStep clock t a n l = some (m, l') ↔
      n.service = .serving ∧
        ∃ d, requestStep (newRunId (clock t)) a n.disk l = some (d, l') ∧
          m = ⟨d, .serving⟩ := by
  unfold threadStep
  cases hs : n.service with
  | serving =>
      simp only [if_true, Option.map_eq_some_iff, Prod.mk.injEq, true_and]
      constructor
      · rintro ⟨⟨d, l''⟩, hstep, rfl, rfl⟩
        exact ⟨d, hstep, rfl⟩
      · rintro ⟨d, hstep, rfl⟩
        exact ⟨(d, l'), hstep, rfl, rfl⟩
  | stopped => simp
  | reconciling todo recovered => simp
  | closing op r todo recovered => simp
  | unlocking recovered => simp

/-- The steps of `reconcile`, each by what it starts from and what it leaves. -/
inductive ReconcileStep (now : Instant) : Node → Node → Prop
  /-- at its end, where it closed nothing -/
  | serve (d : Disk) : ReconcileStep now ⟨d, .reconciling [] []⟩ ⟨d, .serving⟩
  /-- at its end, where it closed something -/
  | unlock (d : Disk) (r : RunRecord) (recovered : List RunRecord) :
      ReconcileStep now ⟨d, .reconciling [] (r :: recovered)⟩ ⟨d, .unlocking (r :: recovered)⟩
  /-- an unfinished record is going to be closed -/
  | close (d : Disk) {r : RunRecord} (todo recovered : List RunRecord)
      (hu : r.unfinished = true) :
      ReconcileStep now ⟨d, .reconciling (r :: todo) recovered⟩
        ⟨d, .closing .writeTemporary (RunStore.interrupt now r) todo recovered⟩
  /-- a finished one is passed over -/
  | skip (d : Disk) {r : RunRecord} (todo recovered : List RunRecord)
      (hu : r.unfinished = false) :
      ReconcileStep now ⟨d, .reconciling (r :: todo) recovered⟩ ⟨d, .reconciling todo recovered⟩
  /-- the first half of a save -/
  | write (d : Disk) (r : RunRecord) (todo recovered : List RunRecord) :
      ReconcileStep now ⟨d, .closing .writeTemporary r todo recovered⟩
        ⟨d.writeTemporary r, .closing .replace r todo recovered⟩
  /-- the second half -/
  | replace (d : Disk) (r : RunRecord) (todo recovered : List RunRecord) :
      ReconcileStep now ⟨d, .closing .replace r todo recovered⟩
        ⟨d.replaceRecord r.id, .reconciling todo (recovered ++ [r])⟩
  /-- the unlink -/
  | unlink (d : Disk) (recovered : List RunRecord) :
      ReconcileStep now ⟨d, .unlocking recovered⟩ ⟨d.unlinkLock, .serving⟩

theorem ReconcileStep.of_eq_some {now : Instant} {n m : Node}
    (h : reconcileStep now n = some m) : ReconcileStep now n m := by
  obtain ⟨d, service⟩ := n
  cases service with
  | stopped | serving => cases h
  | unlocking recovered =>
      obtain rfl := Option.some.inj h
      exact .unlink d recovered
  | closing op r todo recovered =>
      cases op with
      | writeTemporary =>
          obtain rfl := Option.some.inj h
          exact .write d r todo recovered
      | replace =>
          obtain rfl := Option.some.inj h
          exact .replace d r todo recovered
  | reconciling todo recovered =>
      cases todo with
      | nil =>
          cases recovered with
          | nil =>
              obtain rfl := Option.some.inj h
              exact .serve d
          | cons r recovered =>
              obtain rfl := Option.some.inj h
              exact .unlock d r recovered
      | cons r todo =>
          simp only [reconcileStep] at h
          cases hu : r.unfinished with
          | true =>
              simp only [hu, if_true] at h
              obtain rfl := Option.some.inj h
              exact .close d todo recovered hu
          | false =>
              simp only [hu, Bool.false_eq_true, if_false] at h
              obtain rfl := Option.some.inj h
              exact .skip d todo recovered hu

/-- The system outside the requests: what a step of the process itself can be. -/
theorem worldStep_cases {ι : Type*} [DecidableEq ι] {clock : ι → Instant} {w w' : World ι}
    {label : Label ι} (h : worldStep clock w label = some w') :
    (∃ t a, label = .request t a ∧ w.advance (threadStep clock) t a = some w') ∨
    (label = .crash ∧ w.shared.service ≠ .stopped ∧
      w' = ⟨{ w.shared with service := .stopped }, fun t => (w.locals t).kill⟩) ∨
    (∃ unreadable, label = .start unreadable ∧ w.shared.service = .stopped ∧
      w' = ⟨{ w.shared with
        service := .reconciling (RunStore.list w.shared.disk 1000 unreadable) [] },
        w.locals⟩) ∨
    (∃ now n, label = .reconcile now ∧ reconcileStep now w.shared = some n ∧
      w' = ⟨n, w.locals⟩) ∨
    (label = .reconcileRaises ∧
      ((∃ op r todo recovered, w.shared.service = .closing op r todo recovered) ∨
        ∃ recovered, w.shared.service = .unlocking recovered) ∧
      w' = ⟨{ w.shared with service := .stopped }, w.locals⟩) := by
  cases label with
  | request t a => exact Or.inl ⟨t, a, rfl, h⟩
  | crash =>
      simp only [worldStep] at h
      split at h
      · cases h
      · rename_i hs
        exact Or.inr (Or.inl ⟨rfl, hs, (Option.some.inj h).symm⟩)
  | start unreadable =>
      simp only [worldStep] at h
      split at h
      · rename_i hs
        exact Or.inr (Or.inr (Or.inl ⟨unreadable, rfl, hs, (Option.some.inj h).symm⟩))
      · cases h
  | reconcile now =>
      simp only [worldStep] at h
      split at h
      · cases h
      · rename_i n hn
        exact Or.inr (Or.inr (Or.inr (Or.inl ⟨now, n, rfl, hn, (Option.some.inj h).symm⟩)))
  | reconcileRaises =>
      simp only [worldStep] at h
      split at h
      · rename_i op r todo recovered hs
        exact Or.inr (Or.inr (Or.inr (Or.inr
          ⟨rfl, Or.inl ⟨op, r, todo, recovered, hs⟩, (Option.some.inj h).symm⟩)))
      · rename_i recovered hs
        exact Or.inr (Or.inr (Or.inr (Or.inr
          ⟨rfl, Or.inr ⟨recovered, hs⟩, (Option.some.inj h).symm⟩)))
      · cases h
      · cases h
      · cases h

end SeapathWebui.Runs
