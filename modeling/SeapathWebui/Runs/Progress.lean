/-
  Runs/Progress.lean --- what a run makes of the events that are reported to it.

  Source: app/runs/progress.py, and `on_event` of app/runs/service.py.

  Every event is read twice: `applyEvent` counts it in the progress of the run, and
  `summarise` reduces it to the line that is stored and sent.  An event is a dictionary of
  nested values, of which the two look at a few places.  `Event` asks that these places
  hold what the functions rely on: with a task that is not a text, or a result that is not
  a mapping, they raise, or what they store is not what the models declare.  Nothing is
  asked of the rest.

  `onEvent` is the call back of the adapter, and `requestRun_events` says that it is what
  the steps of the run thread come to.
-/
import SeapathWebui.Foundation.Value
import SeapathWebui.Runs.Lifecycle

set_option autoImplicit false

namespace SeapathWebui.Runs

open SeapathWebui.Foundation

/-! ## Events -/

/-- The dictionaries of the recap. -/
def statsKeys : List String := ["ok", "changed", "failures", "dark", "skipped", "rescued"]

/-- A mapping, or what `or {}` replaces by one. -/
def orMapping (v : Value) : Bool := !v.truthy || v.asDict.isSome

/-- A text, or null. -/
def orText : Value → Bool
  | .scalar .null | .scalar (.str _) => true
  | _ => false

/-- A mapping from texts to integers, or what `or {}` replaces by one. -/
def orCounts : Value → Bool
  | .map entries => entries.all fun
      | (.str _, .scalar (.int _)) => true
      | _ => false
  | v => !v.truthy

/-- `event.get("event_data") or {}` -/
def eventData (fields : Dict String Value) : Dict Scalar Value :=
  ((fields.get? "event_data").bind Value.asDict).getD ∅

/-- The places the service looks at hold what it relies on. -/
def declares (fields : Dict String Value) : Bool :=
  let data := eventData fields
  (fields.get? "event").all orText && (fields.get? "event_data").all orMapping &&
    (["play", "task", "host"].all fun key => (data.get? (.str key)).all orText) &&
    (statsKeys.all fun key => (data.get? (.str key)).all orCounts) &&
    (data.get? (.str "res")).all orMapping

/-- An event, as it is reported. -/
structure Event where
  fields : Dict String Value
  declared : declares fields = true

namespace Event

variable (e : Event)

/-- `event.get("event", "")` -/
def name : String :=
  match e.fields.get? "event" with
  | some (.scalar (.str s)) => s
  | _ => ""

/-- `data.get(key)`, of a text. -/
def text (key : String) : Option String :=
  match (eventData e.fields).get? (.str key) with
  | some (.scalar (.str s)) => some s
  | _ => none

/-- `data.get(key) or ...`, of a text. -/
def filled (key : String) : Option String := (e.text key).filter (· ≠ "")

/-- `data.get(key) or {}`, of the counts of the recap. -/
def counts (key : String) : Dict String Int :=
  match (eventData e.fields).get? (.str key) with
  | some (.map entries) => Dict.ofList (entries.filterMap fun
      | (.str host, .scalar (.int count)) => some (host, count)
      | _ => none)
  | _ => ∅

/-- `(data.get("res") or {}).get(key)` -/
def result (key : String) : Option Value :=
  (((eventData e.fields).get? (.str "res")).bind Value.asDict).bind (·.get? (.str key))

/-- The truth of `(data.get("res") or {}).get("changed")`. -/
def changed : Bool := (e.result "changed").any Value.truthy

end Event

/-! ## Progress -/

/-- The counters of a host, which are the outcomes of a task. -/
inductive Outcome
  | ok
  | changed
  | failed
  | skipped
  | unreachable
  deriving DecidableEq, Repr

/-- `_HOST_RESULTS` -/
def hostResults : List (String × Outcome) :=
  [("runner_on_ok", .ok), ("runner_on_failed", .failed), ("runner_on_skipped", .skipped),
    ("runner_on_unreachable", .unreachable), ("runner_on_async_failed", .failed)]

/-- An event that reports a result has one outcome. -/
theorem lookup_hostResults {name : String} {outcome : Outcome} :
    hostResults.lookup name = some outcome ↔ (name, outcome) ∈ hostResults :=
  ⟨Dict.mem_of_lookup, Dict.lookup_of_mem (by decide)⟩

/-- `getattr(state, outcome)` -/
def HostProgress.count (s : HostProgress) : Outcome → Int
  | .ok => s.ok
  | .changed => s.changed
  | .failed => s.failed
  | .skipped => s.skipped
  | .unreachable => s.unreachable

/-- `setattr(state, outcome, count)` -/
def HostProgress.setCount (s : HostProgress) (count : Int) : Outcome → HostProgress
  | .ok => { s with ok := count }
  | .changed => { s with changed := count }
  | .failed => { s with failed := count }
  | .skipped => { s with skipped := count }
  | .unreachable => { s with unreachable := count }

@[simp] theorem HostProgress.count_setCount (s : HostProgress) (n : Int) (o o' : Outcome) :
    (s.setCount n o).count o' = if o = o' then n else s.count o' := by
  cases o <;> cases o' <;> rfl

@[simp] theorem HostProgress.count_lastTask (s : HostProgress) (task : Option String)
    (o : Outcome) : HostProgress.count { s with lastTask := task } o = s.count o := by
  cases o <;> rfl

namespace RunProgress

/-- `_host` -/
def host (p : RunProgress) (name : String) : HostProgress := (p.hosts.get? name).getD {}

/-- What is assigned to the object that `_host` returns. -/
def setHost (p : RunProgress) (name : String) (s : HostProgress) : RunProgress :=
  { p with hosts := p.hosts.set name s }

@[simp] theorem host_setHost (p : RunProgress) (name other : String) (s : HostProgress) :
    (p.setHost name s).host other = if name = other then s else p.host other := by
  simp only [host, setHost, Dict.get?_set]
  split <;> rfl

end RunProgress

/-- The fields of `_apply_stats`, each with its key in the recap. -/
def statFields : List (Outcome × String) :=
  [(.ok, "ok"), (.changed, "changed"), (.failed, "failures"), (.skipped, "skipped"),
    (.unreachable, "dark")]

/-- The inner loop of `_apply_stats`. -/
def applyCounts (field : Outcome) (counts : List (String × Int)) (p : RunProgress) :
    RunProgress :=
  counts.foldl (fun p c => p.setHost c.1 ((p.host c.1).setCount c.2 field)) p

/-- `_apply_stats` -/
def applyStats (p : RunProgress) (e : Event) : RunProgress :=
  statFields.foldl (fun p f => applyCounts f.1 (e.counts f.2).entries p) p

/-- `apply_event` -/
def applyEvent (p : RunProgress) (e : Event) : RunProgress :=
  if e.name = "playbook_on_play_start" then { p with play := (e.filled "play").or p.play }
  else if e.name = "playbook_on_task_start" then
    { p with task := (e.filled "task").or p.task, tasksStarted := p.tasksStarted + 1 }
  else
    match hostResults.lookup e.name with
    | some outcome =>
        match e.filled "host" with
        | none => p
        | some host =>
            let s := p.host host
            let s :=
              if outcome = .ok ∧ e.changed then s.setCount (s.count .changed + 1) .changed
              else s.setCount (s.count outcome + 1) outcome
            p.setHost host { s with lastTask := (e.filled "task").or p.task }
    | none =>
        if e.name = "playbook_on_stats" then
          -- its presence is what tells a finished run
          applyStats { p with finalStatusSeen := true } e
        else p

/-- The progress after a sequence of events. -/
def progressOf (events : List Event) : RunProgress := events.foldl applyEvent {}

/-! ## Summaries -/

/-- The shape the run view receives. -/
inductive Summary
  | play (play : Option String)
  | task (task play : Option String)
  | result (host task : Option String) (outcome : Outcome) (message : Option String)
  | stats (stats : List (String × Dict String Int))
  deriving DecidableEq

/-- `_failure_message`.  A number in it came out of a JSON text, so it is not too long to be
written. -/
def failureMessage (rt : Runtime) (e : Event) : Option String :=
  (["msg", "stderr", "reason"].findSome? fun key => (e.result key).filter (·.truthy)).map
    fun value => String.ofList ((value.text rt.repr).toList.take 2000)

/-- `_stats` -/
def stats (e : Event) : List (String × Dict String Int) :=
  statsKeys.map fun key => (key, e.counts key)

/-- `summarise` -/
def summarise (rt : Runtime) (e : Event) : Option Summary :=
  if e.name = "playbook_on_play_start" then some (.play (e.text "play"))
  else if e.name = "playbook_on_task_start" then some (.task (e.text "task") (e.text "play"))
  else
    match hostResults.lookup e.name with
    | some outcome =>
        let outcome := if outcome = .ok ∧ e.changed then .changed else outcome
        some (.result (e.text "host") (e.text "task") outcome
          (if outcome = .failed then failureMessage rt e else none))
    | none => if e.name = "playbook_on_stats" then some (.stats (stats e)) else none

/-! ## The call back, and the end of the run -/

section Execute

variable (rt : Runtime) (dumps : Summary → String)

/-- What `on_event` works on: the store, and two local variables of `_execute`. -/
structure Reporting where
  disk : Disk
  record : RunRecord
  progress : RunProgress := {}

/-- `on_event`; `dumps` is `json.dumps` -/
def onEvent (s : Reporting) (e : Event) : Reporting :=
  let progress := applyEvent s.progress e
  let disk :=
    match summarise rt e with
    | some summary => s.disk.appendEvent s.record.id (dumps summary)
    | none => s.disk
  let record := { s.record with progress := progress }
  ⟨RunStore.save disk record, record, progress⟩

/-- How `adapter.execute` ends. -/
inductive Ending
  | returned (outcome : RunOutcome)
  | raised (message : String)

/-- What `_execute` makes of the record at its end. -/
def Ending.close (now : Instant) (s : Reporting) : Ending → RunRecord
  | .returned outcome => finishRecord now outcome s.progress s.record
  | .raised message => failRecord now message s.progress s.record

/-- `_execute` up to its last save, of a run to which these events are reported: the store
after that save, and the record it saved. -/
def executeRun (now : Instant) (d : Disk) (r : RunRecord) (events : List Event)
    (ending : Ending) : Disk × RunRecord :=
  let s := events.foldl (onEvent rt dumps) { disk := d, record := r }
  (RunStore.save s.disk (ending.close now s), ending.close now s)

/-- The steps of the run thread at an event. -/
def eventActions (now : Instant) (p : RunProgress) (e : Event) : List Action :=
  match summarise rt e with
  | some summary =>
      [.event (some (dumps summary)) (applyEvent p e), .proceed now, .proceed now, .proceed now]
  | none => [.event none (applyEvent p e), .proceed now, .proceed now]

/-- The steps at a sequence of them. -/
def reportActions (now : Instant) : RunProgress → List Event → List Action
  | _, [] => []
  | p, e :: rest => eventActions rt dumps now p e ++ reportActions now (applyEvent p e) rest

/-- The step at the end of `adapter.execute`. -/
def Ending.action (now : Instant) : Ending → Action
  | .returned outcome => .finish outcome now
  | .raised message => .raise message now

/-- The steps at an event are `on_event`. -/
theorem requestRun_event (i : RunId) (now : Instant) (s : Reporting) (assigned : Bool)
    (e : Event) :
    requestRun i (s.disk, .executing s.record s.progress assigned)
        (eventActions rt dumps now s.progress e) =
      some ((onEvent rt dumps s e).disk,
        .executing (onEvent rt dumps s e).record (onEvent rt dumps s e).progress true) := by
  unfold eventActions onEvent
  cases summarise rt e with
  | none => rfl
  | some summary =>
      simp only [requestRun, execute, requestStep, liveRecord_id]
      cases assigned <;> rfl

/-- The steps at a sequence of events. -/
theorem requestRun_events (i : RunId) (now : Instant) (events : List Event) :
    ∀ (s : Reporting) (assigned : Bool), ∃ assigned',
      requestRun i (s.disk, .executing s.record s.progress assigned)
          (reportActions rt dumps now s.progress events) =
        some ((events.foldl (onEvent rt dumps) s).disk,
          .executing (events.foldl (onEvent rt dumps) s).record
            (events.foldl (onEvent rt dumps) s).progress assigned') := by
  induction events with
  | nil => exact fun s assigned => ⟨assigned, rfl⟩
  | cons e rest ih =>
      intro s assigned
      obtain ⟨assigned', hrest⟩ := ih (onEvent rt dumps s e) true
      refine ⟨assigned', ?_⟩
      exact execute_append_eq_some.mpr ⟨_, requestRun_event rt dumps i now s assigned e, hrest⟩

/-- **The run thread, from the first event to its last save, is `_execute`.** -/
theorem requestRun_execute (i : RunId) (now : Instant) (d : Disk) (r : RunRecord)
    (events : List Event) (ending : Ending) :
    requestRun i (d, .executing r {} false)
        (reportActions rt dumps now {} events ++ [ending.action now, .proceed now, .proceed now]) =
      some ((executeRun rt dumps now d r events ending).1,
        .releasing .runEnded (executeRun rt dumps now d r events ending).2) := by
  obtain ⟨assigned, hevents⟩ := requestRun_events rt dumps i now events
    { disk := d, record := r } false
  refine execute_append_eq_some.mpr ⟨_, hevents, ?_⟩
  cases ending <;> rfl

/-- The progress of the run depends on the events alone. -/
theorem progress_foldl_onEvent (events : List Event) :
    ∀ s : Reporting, (events.foldl (onEvent rt dumps) s).progress =
      events.foldl applyEvent s.progress := by
  induction events with
  | nil => exact fun _ => rfl
  | cons e rest ih => exact fun s => ih (onEvent rt dumps s e)

/-- The record of the run shows that progress, from the first event on. -/
theorem record_progress_foldl_onEvent (events : List Event) :
    ∀ s : Reporting, s.record.progress = s.progress →
      (events.foldl (onEvent rt dumps) s).record.progress =
        (events.foldl (onEvent rt dumps) s).progress := by
  induction events with
  | nil => exact fun _ h => h
  | cons e rest ih => exact fun s _ => ih (onEvent rt dumps s e) rfl

/-- An event leaves the run in its directory. -/
theorem hasDirectory_onEvent {s : Reporting} {i : RunId} (h : s.disk.hasDirectory i) (e : Event) :
    (onEvent rt dumps s e).disk.hasDirectory i := by
  unfold onEvent
  cases summarise rt e with
  | none => simpa [RunStore.save, Disk.replaceRecord, Disk.writeTemporary] using h
  | some summary =>
      simpa [RunStore.save, Disk.replaceRecord, Disk.writeTemporary, Disk.appendEvent] using h

/-- So does a sequence of them, and the record is still that of the run. -/
theorem hasDirectory_foldl_onEvent {i : RunId} (events : List Event) :
    ∀ s : Reporting, s.disk.hasDirectory i →
      (events.foldl (onEvent rt dumps) s).disk.hasDirectory i ∧
        (events.foldl (onEvent rt dumps) s).record.id = s.record.id := by
  induction events with
  | nil => exact fun _ h => ⟨h, rfl⟩
  | cons e rest ih => exact fun s h => ih (onEvent rt dumps s e) (hasDirectory_onEvent rt dumps h e)

/-- What the store holds of the run in the end is the record that was saved last. -/
theorem record_executeRun (now : Instant) {d : Disk} {r : RunRecord} (h : d.hasDirectory r.id)
    (events : List Event) (ending : Ending) :
    (executeRun rt dumps now d r events ending).1.record r.id =
      some (executeRun rt dumps now d r events ending).2 := by
  obtain ⟨hdirectory, hid⟩ :=
    hasDirectory_foldl_onEvent rt dumps events { disk := d, record := r } h
  have hclosed : (executeRun rt dumps now d r events ending).2.id = r.id := by
    cases ending <;> exact hid
  rw [← hclosed]
  refine RunStore.record_save ?_
  rw [show (Ending.close now _ ending).id = r.id from hclosed]
  exact hdirectory

end Execute

end SeapathWebui.Runs
