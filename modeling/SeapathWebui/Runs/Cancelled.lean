/-
  Runs/Cancelled.lean --- what an accepted cancellation does to the run.

  Source: `FakeRunAdapter.execute` of app/runs/fake.py and `_execute` of
  app/runs/service.py, in the system of Runs/Cancel.lean.

  The fake asks `should_cancel` before each event.  So a cancellation is too late once the
  last event is fetched: the request was answered as accepted, and the run ends as if nobody
  had asked (`accepted_cancel`).  Otherwise one more event is reported at most.
-/
import SeapathWebui.Runs.Cancel

set_option autoImplicit false

namespace SeapathWebui.Runs

open SeapathWebui.Foundation

variable {ι κ : Type*}

/-! ## The file of events -/

namespace Disk

/-- The content of `events.jsonl` of a run. -/
def eventsOf (d : Disk) (i : RunId) : String :=
  ((d.directories.get? i).bind (·.events)).getD ""

theorem eventsOf_change (d : Disk) (i : RunId) (f : RunDirectory → RunDirectory) :
    (d.change i f).eventsOf i =
      ((d.directories.get? i).bind fun dir => (f dir).events).getD "" := by
  simp [eventsOf, change, Dict.get?_modify, Option.bind_map]

theorem eventsOf_change_of_keeps (d : Disk) (i : RunId) {f : RunDirectory → RunDirectory}
    (h : ∀ dir, (f dir).events = dir.events) : (d.change i f).eventsOf i = d.eventsOf i := by
  simp only [eventsOf_change, h]
  rfl

theorem eventsOf_appendEvent {d : Disk} {i : RunId} (h : d.hasDirectory i) (line : String) :
    (d.appendEvent i line).eventsOf i = d.eventsOf i ++ line ++ "\n" := by
  obtain ⟨dir, hdir⟩ := Option.isSome_iff_exists.mp h
  rw [appendEvent, eventsOf_change, eventsOf, hdir]
  rfl

end Disk

/-- The event lines of the run are those before and, for each of `more`, one more. -/
def Disk.Extends (d : Disk) (i : RunId) (before : String) (more : List String) : Prop :=
  d.eventsOf i = before ++ String.join (more.map (· ++ "\n"))

theorem Disk.Extends.of_keeps {d d' : Disk} {i : RunId} {before : String} {more : List String}
    (h : d.Extends i before more) (hkeeps : d'.eventsOf i = d.eventsOf i) :
    d'.Extends i before more := hkeeps.trans h

theorem Disk.Extends.appendEvent {d : Disk} {i : RunId} {before : String} {more : List String}
    (h : d.Extends i before more) (hdir : d.hasDirectory i) (line : String) :
    (d.appendEvent i line).Extends i before (more ++ [line]) := by
  rw [Disk.Extends, Disk.eventsOf_appendEvent hdir, h]
  simp [String.append_assoc]

/-! ## Where the run stands after it was told -/

/-- The adapter is going to be told, or was told already, before it returns. -/
def FakePoint.heeds (events : List Event) : FakePoint → Bool
  | .preparing _ => !events.isEmpty
  | .asking _ rest | .reporting _ _ rest => !rest.isEmpty
  | .returning outcome => outcome.cancelled
  | .raising => false

/-- The thread is about to save the record for the last time. -/
def Phase.closing : Phase → Bool
  | .saving .final _ _ => true
  | _ => false

/-- The run thread was started. -/
def Phase.started : Phase → Bool
  | .executing _ _ _ | .appending _ _ _ _ | .saving .event _ _ | .saving .final _ _
  | .releasing _ _ | .unlinking _ _ | .abandoned | .ended => true
  | _ => false

/-- How many lines it still appends, if it is told at the next `should_cancel`. -/
def Phase.owedLines (s : Option FakePoint) : Phase → Nat
  | .executing _ _ _ =>
      match s with
      | some (.reporting _ _ _) => 1
      | _ => 0
  | .appending _ _ _ _ => 1
  | _ => 0

/-- What holds of a run that was told: `heeded` is what `FakePoint.heeds` said then, and
`before` the event lines of then. -/
structure Told (events : List Event) (heeded : Bool) (before : String) (i : RunId) (d : Disk)
    (l : Phase) (s : Option FakePoint) : Prop where
  started : l.started = true
  point : l.runsPlaybook = true →
    ∃ s', s = some s' ∧ (s' = .raising ∨ s'.heeds events = heeded)
  verdict : ∀ op r, l = .saving .final op r →
    s = some .raising ∨ (r.state = .cancelled ↔ heeded = true)
  lines : l.runsPlaybook = true ∨ l.closing = true →
    ∃ more, d.Extends i before more ∧ more.length + l.owedLines s ≤ 1

/-- A thread that is past its last save. -/
theorem Told.past {events : List Event} {heeded : Bool} {before : String} {i : RunId} {d : Disk}
    {l : Phase} {s : Option FakePoint} (hstarted : l.started = true)
    (hruns : l.runsPlaybook = false) (hclosing : l.closing = false) :
    Told events heeded before i d l s where
  started := hstarted
  point h := by rw [hruns] at h; cases h
  verdict op r h := by rw [h] at hclosing; cases hclosing
  lines h := by rw [hruns, hclosing] at h; simp at h

/-- A thread whose adapter is going to raise. -/
theorem Told.raising {events : List Event} {heeded : Bool} {before : String} {i : RunId}
    {d : Disk} {r : RunRecord} {p : RunProgress} {assigned : Bool} {s : Option FakePoint}
    (hs : s = some .raising) {more : List String} (hmore : d.Extends i before more)
    (hcount : more.length ≤ 1) :
    Told events heeded before i d (.executing r p assigned) s where
  started := rfl
  point _ := ⟨.raising, hs, .inl rfl⟩
  verdict _ _ h := by cases h
  lines _ := ⟨more, hmore, by rw [hs]; exact hcount⟩

/-- The adapter goes on, to a point that does not change how the run ends. -/
theorem Told.moves {events : List Event} {heeded : Bool} {before : String} {i : RunId}
    {d : Disk} {r : RunRecord} {p : RunProgress} {assigned : Bool} {s next : FakePoint}
    (htold : Told events heeded before i d (.executing r p assigned) (some s))
    (hs : s ≠ .raising) (hheeds : next.heeds events = s.heeds events)
    (howed : (Phase.executing r p assigned).owedLines (some next) = 0) :
    Told events heeded before i d (.executing r p assigned) (some next) where
  started := rfl
  point _ := by
    obtain ⟨s', hs', hheeds'⟩ := htold.point rfl
    obtain rfl := Option.some.inj hs'
    exact ⟨next, rfl, .inr (hheeds.trans (hheeds'.resolve_left hs))⟩
  verdict _ _ h := by cases h
  lines _ := by
    obtain ⟨more, hmore, hcount⟩ := htold.lines (.inl rfl)
    exact ⟨more, hmore, by rw [howed]; exact Nat.le_of_add_right_le hcount⟩

/-! ## Its steps -/

section Steps

variable {S : RunSetup ι FakePoint} {rt : Runtime} {process : Process} {exception text : String}
  {events : List Event} {returnCode : Int}
  (hfake : S.adapter = fakeRunAdapter rt process exception events returnCode text)

include hfake

/-- At an event, the fake is in the body of its loop. -/
theorem reporting_of_call {s : FakePoint} {e : Event} {next raised : FakePoint}
    (h : S.adapter.call s = .event e next raised) :
    ∃ command rest, s = .reporting command e rest ∧ next = .asking command rest ∧
      raised = .raising := by
  rw [hfake] at h
  cases s with
  | reporting command e' rest =>
      injection h with he hnext hraised
      exact ⟨command, rest, by rw [he], hnext.symm, hraised.symm⟩
  | asking command rest => cases rest <;> cases h
  | preparing | returning | raising => cases h

/-- The call back raises: so does the adapter. -/
theorem raised_of_call {s : FakePoint} {e : Event} {next raised : FakePoint}
    (h : S.adapter.call s = .event e next raised) : S.adapter.interrupted s = .raising := by
  obtain ⟨-, -, -, -, rfl⟩ := reporting_of_call hfake h
  rw [RunAdapter.interrupted, h]

/-- A step of the thread outside the adapter. -/
theorem Told.request {heeded : Bool} {before : String} {t : ι} {a : Action} {d d' : Disk}
    {l l' : Phase} {s : Option FakePoint}
    (hl : l.Holds (newRunId (S.clock t)) d)
    (htold : Told events heeded before (newRunId (S.clock t)) d l s)
    (hcalls : l.betweenCalls = false)
    (hevent : l.runsPlaybook = true → ∃ s', s = some s' ∧
      ∃ e next raised, S.adapter.call s' = .event e next raised)
    (h : requestStep (newRunId (S.clock t)) a d l = some (d', l')) :
    Told events heeded before (newRunId (S.clock t)) d' l' (S.follow t s a l) := by
  cases RequestStep.of_eq_some h with
  | write now stage d r =>
      have hkeeps : (d.writeTemporary r).eventsOf r.id = d.eventsOf r.id :=
        Disk.eventsOf_change_of_keeps d r.id fun _ => rfl
      rw [hl.1] at hkeeps
      cases stage with
      | create | mark => cases htold.started
      | event =>
          obtain ⟨more, hmore, hcount⟩ := htold.lines (.inl rfl)
          exact ⟨rfl, htold.point, fun _ _ hr => (by cases hr),
            fun _ => ⟨more, hmore.of_keeps hkeeps, hcount⟩⟩
      | final =>
          obtain ⟨more, hmore, hcount⟩ := htold.lines (.inr rfl)
          refine ⟨rfl, fun hr => (by cases hr), fun op r' hr => ?_,
            fun _ => ⟨more, hmore.of_keeps hkeeps, hcount⟩⟩
          obtain rfl : r = r' := by injection hr
          exact htold.verdict .writeTemporary r rfl
  | replace now stage d r =>
      cases stage with
      | create | mark => cases htold.started
      | final => exact .past rfl rfl rfl
      | event =>
          have hkeeps : (d.replaceRecord r.id).eventsOf (newRunId (S.clock t)) =
              d.eventsOf (newRunId (S.clock t)) := by
            rw [← hl.1]
            exact Disk.eventsOf_change_of_keeps d r.id fun dir => by split <;> rfl
          obtain ⟨s', rfl, e, next, raised, hcall⟩ := hevent rfl
          obtain ⟨command, rest, rfl, rfl, -⟩ := reporting_of_call hfake hcall
          have hnext : S.adapter.resumed (.reporting command e rest) = .asking command rest := by
            rw [RunAdapter.resumed, hcall]
          obtain ⟨more, hmore, hcount⟩ := htold.lines (.inl rfl)
          obtain ⟨_, hs, hheeds⟩ := htold.point rfl
          obtain rfl := Option.some.inj hs
          refine ⟨rfl, fun _ => ⟨_, congrArg some hnext, .inr ?_⟩, fun _ _ hr => (by cases hr),
            fun _ => ⟨more, hmore.of_keeps hkeeps, ?_⟩⟩
          · exact hheeds.resolve_left (by simp)
          · simpa [RunSetup.follow, hnext, Phase.owedLines, afterSave] using hcount
  | failSave stage op d r =>
      cases stage with
      | create | mark => cases htold.started
      | final => exact .past rfl rfl rfl
      | event =>
          obtain ⟨s', rfl, e, next, raised, hcall⟩ := hevent rfl
          obtain ⟨more, hmore, hcount⟩ := htold.lines (.inl rfl)
          exact .raising (raised_of_call hfake hcall ▸ rfl) hmore (Nat.le_of_add_right_le hcount)
  | append now line d r p assigned =>
      obtain ⟨more, hmore, hcount⟩ := htold.lines (.inl rfl)
      have hdir := hl.2.2.2.2
      have hid := hl.1
      refine ⟨rfl, htold.point, fun _ _ hr => (by cases hr), fun _ => ⟨more ++ [line], ?_, ?_⟩⟩
      · rw [hid]
        exact hmore.appendEvent hdir line
      · simpa [Phase.owedLines] using hcount
  | failAppend line d r p assigned =>
      obtain ⟨s', rfl, e, next, raised, hcall⟩ := hevent rfl
      obtain ⟨more, hmore, hcount⟩ := htold.lines (.inl rfl)
      exact .raising (raised_of_call hfake hcall ▸ rfl) hmore (Nat.le_of_add_right_le hcount)
  | silentEvent | event | output | finish | raise => cases hcalls
  | held | foreign | failHolder | unlink | failUnlink => exact .past rfl rfl rfl
  | _ => cases htold.started

variable {heeded : Bool} {before : String} {i : RunId} {d : Disk} {r : RunRecord}
  {p : RunProgress} {assigned : Bool} {s : FakePoint}

theorem Told.operate
    (htold : Told events heeded before i d (.executing r p assigned) (some s))
    {next raised : FakePoint} (hcall : S.adapter.call s = .operate next raised) :
    Told events heeded before i d (.executing r p assigned) (some next) := by
  rw [hfake] at hcall
  cases s with
  | preparing request =>
      injection hcall with hnext
      exact htold.moves (by simp) (by rw [← hnext]; rfl) (by rw [← hnext]; rfl)
  | asking command rest => cases rest <;> cases hcall
  | reporting | returning | raising => cases hcall

/-- `should_cancel` says yes. -/
theorem Told.poll
    (htold : Told events heeded before i d (.executing r p assigned) (some s))
    {next : Bool → FakePoint} (hcall : S.adapter.call s = .poll next) :
    Told events heeded before i d (.executing r p assigned) (some (next true)) := by
  rw [hfake] at hcall
  cases s with
  | asking command rest =>
      cases rest with
      | nil => cases hcall
      | cons e rest =>
          injection hcall with hnext
          exact htold.moves (by simp) (by rw [← hnext]; rfl) (by rw [← hnext]; rfl)
  | preparing | reporting | returning | raising => cases hcall

/-- Output goes to the log; what the run has reported stays. -/
theorem Told.output
    (htold : Told events heeded before i d (.executing r p assigned) (some s)) (hid : r.id = i)
    {written : String} {next raised : FakePoint}
    (hcall : S.adapter.call s = .output written next raised)
    {d' : Disk} {l' : Phase} {j : RunId}
    (h : requestStep j (.output written) d (.executing r p assigned) = some (d', l')) :
    Told events heeded before i d' l' (some next) := by
  have hmoved : Told events heeded before i d (.executing r p assigned) (some next) := by
    rw [hfake] at hcall
    cases s with
    | asking command rest =>
        cases rest with
        | nil =>
            injection hcall with _ hnext
            exact htold.moves (by simp) (by rw [← hnext]; rfl) (by rw [← hnext]; rfl)
        | cons e rest => cases hcall
    | preparing | reporting | returning | raising => cases hcall
  cases RequestStep.of_eq_some h with
  | output =>
      have hkeeps : (d.appendLog r.id written).eventsOf r.id = d.eventsOf r.id :=
        Disk.eventsOf_change_of_keeps _ _ fun _ => rfl
      rw [hid] at hkeeps ⊢
      refine ⟨hmoved.started, hmoved.point, hmoved.verdict, fun hactive => ?_⟩
      obtain ⟨more, hmore, hcount⟩ := hmoved.lines hactive
      exact ⟨more, hmore.of_keeps hkeeps, hcount⟩

/-- The adapter reports its last event. -/
theorem Told.event
    (htold : Told events heeded before i d (.executing r p assigned) (some s))
    {e : Event} {next raised : FakePoint} (hcall : S.adapter.call s = .event e next raised)
    {d' : Disk} {l' : Phase} {j : RunId} {line : Option String} {progress : RunProgress}
    (h : requestStep j (.event line progress) d (.executing r p assigned) = some (d', l')) :
    Told events heeded before i d' l' (some s) := by
  obtain ⟨command, rest, rfl, -, -⟩ := reporting_of_call hfake hcall
  obtain ⟨more, hmore, hcount⟩ := htold.lines (.inl rfl)
  cases RequestStep.of_eq_some h with
  | silentEvent =>
      exact ⟨rfl, htold.point, fun _ _ h => (by cases h),
        fun _ => ⟨more, hmore, Nat.le_of_add_right_le hcount⟩⟩
  | event =>
      exact ⟨rfl, htold.point, fun _ _ h => (by cases h), fun _ => ⟨more, hmore, hcount⟩⟩

theorem Told.finish
    (htold : Told events heeded before i d (.executing r p assigned) (some s))
    {outcome : RunOutcome} (hcall : S.adapter.call s = .finish outcome)
    {d' : Disk} {l' : Phase} {j : RunId} {now : Instant}
    (h : requestStep j (.finish outcome now) d (.executing r p assigned) = some (d', l')) :
    Told events heeded before i d' l' (some s) := by
  obtain ⟨more, hmore, hcount⟩ := htold.lines (.inl rfl)
  obtain ⟨_, hs, hheeds⟩ := htold.point rfl
  obtain rfl := Option.some.inj hs
  have hs : s = .returning outcome := by
    rw [hfake] at hcall
    cases s with
    | returning o => injection hcall with ho; rw [ho]
    | asking command rest => cases rest <;> cases hcall
    | preparing | reporting | raising => cases hcall
  subst hs
  cases RequestStep.of_eq_some h with
  | finish =>
      refine ⟨rfl, fun h => (by cases h), fun op r' hr => .inr ?_,
        fun _ => ⟨more, hmore, Nat.le_of_add_right_le hcount⟩⟩
      obtain rfl : finishRecord now outcome p r = r' := by injection hr
      rw [← hheeds.resolve_left (by simp)]
      exact finalState_eq_cancelled

theorem Told.raise
    (htold : Told events heeded before i d (.executing r p assigned) (some s))
    {message : String} (hcall : S.adapter.call s = .raise message)
    {d' : Disk} {l' : Phase} {j : RunId} {now : Instant}
    (h : requestStep j (.raise message now) d (.executing r p assigned) = some (d', l')) :
    Told events heeded before i d' l' (some s) := by
  obtain ⟨more, hmore, hcount⟩ := htold.lines (.inl rfl)
  have hs : s = .raising := by
    rw [hfake] at hcall
    cases s with
    | raising => rfl
    | asking command rest => cases rest <;> cases hcall
    | preparing | reporting | returning => cases hcall
  cases RequestStep.of_eq_some h with
  | raise =>
      exact ⟨rfl, fun h => (by cases h), fun _ _ _ => .inl (congrArg some hs),
        fun _ => ⟨more, hmore, Nat.le_of_add_right_le hcount⟩⟩

/-- An operation of the adapter raises. -/
theorem Told.interrupted
    (htold : Told events heeded before i d (.executing r p assigned) (some s)) :
    Told events heeded before i d (.executing r p assigned)
      (some (S.adapter.interrupted s)) := by
  have hcases : S.adapter.interrupted s = .raising ∨ S.adapter.interrupted s = s := by
    rw [hfake]
    cases s with
    | asking command rest => cases rest <;> simp [RunAdapter.interrupted, fakeRunAdapter]
    | preparing | reporting | returning | raising =>
        simp [RunAdapter.interrupted, fakeRunAdapter]
  rcases hcases with hraising | hsame
  · obtain ⟨more, hmore, hcount⟩ := htold.lines (.inl rfl)
    exact .raising (congrArg some hraising) hmore (Nat.le_of_add_right_le hcount)
  · exact hsame.symm ▸ htold

end Steps

/-! ## Until the run is over -/

/-- What the others do does not concern it. -/
theorem Told.frame {events : List Event} {heeded : Bool} {before : String} {i : RunId}
    {d d' : Disk} {l : Phase} {s : Option FakePoint} (htold : Told events heeded before i d l s)
    (hd : l.owns = true → d' = d) : Told events heeded before i d' l s where
  started := htold.started
  point := htold.point
  verdict := htold.verdict
  lines hactive := by
    have howns : l.owns = true := by
      rcases hactive with hruns | hclosing
      · exact Phase.owns_of_runsPlaybook hruns
      · cases l <;> first | rfl | cases hclosing
    rw [hd howns]
    exact htold.lines hactive

/-- While a run goes on, no other request changes the store. -/
theorem disk_eq_of_owns {clock : ι → Instant} {v : World ι} (hinv : v.Invariant clock)
    {t u : ι} {a : Action} {d : Disk} {l : Phase} (hne : u ≠ t)
    (hreq : requestStep (newRunId (clock u)) a v.shared.disk (v.locals u) = some (d, l))
    (howns : (v.locals t).owns = true) : d = v.shared.disk := by
  have hex := hinv.lock.exclusive
  have hu : (v.locals u).owns = false := by
    by_contra hu
    exact hne (hex.unique u t (by simpa using hu) howns)
  have hl : l.owns = false := by
    by_contra hl
    exact hex.guarded t howns (requestStep_enter hreq hu (by simpa using hl)).1
  exact requestStep_outside hreq hu hl

variable [DecidableEq ι] [DecidableEq κ]

/-- What holds from the moment on that the run was told. -/
structure Obeys (S : RunSetup ι FakePoint) (t : ι) (events : List Event) (heeded : Bool)
    (before : String) (w : CancelWorld ι κ FakePoint) : Prop where
  world : w.world.Invariant S.clock
  attached : Attached S w
  asked : w.world.locals t ≠ .ended → newRunId (S.clock t) ∈ w.cancelled
  told : Told events heeded before (newRunId (S.clock t)) w.world.shared.disk
    (w.world.locals t) (w.adapters t)

variable {S : RunSetup ι FakePoint} {process : Process} {exception text : String}
  {events : List Event} {returnCode : Int} {t : ι} {heeded : Bool} {before : String}
  {w w' : CancelWorld ι κ FakePoint}

omit [DecidableEq κ] in
/-- The adapter of some run goes on between two calls back. -/
theorem Obeys.point (hw : Obeys S t events heeded before w) {u : ι} {next : FakePoint}
    (hinv : w.world.Invariant S.clock)
    (hattached : Attached S { w with adapters := Function.update w.adapters u (some next) })
    {r : RunRecord} {p : RunProgress} {assigned : Bool} {s : FakePoint}
    (hphase : w.world.locals u = .executing r p assigned) (hs : w.adapters u = some s)
    (hnext : w.world.locals t = .executing r p assigned →
      Told events heeded before (newRunId (S.clock t)) w.world.shared.disk
        (.executing r p assigned) (some s) →
      Told events heeded before (newRunId (S.clock t)) w.world.shared.disk
        (.executing r p assigned) (some next)) :
    Obeys S t events heeded before
      { w with adapters := Function.update w.adapters u (some next) } := by
  refine ⟨hinv, hattached, hw.asked, ?_⟩
  rcases eq_or_ne t u with rfl | hne
  · have htold := hw.told
    rw [hphase, hs] at htold
    simp only [Function.update_self, hphase]
    exact hnext hphase htold
  · simp only [Function.update_of_ne hne]
    exact hw.told

omit [DecidableEq κ] in
/-- It calls the service. -/
theorem Obeys.call (hw : Obeys S t events heeded before w) {u : ι} {next : FakePoint}
    {a : Action} {v : World ι} (hinv : v.Invariant S.clock)
    (hattached : Attached S
      { w with world := v, adapters := Function.update w.adapters u (some next) })
    {r : RunRecord} {p : RunProgress} {assigned : Bool} {s : FakePoint}
    (hphase : w.world.locals u = .executing r p assigned) (hs : w.adapters u = some s)
    (hv : worldStep S.clock w.world (.request u a) = some v)
    (hnext : ∀ {d l}, w.world.locals t = .executing r p assigned →
      Told events heeded before (newRunId (S.clock t)) w.world.shared.disk
        (.executing r p assigned) (some s) →
      requestStep (newRunId (S.clock t)) a w.world.shared.disk (.executing r p assigned) =
        some (d, l) →
      Told events heeded before (newRunId (S.clock t)) d l (some next)) :
    Obeys S t events heeded before
      { w with world := v, adapters := Function.update w.adapters u (some next) } := by
  obtain ⟨-, d, l, hreq, rfl⟩ := worldStep_request.mp hv
  rcases eq_or_ne t u with rfl | hne
  · have htold := hw.told
    rw [hphase] at htold hreq
    rw [hs] at htold
    refine ⟨hinv, hattached, fun _ => hw.asked (by rw [hphase]; simp), ?_⟩
    simp only [Function.update_self]
    exact hnext hphase htold hreq
  · refine ⟨hinv, hattached, ?_, ?_⟩
    · simpa only [Function.update_of_ne hne] using hw.asked
    · simp only [Function.update_of_ne hne]
      exact hw.told.frame (disk_eq_of_owns hw.world hne.symm hreq)

/-- Step lemma. -/
theorem step_obeys
    (hfake : S.adapter = fakeRunAdapter S.rt process exception events returnCode text)
    (hids : Function.Injective fun t => newRunId (S.clock t)) {label : CancelLabel ι κ}
    (hcrash : label ≠ .world .crash) (hw : Obeys S t events heeded before w)
    (h : S.step w label = some w') : Obeys S t events heeded before w' := by
  have hinv : w'.world.Invariant S.clock := by
    rcases (CancelStep.of_eq_some h).world with hsame | ⟨l, hl⟩
    · exact hsame ▸ hw.world
    · exact worldStep_invariant hw.world hl
  have hattached := step_attached hw.world hw.attached h
  cases CancelStep.of_eq_some h with
  | @request u a v hcalls hv =>
      obtain ⟨-, d, l, hreq, rfl⟩ := worldStep_request.mp hv
      rcases eq_or_ne t u with rfl | hne
      · refine ⟨hinv, hattached, fun _ => hw.asked fun hended => ?_, ?_⟩
        · rw [hended, requestStep_of_over rfl] at hreq
          cases hreq
        · simp only [Function.update_self]
          refine hw.told.request hfake (hw.world.requests t) hcalls (fun hruns => ?_) hreq
          obtain ⟨s, hs, hevent⟩ := hw.attached.running t hruns
          exact ⟨s, hs, hevent hcalls⟩
      · refine ⟨hinv, hattached, ?_, ?_⟩
        · simpa only [Function.update_of_ne hne] using hw.asked
        · simp only [Function.update_of_ne hne]
          exact hw.told.frame (disk_eq_of_owns hw.world hne.symm hreq)
  | crash => exact (hcrash rfl).elim
  | @other label v hrequest hother hv =>
      obtain ⟨hservice, hlocals⟩ := worldStep_other hrequest hother hv
      refine ⟨hinv, hattached, ?_, ?_⟩
      · simpa only [hlocals] using hw.asked
      · simp only [hlocals]
        refine hw.told.frame fun howns => ?_
        rw [hw.world.lock.quiet hservice t] at howns
        cases howns
  | @operate u now r p assigned s next raised hphase hs hcall =>
      exact hw.point hinv hattached hphase hs fun _ htold => htold.operate hfake hcall
  | @poll u now r p assigned s next hphase hs hcall =>
      refine hw.point hinv hattached hphase hs fun ht htold => ?_
      have hasked : r.id ∈ w.cancelled := by
        have hholds := hw.world.requests t
        rw [ht] at hholds
        rw [hholds.1]
        exact hw.asked (by rw [ht]; simp)
      rw [decide_eq_true hasked]
      exact htold.poll hfake hcall
  | @event u now r p assigned s e next raised v hphase hs hcall hv =>
      exact hw.call hinv hattached hphase hs hv fun ht htold hreq => htold.event hfake hcall hreq
  | @output u now r p assigned s written next raised v hphase hs hcall hv =>
      refine hw.call hinv hattached hphase hs hv fun ht htold hreq => ?_
      have hholds := hw.world.requests t
      rw [ht] at hholds
      exact htold.output hfake hholds.1 hcall hreq
  | @finish u now r p assigned s outcome v hphase hs hcall hv =>
      exact hw.call hinv hattached hphase hs hv fun ht htold hreq => htold.finish hfake hcall hreq
  | @raise u now r p assigned s message v hphase hs hcall hv =>
      exact hw.call hinv hattached hphase hs hv fun ht htold hreq => htold.raise hfake hcall hreq
  | @raises u r p assigned s hphase hs =>
      exact hw.point hinv hattached hphase hs fun _ htold => htold.interrupted hfake
  | @discard u i hi =>
      obtain ⟨rfl, hended⟩ := hw.attached.discarding u i hi
      refine ⟨hinv, hattached, fun hgoing => ?_, hw.told⟩
      refine List.mem_filter.mpr ⟨hw.asked hgoing, decide_eq_true fun hid => ?_⟩
      obtain rfl := hids hid
      exact hgoing hended
  | cancel => exact ⟨hinv, hattached, hw.asked, hw.told⟩
  | add =>
      exact ⟨hinv, hattached, fun hended => List.mem_cons_of_mem _ (hw.asked hended), hw.told⟩

/-- Run lemma: what the service relies on. -/
theorem attached_of_reaches {σ : Type*} {S : RunSetup ι σ} {labels : List (CancelLabel ι κ)}
    {w : CancelWorld ι κ σ} (h : S.Reaches w labels) :
    w.world.Invariant S.clock ∧ Attached S w := by
  have hstep : ∀ (v : CancelWorld ι κ σ) (label : CancelLabel ι κ) (v' : CancelWorld ι κ σ),
      v.world.Invariant S.clock ∧ Attached S v → S.step v label = some v' →
        v'.world.Invariant S.clock ∧ Attached S v' := by
    rintro v label v' ⟨hinv, hattached⟩ hv
    refine ⟨?_, step_attached hinv hattached hv⟩
    rcases (CancelStep.of_eq_some hv).world with hsame | ⟨l, hl⟩
    · exact hsame ▸ hinv
    · exact worldStep_invariant hinv hl
  refine invariant_run hstep ⟨boot_invariant S.clock, fun t ht => ?_, fun t i hi => ?_⟩ h
  · cases ht
  · cases hi

end SeapathWebui.Runs
