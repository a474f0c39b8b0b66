/-
  Runs/Cancel.lean --- cancelling a run that is going on.

  Source: `cancel`, `_execute` and `_cancelled` of app/runs/service.py, with the adapters of
  Runs/Adapter.lean.

  A cancel request looks at the record of the run, and then puts the identifier into a set;
  the run thread asks the set whenever its adapter calls `should_cancel`, and takes the
  identifier out after it released the lock.  Nothing orders the three.  The system here is
  that of Runs/Lifecycle.lean with the adapter, the set and the cancel requests added: every
  step of it is one of that system or leaves it as it is (`CancelStep.world`).
-/
import SeapathWebui.Core.Audit
import SeapathWebui.Runs.Adapter
import SeapathWebui.Runs.Exits
import SeapathWebui.Runs.Launch

set_option autoImplicit false

namespace SeapathWebui.Runs

open SeapathWebui.Foundation

/-! ## The system -/

/-- Where a cancel request stands. -/
inductive CancelPhase
  | idle
  /-- between the look at the record and `self._cancelled.add` -/
  | adding (r : RunRecord)
  | accepted (r : RunRecord)
  | refused (e : ApiError)
  deriving DecidableEq

/-- The process died: the client may ask again. -/
def CancelPhase.kill : CancelPhase → CancelPhase
  | .adding _ => .idle
  | phase => phase

theorem CancelPhase.kill_ne_adding (phase : CancelPhase) (r : RunRecord) :
    phase.kill ≠ .adding r := by
  cases phase <;> simp [CancelPhase.kill]

/-- The look of `cancel` at the record. -/
def cancelLoad (d : Disk) (i : RunId) : CancelPhase :=
  match RunStore.load d i with
  | none =>
      .refused
        { code := "unknown_run", message := "There is no run " ++ i ++ ".", statusCode := 404 }
  | some r =>
      if r.finished then
        .refused
          { code := "run_finished"
            message := "Run " ++ i ++ " is already " ++ Core.runStateValue r.state ++ "."
            statusCode := 409 }
      else .adding r

/-- What the run threads have from the service. -/
structure RunSetup (ι σ : Type*) where
  adapter : RunAdapter σ
  /-- what `_execute` asks of the adapter for the run of a launch request -/
  request : ι → RunRecord → RunRequest
  rt : Runtime
  /-- `json.dumps` -/
  dumps : Summary → String
  clock : ι → Instant

/-- The service, its adapters and the cancel requests, `κ` many. -/
structure CancelWorld (ι κ σ : Type*) where
  world : World ι
  /-- `self._cancelled` -/
  cancelled : List RunId
  /-- where the adapter of a run thread stands -/
  adapters : ι → Option σ
  /-- the run thread is at `self._cancelled.discard` -/
  discarding : ι → Option RunId
  requests : κ → CancelPhase

/-- The steps. -/
inductive CancelLabel (ι κ : Type*)
  /-- a step of the service that is not the adapter's -/
  | world (label : Label ι)
  /-- the adapter of a run goes on -/
  | adapter (t : ι) (now : Instant)
  /-- an operation of the adapter, or the write of its output, raises -/
  | adapterRaises (t : ι)
  /-- the last statement of `_execute` -/
  | discard (t : ι)
  /-- a cancel request arrives and looks at the record -/
  | cancel (k : κ) (i : RunId)
  /-- it puts the identifier into the set -/
  | add (k : κ)

variable {ι κ σ : Type*} [DecidableEq ι] [DecidableEq κ]

/-- Before the first start. -/
def CancelWorld.boot : CancelWorld ι κ σ :=
  ⟨Runs.boot {}, [], fun _ => none, fun _ => none, fun _ => .idle⟩

/-- The run thread is inside `adapter.execute`, between two calls back. -/
def Phase.betweenCalls : Phase → Bool
  | .executing _ _ _ => true
  | _ => false

/-- Where the adapter of a request stands after a step of the request. -/
def RunSetup.follow (S : RunSetup ι σ) (t : ι) (s : Option σ) : Action → Phase → Option σ
  | .proceed _, .starting r => some (S.adapter.start (S.request t r))
  | .proceed _, .saving .event .replace _ => s.map S.adapter.resumed
  | .fail, .saving .event _ _ | .fail, .appending _ _ _ _ => s.map S.adapter.interrupted
  | _, _ => s

/-- `_execute` gets to its last statement: the release returned. -/
def discards : Phase → Phase → Option RunId
  | .releasing .runEnded r, .ended | .unlinking .runEnded r, .ended => some r.id
  | _, _ => none

namespace RunSetup

variable (S : RunSetup ι σ) (w : CancelWorld ι κ σ)

/-- A step of the service that is not the adapter's. -/
def serviceStep (label : Label ι) : Option (CancelWorld ι κ σ) :=
  match label with
  | .request t a =>
      if (w.world.locals t).betweenCalls then none
      else
        (worldStep S.clock w.world (.request t a)).map fun v =>
          { w with
            world := v
            adapters := Function.update w.adapters t
              (S.follow t (w.adapters t) a (w.world.locals t))
            discarding := Function.update w.discarding t
              (discards (w.world.locals t) (v.locals t)) }
  | .crash =>
      (worldStep S.clock w.world .crash).map fun v =>
        ⟨v, [], fun _ => none, fun _ => none, fun k => (w.requests k).kill⟩
  | label => (worldStep S.clock w.world label).map fun v => { w with world := v }

/-- The adapter of a run makes its next call. -/
def adapterStep (t : ι) (now : Instant) : Option (CancelWorld ι κ σ) :=
  match w.world.locals t, w.adapters t with
  | .executing r p _, some s =>
      let act (a : Action) (s : σ) : Option (CancelWorld ι κ σ) :=
        (worldStep S.clock w.world (.request t a)).map fun v =>
          { w with world := v, adapters := Function.update w.adapters t (some s) }
      match S.adapter.call s with
      | .operate next _ =>
          some { w with adapters := Function.update w.adapters t (some next) }
      | .poll next =>
          some { w with
            adapters := Function.update w.adapters t (some (next (r.id ∈ w.cancelled))) }
      | .event e _ _ => act (.event ((summarise S.rt e).map S.dumps) (applyEvent p e)) s
      | .output text next _ => act (.output text) next
      | .finish outcome => act (.finish outcome now) s
      | .raise message => act (.raise message now) s
  | _, _ => none

/-- An operation of the adapter, or the write of its output, raises. -/
def adapterRaises (t : ι) : Option (CancelWorld ι κ σ) :=
  match w.world.locals t, w.adapters t with
  | .executing _ _ _, some s =>
      match S.adapter.call s with
      | .operate _ raised | .output _ _ raised =>
          some { w with adapters := Function.update w.adapters t (some raised) }
      | .poll _ | .event _ _ _ | .finish _ | .raise _ => none
  | _, _ => none

/-- One step of the system. -/
def step (w : CancelWorld ι κ σ) : CancelLabel ι κ → Option (CancelWorld ι κ σ)
  | .world label => S.serviceStep w label
  | .adapter t now => S.adapterStep w t now
  | .adapterRaises t => S.adapterRaises w t
  | .discard t =>
      (w.discarding t).map fun i =>
        { w with
          cancelled := w.cancelled.filter (· ≠ i)
          discarding := Function.update w.discarding t none }
  | .cancel k i =>
      if w.world.shared.service = .serving ∧ w.requests k = .idle then
        some { w with
          requests := Function.update w.requests k (cancelLoad w.world.shared.disk i) }
      else none
  | .add k =>
      match w.requests k with
      | .adding r =>
          some { w with
            cancelled := r.id :: w.cancelled
            requests := Function.update w.requests k (.accepted r) }
      | .idle | .accepted _ | .refused _ => none

/-- `w` is reached by the history `labels` from an empty store. -/
def Reaches (labels : List (CancelLabel ι κ)) : Prop :=
  execute S.step .boot labels = some w

end RunSetup

/-! ## The steps, one by one -/

/-- What a step can do. -/
inductive CancelStep (S : RunSetup ι σ) (w : CancelWorld ι κ σ) :
    CancelLabel ι κ → CancelWorld ι κ σ → Prop
  | request {t : ι} {a : Action} {v : World ι} (hcalls : (w.world.locals t).betweenCalls = false)
      (h : worldStep S.clock w.world (.request t a) = some v) :
      CancelStep S w (.world (.request t a))
        { w with
          world := v
          adapters := Function.update w.adapters t
            (S.follow t (w.adapters t) a (w.world.locals t))
          discarding := Function.update w.discarding t
            (discards (w.world.locals t) (v.locals t)) }
  | crash {v : World ι} (h : worldStep S.clock w.world .crash = some v) :
      CancelStep S w (.world .crash)
        ⟨v, [], fun _ => none, fun _ => none, fun k => (w.requests k).kill⟩
  /-- `reconcile` -/
  | other {label : Label ι} {v : World ι} (hrequest : ∀ t a, label ≠ .request t a)
      (hcrash : label ≠ .crash) (h : worldStep S.clock w.world label = some v) :
      CancelStep S w (.world label) { w with world := v }
  | operate {t : ι} (now : Instant) {r : RunRecord} {p : RunProgress} {assigned : Bool} {s : σ}
      {next raised : σ} (hphase : w.world.locals t = .executing r p assigned)
      (hs : w.adapters t = some s) (hcall : S.adapter.call s = .operate next raised) :
      CancelStep S w (.adapter t now)
        { w with adapters := Function.update w.adapters t (some next) }
  | poll {t : ι} (now : Instant) {r : RunRecord} {p : RunProgress} {assigned : Bool} {s : σ}
      {next : Bool → σ} (hphase : w.world.locals t = .executing r p assigned)
      (hs : w.adapters t = some s) (hcall : S.adapter.call s = .poll next) :
      CancelStep S w (.adapter t now)
        { w with
          adapters := Function.update w.adapters t (some (next (r.id ∈ w.cancelled))) }
  | event {t : ι} (now : Instant) {r : RunRecord} {p : RunProgress} {assigned : Bool} {s : σ}
      {e : Event} {next raised : σ} {v : World ι}
      (hphase : w.world.locals t = .executing r p assigned) (hs : w.adapters t = some s)
      (hcall : S.adapter.call s = .event e next raised)
      (h : worldStep S.clock w.world
        (.request t (.event ((summarise S.rt e).map S.dumps) (applyEvent p e))) = some v) :
      CancelStep S w (.adapter t now)
        { w with world := v, adapters := Function.update w.adapters t (some s) }
  | output {t : ι} (now : Instant) {r : RunRecord} {p : RunProgress} {assigned : Bool} {s : σ}
      {text : String} {next raised : σ} {v : World ι}
      (hphase : w.world.locals t = .executing r p assigned) (hs : w.adapters t = some s)
      (hcall : S.adapter.call s = .output text next raised)
      (h : worldStep S.clock w.world (.request t (.output text)) = some v) :
      CancelStep S w (.adapter t now)
        { w with world := v, adapters := Function.update w.adapters t (some next) }
  | finish {t : ι} (now : Instant) {r : RunRecord} {p : RunProgress} {assigned : Bool} {s : σ}
      {outcome : RunOutcome} {v : World ι}
      (hphase : w.world.locals t = .executing r p assigned) (hs : w.adapters t = some s)
      (hcall : S.adapter.call s = .finish outcome)
      (h : worldStep S.clock w.world (.request t (.finish outcome now)) = some v) :
      CancelStep S w (.adapter t now)
        { w with world := v, adapters := Function.update w.adapters t (some s) }
  | raise {t : ι} (now : Instant) {r : RunRecord} {p : RunProgress} {assigned : Bool} {s : σ}
      {message : String} {v : World ι}
      (hphase : w.world.locals t = .executing r p assigned) (hs : w.adapters t = some s)
      (hcall : S.adapter.call s = .raise message)
      (h : worldStep S.clock w.world (.request t (.raise message now)) = some v) :
      CancelStep S w (.adapter t now)
        { w with world := v, adapters := Function.update w.adapters t (some s) }
  | raises {t : ι} {r : RunRecord} {p : RunProgress} {assigned : Bool} {s : σ}
      (hphase : w.world.locals t = .executing r p assigned) (hs : w.adapters t = some s) :
      CancelStep S w (.adapterRaises t)
        { w with
          adapters := Function.update w.adapters t (some (S.adapter.interrupted s)) }
  | discard {t : ι} {i : RunId} (h : w.discarding t = some i) :
      CancelStep S w (.discard t)
        { w with
          cancelled := w.cancelled.filter (· ≠ i)
          discarding := Function.update w.discarding t none }
  | cancel {k : κ} (i : RunId) (hserving : w.world.shared.service = .serving)
      (hidle : w.requests k = .idle) :
      CancelStep S w (.cancel k i)
        { w with requests := Function.update w.requests k (cancelLoad w.world.shared.disk i) }
  | add {k : κ} {r : RunRecord} (h : w.requests k = .adding r) :
      CancelStep S w (.add k)
        { w with
          cancelled := r.id :: w.cancelled
          requests := Function.update w.requests k (.accepted r) }

variable {S : RunSetup ι σ} {w w' : CancelWorld ι κ σ}

theorem CancelStep.of_adapterStep {t : ι} {now : Instant}
    (h : S.adapterStep w t now = some w') : CancelStep S w (.adapter t now) w' := by
  unfold RunSetup.adapterStep at h
  split at h
  · rename_i r p assigned s hphase hs
    simp only at h
    split at h
    · rename_i next raised hcall
      obtain rfl := Option.some.inj h
      exact .operate now hphase hs hcall
    · rename_i next hcall
      obtain rfl := Option.some.inj h
      exact .poll now hphase hs hcall
    · rename_i e next raised hcall
      obtain ⟨v, hv, rfl⟩ := Option.map_eq_some_iff.mp h
      exact .event now hphase hs hcall hv
    · rename_i text next raised hcall
      obtain ⟨v, hv, rfl⟩ := Option.map_eq_some_iff.mp h
      exact .output now hphase hs hcall hv
    · rename_i outcome hcall
      obtain ⟨v, hv, rfl⟩ := Option.map_eq_some_iff.mp h
      exact .finish now hphase hs hcall hv
    · rename_i message hcall
      obtain ⟨v, hv, rfl⟩ := Option.map_eq_some_iff.mp h
      exact .raise now hphase hs hcall hv
  · cases h

theorem CancelStep.of_adapterRaises {t : ι} (h : S.adapterRaises w t = some w') :
    CancelStep S w (.adapterRaises t) w' := by
  unfold RunSetup.adapterRaises at h
  split at h
  · rename_i r p assigned s hphase hs
    have hraised := CancelStep.raises (S := S) hphase hs
    unfold RunAdapter.interrupted at hraised
    split at h
    · rename_i next raised hcall
      obtain rfl := Option.some.inj h
      rwa [hcall] at hraised
    · rename_i text next raised hcall
      obtain rfl := Option.some.inj h
      rwa [hcall] at hraised
    all_goals cases h
  · cases h

theorem CancelStep.of_serviceStep {label : Label ι} (h : S.serviceStep w label = some w') :
    CancelStep S w (.world label) w' := by
  unfold RunSetup.serviceStep at h
  split at h
  · split at h
    · cases h
    · rename_i hcalls
      obtain ⟨v, hv, rfl⟩ := Option.map_eq_some_iff.mp h
      exact .request (Bool.eq_false_iff.mpr hcalls) hv
  · obtain ⟨v, hv, rfl⟩ := Option.map_eq_some_iff.mp h
    exact .crash hv
  · rename_i hrequest hcrash
    obtain ⟨v, hv, rfl⟩ := Option.map_eq_some_iff.mp h
    exact .other hrequest hcrash hv

/-- Every other pair of a label and a state has no step. -/
theorem CancelStep.of_eq_some {label : CancelLabel ι κ} (h : S.step w label = some w') :
    CancelStep S w label w' := by
  cases label with
  | world label => exact .of_serviceStep h
  | adapter t now => exact .of_adapterStep h
  | adapterRaises t => exact .of_adapterRaises h
  | discard t =>
      obtain ⟨i, hi, rfl⟩ := Option.map_eq_some_iff.mp h
      exact .discard hi
  | cancel k i =>
      simp only [RunSetup.step] at h
      split at h
      · rename_i hready
        obtain rfl := Option.some.inj h
        exact .cancel i hready.1 hready.2
      · cases h
  | add k =>
      simp only [RunSetup.step] at h
      split at h
      · rename_i r hadding
        obtain rfl := Option.some.inj h
        exact .add hadding
      all_goals cases h

/-- Every step is one of the system without adapters, or leaves that as it is. -/
theorem CancelStep.world {label : CancelLabel ι κ} (h : CancelStep S w label w') :
    w'.world = w.world ∨ ∃ l, worldStep S.clock w.world l = some w'.world := by
  cases h with
  | request hcalls h => exact .inr ⟨_, h⟩
  | crash h => exact .inr ⟨_, h⟩
  | other hrequest hcrash h => exact .inr ⟨_, h⟩
  | event now hphase hs hcall h => exact .inr ⟨_, h⟩
  | output now hphase hs hcall h => exact .inr ⟨_, h⟩
  | finish now hphase hs hcall h => exact .inr ⟨_, h⟩
  | raise now hphase hs hcall h => exact .inr ⟨_, h⟩
  | operate | poll | raises | discard | cancel | add => exact .inl rfl

/-! ## Where a cancelled record comes from -/

/-- Of the runs that are or are going to be on disk as cancelled, `P` holds. -/
structure World.CancelledOnly (clock : ι → Instant) (P : RunId → Prop) (w : World ι) :
    Prop where
  requests : ∀ t op r, w.locals t = .saving .final op r → r.state = .cancelled →
    P (newRunId (clock t))
  service : ∀ op r todo recovered, w.shared.service = .closing op r todo recovered →
    r.state ≠ .cancelled
  records : ∀ i r, w.shared.disk.record i = some r → r.state = .cancelled → P i

theorem RunRecord.state_ne_cancelled {r : RunRecord} (h : r.unfinished = true) :
    r.state ≠ .cancelled := by
  intro hstate
  rw [RunRecord.unfinished, hstate] at h
  cases h

theorem finalState_eq_cancelled {outcome : RunOutcome} {p : RunProgress} :
    finalState outcome p = .cancelled ↔ outcome.cancelled = true := by
  unfold finalState
  cases outcome.cancelled with
  | true => simp
  | false => simp; grind

/-- A request is about to close its record as cancelled only if its adapter returned so. -/
theorem requestStep_closing {i : RunId} {a : Action} {d d' : Disk} {l l' : Phase}
    (h : requestStep i a d l = some (d', l')) {op : SaveOp} {r : RunRecord}
    (hl' : l' = .saving .final op r) (hstate : r.state = .cancelled) :
    (∃ op', l = .saving .final op' r) ∨
      ∃ outcome now, a = .finish outcome now ∧ outcome.cancelled = true := by
  cases RequestStep.of_eq_some h with
  | write now stage d r' =>
      injection hl' with hstage _ hr
      exact .inl ⟨.writeTemporary, by rw [hstage, hr]⟩
  | finish outcome now d r' p assigned =>
      injection hl' with _ _ hr
      rw [← hr] at hstate
      exact .inr ⟨outcome, now, rfl, finalState_eq_cancelled.mp hstate⟩
  | raise message now d r' p assigned =>
      injection hl' with _ _ hr
      rw [← hr] at hstate
      cases hstate
  | replace now stage d r' => cases stage <;> cases hl'
  | failSave stage op' d r' => cases stage <;> cases hl'
  | create now op' d r' inventory => cases op' <;> cases hl'
  | _ => cases hl'

/-- A request writes a record that says cancelled only where it closes its own. -/
theorem requestStep_cancelled {i : RunId} {a : Action} {d d' : Disk} {l l' : Phase}
    (hl : l.Holds i d) (h : requestStep i a d l = some (d', l')) {j : RunId} {r : RunRecord}
    (hr : d'.record j = some r) (hstate : r.state = .cancelled) :
    d.record j = some r ∨ j = i ∧ ∃ op, l = .saving .final op r := by
  rcases requestStep_record h with hsame | ⟨now, stage, r', rfl, rfl, -⟩
  · exact .inl (hsame j ▸ hr)
  · obtain ⟨rfl, hfinished, -, -, -, htemporary⟩ := hl
    rw [Disk.record_replaceRecord] at hr
    split at hr
    · rename_i hid
      rw [← hid, htemporary rfl, Option.some_or] at hr
      obtain rfl := Option.some.inj hr
      have hfinal : stage = .final := by
        by_contra hne
        rw [decide_eq_false hne] at hfinished
        exact RunRecord.state_ne_cancelled hfinished hstate
      exact .inr ⟨hid.symm, .replace, by rw [hfinal]⟩
    · exact .inl hr

/-- `reconcile` closes a record as interrupted. -/
theorem reconcileStep_closing {now : Instant} {n m : Node} (h : reconcileStep now n = some m)
    (hn : ∀ op r todo recovered, n.service = .closing op r todo recovered →
      r.state ≠ .cancelled) {op : SaveOp} {r : RunRecord} {todo recovered : List RunRecord}
    (hm : m.service = .closing op r todo recovered) : r.state ≠ .cancelled := by
  cases ReconcileStep.of_eq_some h with
  | close d rest done hu =>
      injection hm with _ hr _ _
      rw [← hr]
      exact fun hstate => by cases hstate
  | write d r' rest done =>
      injection hm with _ hr _ _
      exact hr ▸ hn .writeTemporary r' rest done rfl
  | serve | unlock | skip | replace | unlink => cases hm

theorem reconcileStep_cancelled {now : Instant} {n m : Node} (h : reconcileStep now n = some m)
    (hs : n.service.Holds n.disk)
    (hn : ∀ op r todo recovered, n.service = .closing op r todo recovered →
      r.state ≠ .cancelled) {j : RunId} {r : RunRecord} (hr : m.disk.record j = some r)
    (hstate : r.state = .cancelled) : n.disk.record j = some r := by
  rcases reconcileStep_record h with hsame | ⟨closed, todo, recovered, hservice, hd⟩
  · exact hsame j ▸ hr
  · rw [hservice] at hs
    obtain ⟨-, -, -, -, -, htemporary⟩ := hs
    rw [hd, Disk.record_replaceRecord] at hr
    split at hr
    · rename_i hid
      rw [← hid, htemporary rfl, Option.some_or] at hr
      obtain rfl := Option.some.inj hr
      exact (hn .replace closed todo recovered hservice hstate).elim
    · exact hr

/-- Step lemma. -/
theorem worldStep_cancelledOnly {clock : ι → Instant} {P : RunId → Prop} {v v' : World ι}
    {label : Label ι} (hinv : v.Invariant clock) (hv : v.CancelledOnly clock P)
    (h : worldStep clock v label = some v')
    (hfinish : ∀ t outcome now, label = .request t (.finish outcome now) →
      outcome.cancelled = true → P (newRunId (clock t))) : v'.CancelledOnly clock P := by
  rcases worldStep_cases h with ⟨t, a, rfl, hstep⟩ | ⟨rfl, -, rfl⟩ | ⟨unreadable, rfl, -, rfl⟩ |
    ⟨now, n, rfl, hn, rfl⟩ | ⟨rfl, -, rfl⟩
  · obtain ⟨n, l, hact, rfl⟩ := Config.advance_eq_some.mp hstep
    obtain ⟨-, d, hreq, rfl⟩ := threadStep_eq_some.mp hact
    constructor
    · intro u op r hu hstate
      rcases eq_or_ne u t with rfl | hne
      · simp only [Function.update_self] at hu
        rcases requestStep_closing hreq hu hstate with ⟨op', hl⟩ | ⟨outcome, now, rfl, hout⟩
        · exact hv.requests u op' r hl hstate
        · exact hfinish u outcome now rfl hout
      · simp only [Function.update_of_ne hne] at hu
        exact hv.requests u op r hu hstate
    · intro op r todo recovered hs
      cases hs
    · intro i r hr hstate
      rcases requestStep_cancelled (hinv.requests t) hreq hr hstate with hbefore | ⟨rfl, op, hl⟩
      · exact hv.records i r hbefore hstate
      · exact hv.requests t op r hl hstate
  · constructor
    · intro t op r hl
      rcases Phase.kill_eq (v.locals t) with ⟨hk, -⟩ | hk
      · exact absurd (hk.symm.trans hl) (by simp)
      · exact absurd (hk.symm.trans hl) (by simp)
    · intro op r todo recovered hs
      cases hs
    · exact hv.records
  · exact ⟨hv.requests, fun _ _ _ _ hs => (by cases hs), hv.records⟩
  · refine ⟨hv.requests, ?_, ?_⟩
    · exact fun op r todo recovered => reconcileStep_closing hn hv.service
    · exact fun i r hr hstate =>
        hv.records i r (reconcileStep_cancelled hn hinv.service hv.service hr hstate) hstate
  · exact ⟨hv.requests, fun _ _ _ _ hs => (by cases hs), hv.records⟩

omit [DecidableEq ι] in
theorem World.CancelledOnly.mono {clock : ι → Instant} {P Q : RunId → Prop} {v : World ι}
    (hv : v.CancelledOnly clock P) (hPQ : ∀ i, P i → Q i) : v.CancelledOnly clock Q where
  requests t op r hl hstate := hPQ _ (hv.requests t op r hl hstate)
  service := hv.service
  records i r hr hstate := hPQ i (hv.records i r hr hstate)

/-! ## What was asked for -/

/-- A cancel request for the run looked at its record, and found it unfinished. -/
def RunSetup.Looked (S : RunSetup ι σ) (labels : List (CancelLabel ι κ)) (k : κ) (i : RunId) :
    Prop :=
  ∃ before after v, labels = before ++ .cancel k i :: after ∧ S.Reaches v before ∧
    v.world.shared.disk.OpenRecord i

/-- A cancel request that had found the run unfinished put its identifier into the set. -/
def RunSetup.Accepted (S : RunSetup ι σ) (labels : List (CancelLabel ι κ)) (i : RunId) : Prop :=
  ∃ before k after, labels = before ++ .add k :: after ∧ S.Looked before k i

theorem RunSetup.Looked.append {labels : List (CancelLabel ι κ)} {k : κ} {i : RunId}
    (h : S.Looked labels k i) (more : List (CancelLabel ι κ)) :
    S.Looked (labels ++ more) k i := by
  obtain ⟨before, after, v, rfl, hv, hopen⟩ := h
  exact ⟨before, after ++ more, v, by simp, hv, hopen⟩

theorem RunSetup.Accepted.append {labels : List (CancelLabel ι κ)} {i : RunId}
    (h : S.Accepted labels i) (more : List (CancelLabel ι κ)) : S.Accepted (labels ++ more) i := by
  obtain ⟨before, k, after, rfl, hlooked⟩ := h
  exact ⟨before, k, after ++ more, by simp, hlooked⟩

/-- Every cancellation can be accounted for. -/
structure Accountable (S : RunSetup ι σ) (labels : List (CancelLabel ι κ))
    (w : CancelWorld ι κ σ) : Prop where
  world : w.world.Invariant S.clock
  only : w.world.CancelledOnly S.clock (S.Accepted labels)
  requests : ∀ k r, w.requests k = .adding r → S.Looked labels k r.id
  cancelled : ∀ i ∈ w.cancelled, S.Accepted labels i
  adapters : ∀ t s, w.adapters t = some s →
    S.adapter.Uncancelled s ∨ S.Accepted labels (newRunId (S.clock t))

theorem boot_accountable (S : RunSetup ι σ) :
    Accountable S [] (.boot : CancelWorld ι κ σ) where
  world := boot_invariant S.clock
  only :=
    { requests := fun _ _ _ hl => (by cases hl)
      service := fun _ _ _ _ hs => (by cases hs)
      records := fun _ _ hr => (by cases hr) }
  requests _ _ h := by cases h
  cancelled _ h := by cases h
  adapters _ _ h := by cases h

omit [DecidableEq ι] in
/-- What a step of a request makes of its adapter. -/
theorem RunSetup.of_follow {t : ι} {s : Option σ} {a : Action} {l : Phase} {s' : σ}
    (h : S.follow t s a l = some s') :
    (∃ request, s' = S.adapter.start request) ∨
      ∃ before, s = some before ∧
        (s' = before ∨ s' = S.adapter.resumed before ∨ s' = S.adapter.interrupted before) := by
  unfold RunSetup.follow at h
  split at h
  · exact .inl ⟨_, (Option.some.inj h).symm⟩
  · obtain ⟨before, hbefore, rfl⟩ := Option.map_eq_some_iff.mp h
    exact .inr ⟨before, hbefore, .inr (.inl rfl)⟩
  · obtain ⟨before, hbefore, rfl⟩ := Option.map_eq_some_iff.mp h
    exact .inr ⟨before, hbefore, .inr (.inr rfl)⟩
  · obtain ⟨before, hbefore, rfl⟩ := Option.map_eq_some_iff.mp h
    exact .inr ⟨before, hbefore, .inr (.inr rfl)⟩
  · exact .inr ⟨s', h, .inl rfl⟩

/-- An adapter returns only where the run thread is between two calls back. -/
theorem betweenCalls_of_finish {clock : ι → Instant} {v v' : World ι} {t : ι}
    {outcome : RunOutcome} {now : Instant}
    (h : Runs.worldStep clock v (.request t (.finish outcome now)) = some v') :
    (v.locals t).betweenCalls = true := by
  obtain ⟨n, l, hact, -⟩ := Config.advance_eq_some.mp h
  obtain ⟨-, d, hreq, -⟩ := threadStep_eq_some.mp hact
  generalize v.locals t = before at hreq
  cases RequestStep.of_eq_some hreq with
  | finish => rfl

/-- The look goes on with a record only if it is unfinished. -/
theorem of_cancelLoad {d : Disk} (hd : d.Consistent) {i : RunId} {r : RunRecord}
    (h : cancelLoad d i = .adding r) : i = r.id ∧ d.OpenRecord r.id := by
  unfold cancelLoad RunStore.load at h
  split at h
  · cases h
  · rename_i r' hr'
    split at h
    · cases h
    · rename_i hfinished
      obtain rfl := CancelPhase.adding.inj h
      have hid := hd.named i r' hr'
      rw [RunRecord.finished_eq_not_unfinished] at hfinished
      exact ⟨hid.symm, r', hid ▸ hr', by simpa using hfinished⟩

namespace Accountable

variable {labels : List (CancelLabel ι κ)}

/-- What can be accounted for stays so. -/
theorem append (hw : Accountable S labels w) (label : CancelLabel ι κ) :
    Accountable S (labels ++ [label]) w where
  world := hw.world
  only := hw.only.mono fun _ hi => hi.append _
  requests k r hk := (hw.requests k r hk).append _
  cancelled i hi := (hw.cancelled i hi).append _
  adapters t s hs := (hw.adapters t s hs).imp_right fun h => h.append _

/-- The world moves on by a step that cancels nothing, or what was asked for. -/
theorem advance (hw : Accountable S labels w) {label : Label ι} {v : World ι}
    (h : worldStep S.clock w.world label = some v)
    (hfinish : ∀ t outcome now, label = .request t (.finish outcome now) →
      outcome.cancelled = true → S.Accepted labels (newRunId (S.clock t))) :
    Accountable S labels { w with world := v } where
  world := worldStep_invariant hw.world h
  only := worldStep_cancelledOnly hw.world hw.only h hfinish
  requests := hw.requests
  cancelled := hw.cancelled
  adapters := hw.adapters

/-- The adapter of one request goes on; it does not matter what is discarded. -/
theorem setAdapter (hw : Accountable S labels w) {t : ι} {next : Option σ}
    {discarding : ι → Option RunId} (hnext : ∀ s, next = some s →
      S.adapter.Uncancelled s ∨ S.Accepted labels (newRunId (S.clock t))) :
    Accountable S labels
      { w with
        adapters := Function.update w.adapters t next
        discarding := discarding } where
  world := hw.world
  only := hw.only
  requests := hw.requests
  cancelled := hw.cancelled
  adapters := (Function.forall_update_iff w.adapters fun u next => ∀ s, next = some s →
    S.adapter.Uncancelled s ∨ S.Accepted labels (newRunId (S.clock u))).mpr
      ⟨hnext, fun u _ => hw.adapters u⟩

/-- A cancel request looks at a record, and goes on only if it is unfinished. -/
theorem look (hw : Accountable S labels w) (hreach : S.Reaches w labels) (k : κ) (i : RunId) :
    Accountable S (labels ++ [.cancel k i])
      { w with requests := Function.update w.requests k (cancelLoad w.world.shared.disk i) } where
  world := hw.world
  only := (hw.append _).only
  requests := by
    refine (Function.forall_update_iff w.requests fun k' phase => ∀ r, phase = .adding r →
      S.Looked (labels ++ [.cancel k i]) k' r.id).mpr ⟨fun r hr => ?_, fun k' _ => ?_⟩
    · obtain ⟨rfl, hopen⟩ := of_cancelLoad hw.world.consistent hr
      exact ⟨labels, [], w, rfl, hreach, hopen⟩
    · exact (hw.append _).requests k'
  cancelled := (hw.append _).cancelled
  adapters := (hw.append _).adapters

/-- A cancel request that did puts the run into the set. -/
theorem add (hw : Accountable S labels w) {k : κ} {r : RunRecord}
    (hadding : w.requests k = .adding r) :
    Accountable S (labels ++ [.add k])
      { w with
        cancelled := r.id :: w.cancelled
        requests := Function.update w.requests k (.accepted r) } where
  world := hw.world
  only := (hw.append _).only
  requests := by
    refine (Function.forall_update_iff w.requests fun k' phase => ∀ r', phase = .adding r' →
      S.Looked (labels ++ [.add k]) k' r'.id).mpr ⟨fun r' hr' => ?_, fun k' _ => ?_⟩
    · cases hr'
    · exact (hw.append _).requests k'
  cancelled := by
    rw [List.forall_mem_cons]
    exact ⟨⟨labels, k, [], rfl, hw.requests k r hadding⟩, (hw.append _).cancelled⟩
  adapters := (hw.append _).adapters

/-- The process dies, and with it every request. -/
theorem crash (hw : Accountable S labels w) {v : World ι}
    (h : worldStep S.clock w.world .crash = some v) :
    Accountable S (labels ++ [.world .crash])
      ⟨v, [], fun _ => none, fun _ => none, fun k => (w.requests k).kill⟩ where
  world := (hw.advance h fun _ _ _ heq => by cases heq).world
  only := ((hw.advance h fun _ _ _ heq => by cases heq).append _).only
  requests k r hk := ((w.requests k).kill_ne_adding r hk).elim
  cancelled i hi := by cases hi
  adapters t s hs := by cases hs

/-- An adapter that says that it was cancelled was told so. -/
theorem accepted_of_finish (hhonest : S.adapter.Honest) (hw : Accountable S labels w) {t : ι}
    {s : σ} {outcome : RunOutcome} (hs : w.adapters t = some s)
    (hcall : S.adapter.call s = .finish outcome) (h : outcome.cancelled = true) :
    S.Accepted labels (newRunId (S.clock t)) := by
  rcases hw.adapters t s hs with huncancelled | haccepted
  · rw [hhonest s huncancelled outcome hcall] at h
    cases h
  · exact haccepted

/-- What `should_cancel` answers. -/
theorem polled (hw : Accountable S labels w) {t : ι} {r : RunRecord} {p : RunProgress}
    {assigned : Bool} {s : σ} {next : Bool → σ}
    (hphase : w.world.locals t = .executing r p assigned) (hs : w.adapters t = some s)
    (hcall : S.adapter.call s = .poll next) :
    S.adapter.Uncancelled (next (decide (r.id ∈ w.cancelled))) ∨
      S.Accepted labels (newRunId (S.clock t)) := by
  have hid : r.id = newRunId (S.clock t) := by
    have hholds := hw.world.requests t
    rw [hphase] at hholds
    exact hholds.1
  by_cases hasked : r.id ∈ w.cancelled
  · exact .inr (hid ▸ hw.cancelled r.id hasked)
  · rw [decide_eq_false hasked]
    exact (hw.adapters t s hs).imp_left fun hs => hs.poll hcall

end Accountable

/-- Step lemma. -/
theorem step_accountable (hhonest : S.adapter.Honest) {labels : List (CancelLabel ι κ)}
    {label : CancelLabel ι κ} (hreach : S.Reaches w labels) (hw : Accountable S labels w)
    (h : S.step w label = some w') : Accountable S (labels ++ [label]) w' := by
  cases CancelStep.of_eq_some h with
  | @request t a v hcalls hv =>
      have hreturns : ∀ u outcome now, Label.request t a = .request u (.finish outcome now) →
          outcome.cancelled = true → S.Accepted labels (newRunId (S.clock u)) := by
        intro u outcome now heq _
        injection heq with ht ha
        rw [ht, betweenCalls_of_finish (ha ▸ ht ▸ hv)] at hcalls
        cases hcalls
      refine ((hw.advance hv hreturns).setAdapter fun s' hs' => ?_).append _
      rcases RunSetup.of_follow hs' with ⟨request, rfl⟩ | ⟨before, hbefore, hnext⟩
      · exact .inl (.start request)
      · refine (hw.adapters t before hbefore).imp_left fun huncancelled => ?_
        rcases hnext with rfl | rfl | rfl
        · exact huncancelled
        · exact huncancelled.resumed
        · exact huncancelled.interrupted
  | @crash v hv => exact hw.crash hv
  | @other label v hrequest hcrash hv =>
      exact (hw.advance hv fun t _ _ heq => (hrequest t _ heq).elim).append _
  | @operate t now r p assigned s next raised hphase hs hcall =>
      refine (hw.setAdapter fun s' hs' => ?_).append _
      have hresumed : S.adapter.resumed s = s' := by
        rw [RunAdapter.resumed, hcall]
        exact Option.some.inj hs'
      exact hresumed ▸ (hw.adapters t s hs).imp_left fun hs => hs.resumed
  | @poll t now r p assigned s next hphase hs hcall =>
      refine (hw.setAdapter fun s' hs' => ?_).append _
      exact Option.some.inj hs' ▸ hw.polled hphase hs hcall
  | @event t now r p assigned s e next raised v hphase hs hcall hv =>
      refine ((hw.advance hv fun _ _ _ heq => by cases heq).setAdapter fun s' hs' => ?_).append _
      exact Option.some.inj hs' ▸ hw.adapters t s hs
  | @output t now r p assigned s text next raised v hphase hs hcall hv =>
      refine ((hw.advance hv fun _ _ _ heq => by cases heq).setAdapter fun s' hs' => ?_).append _
      have hresumed : S.adapter.resumed s = s' := by
        rw [RunAdapter.resumed, hcall]
        exact Option.some.inj hs'
      exact hresumed ▸ (hw.adapters t s hs).imp_left fun hs => hs.resumed
  | @finish t now r p assigned s outcome v hphase hs hcall hv =>
      have hreturns : ∀ u result later,
          Label.request t (.finish outcome now) = .request u (.finish result later) →
            result.cancelled = true → S.Accepted labels (newRunId (S.clock u)) := by
        intro u result later heq hresult
        injection heq with ht ha
        injection ha with houtcome _
        exact ht ▸ hw.accepted_of_finish hhonest hs hcall (houtcome ▸ hresult)
      refine ((hw.advance hv hreturns).setAdapter fun s' hs' => ?_).append _
      exact Option.some.inj hs' ▸ hw.adapters t s hs
  | @raise t now r p assigned s message v hphase hs hcall hv =>
      refine ((hw.advance hv fun _ _ _ heq => by cases heq).setAdapter fun s' hs' => ?_).append _
      exact Option.some.inj hs' ▸ hw.adapters t s hs
  | @raises t r p assigned s hphase hs =>
      refine (hw.setAdapter fun s' hs' => ?_).append _
      exact Option.some.inj hs' ▸ (hw.adapters t s hs).imp_left fun hs => hs.interrupted
  | @discard t i hdiscarding =>
      have happend := hw.append (.discard t)
      exact
        { happend with
          cancelled := fun j hj => happend.cancelled j (List.mem_of_mem_filter hj) }
  | @cancel k i hserving hidle => exact hw.look hreach k i
  | @add k r hadding => exact hw.add hadding

/-- A run of two events. -/
def cancelEvents : List Event := [⟨∅, by decide⟩, ⟨∅, by decide⟩]

/-- A service with one run of them. -/
def cancelSetup : RunSetup Unit FakePoint where
  adapter := fakeRunAdapter .silent ⟨"/usr/bin", ""⟩ "" cancelEvents 0 "PLAY RECAP\n"
  request _ := RunPaths.request ⟨"", "", ""⟩ "" ∅
  rt := .silent
  dumps _ := "{}"
  clock _ := default

/-- The run is launched, and cancelled before its first event. -/
def cancelLabels : List (CancelLabel Unit Unit) :=
  [.world (.start []), .world (.reconcile default),
    .world (.request () (.launch default "all: {}\n"))] ++
    List.replicate 12 (.world (.request () (.proceed default))) ++
    [.adapter () default, .cancel () (newRunId default), .add ()]

/-- The adapter asks, and returns. -/
def cancelAfter : List (CancelLabel Unit Unit) := [.adapter () default, .adapter () default]

/-- It saves its record. -/
def cancelSaves : List (CancelLabel Unit Unit) :=
  List.replicate 2 (.world (.request () (.proceed default)))

/-- An adapter belongs to every run thread that is going on, and waits at an event while the
call back runs; a thread that is at its last statement has released the lock. -/
structure Attached (S : RunSetup ι σ) (w : CancelWorld ι κ σ) : Prop where
  running : ∀ t, (w.world.locals t).runsPlaybook = true → ∃ s, w.adapters t = some s ∧
    ((w.world.locals t).betweenCalls = false →
      ∃ e next raised, S.adapter.call s = .event e next raised)
  discarding : ∀ t i, w.discarding t = some i →
    i = newRunId (S.clock t) ∧ w.world.locals t = .ended

omit [DecidableEq ι] [DecidableEq κ] in
theorem Attached.of_phases {w₁ w₂ : CancelWorld ι κ σ} (hw : Attached S w₁)
    (hlocals : w₂.world.locals = w₁.world.locals) (hadapters : w₂.adapters = w₁.adapters)
    (hdiscarding : ∀ t i, w₂.discarding t = some i → w₁.discarding t = some i) :
    Attached S w₂ where
  running t := by
    rw [hlocals, hadapters]
    exact hw.running t
  discarding t i hi := by
    rw [hlocals]
    exact hw.discarding t i (hdiscarding t i hi)

omit [DecidableEq κ] in
/-- The adapter of one run goes on between two calls back. -/
theorem Attached.update {t : ι} {s : σ} (hw : Attached S w)
    (hcalls : (w.world.locals t).betweenCalls = true) :
    Attached S { w with adapters := Function.update w.adapters t (some s) } where
  running u hu := by
    rcases eq_or_ne u t with rfl | hne
    · refine ⟨s, Function.update_self .., fun hnot => ?_⟩
      rw [show (w.world.locals u).betweenCalls = false from hnot] at hcalls
      cases hcalls
    · simp only [Function.update_of_ne hne]
      exact hw.running u hu
  discarding := hw.discarding

omit [DecidableEq ι] in
/-- What a step of a request does to where its run thread stands. -/
theorem follow_attached {t : ι} {a : Action} {d d' : Disk} {l l' : Phase} {s : Option σ}
    (h : requestStep (newRunId (S.clock t)) a d l = some (d', l'))
    (hcalls : l.betweenCalls = false)
    (hs : l.runsPlaybook = true → ∃ s', s = some s' ∧
      ∃ e next raised, S.adapter.call s' = .event e next raised)
    (hl' : l'.runsPlaybook = true) :
    ∃ s', S.follow t s a l = some s' ∧ (l'.betweenCalls = false →
      ∃ e next raised, S.adapter.call s' = .event e next raised) := by
  cases RequestStep.of_eq_some h with
  | start now d r => exact ⟨_, rfl, fun hnot => by cases hnot⟩
  | write now stage d r =>
      cases stage with
      | event =>
          obtain ⟨s', rfl, hevent⟩ := hs rfl
          exact ⟨s', rfl, fun _ => hevent⟩
      | create | mark | final => cases hl'
  | replace now stage d r =>
      cases stage with
      | event =>
          obtain ⟨s', rfl, -⟩ := hs rfl
          exact ⟨_, rfl, fun hnot => by cases hnot⟩
      | create | mark | final => cases hl'
  | failSave stage op d r =>
      cases stage with
      | event =>
          obtain ⟨s', rfl, -⟩ := hs rfl
          exact ⟨_, rfl, fun hnot => by cases hnot⟩
      | create | mark | final => cases hl'
  | append now line d r p assigned =>
      obtain ⟨s', rfl, hevent⟩ := hs rfl
      exact ⟨s', rfl, fun _ => hevent⟩
  | failAppend line d r p assigned =>
      obtain ⟨s', rfl, -⟩ := hs rfl
      exact ⟨_, rfl, fun hnot => by cases hnot⟩
  | silentEvent | event | output | finish | raise => cases hcalls
  | create now op d r inventory => cases op <;> cases hl'
  | _ => cases hl'

/-- The run thread gets to its last statement by releasing the lock. -/
theorem of_discards {i j : RunId} {a : Action} {d d' : Disk} {l l' : Phase}
    (hl : l.Holds i d) (h : requestStep i a d l = some (d', l'))
    (hdiscards : discards l l' = some j) : j = i ∧ l' = .ended := by
  unfold discards at hdiscards
  split at hdiscards
  · obtain ⟨rfl, -⟩ := hl
    exact ⟨(Option.some.inj hdiscards).symm, rfl⟩
  · obtain ⟨rfl, -⟩ := hl
    exact ⟨(Option.some.inj hdiscards).symm, rfl⟩
  · cases hdiscards

/-- A step of one request, taken apart. -/
theorem worldStep_request {clock : ι → Instant} {v v' : World ι} {t : ι} {a : Action} :
    worldStep clock v (.request t a) = some v' ↔ v.shared.service = .serving ∧
      ∃ d l, requestStep (newRunId (clock t)) a v.shared.disk (v.locals t) = some (d, l) ∧
        v' = ⟨⟨d, .serving⟩, Function.update v.locals t l⟩ := by
  rw [worldStep, Config.advance_eq_some]
  constructor
  · rintro ⟨n, l, hact, rfl⟩
    obtain ⟨hserving, d, hreq, rfl⟩ := threadStep_eq_some.mp hact
    exact ⟨hserving, d, l, hreq, rfl⟩
  · rintro ⟨hserving, d, l, hreq, rfl⟩
    exact ⟨_, l, threadStep_eq_some.mpr ⟨hserving, d, hreq, rfl⟩, rfl⟩

/-- The other steps, a crash excepted, are taken by `reconcile`. -/
theorem worldStep_other {clock : ι → Instant} {v v' : World ι} {label : Label ι}
    (hrequest : ∀ t a, label ≠ .request t a) (hcrash : label ≠ .crash)
    (h : worldStep clock v label = some v') :
    v.shared.service ≠ .serving ∧ v'.locals = v.locals := by
  rcases worldStep_cases h with ⟨t, a, rfl, -⟩ | ⟨rfl, -⟩ | ⟨unreadable, rfl, hs, rfl⟩ |
    ⟨now, n, rfl, hn, rfl⟩ | ⟨rfl, hs, rfl⟩
  · exact (hrequest t a rfl).elim
  · exact (hcrash rfl).elim
  · exact ⟨by rw [hs]; simp, rfl⟩
  · refine ⟨fun hserving => ?_, rfl⟩
    rw [reconcileStep, hserving] at hn
    cases hn
  · refine ⟨fun hserving => ?_, rfl⟩
    rw [hserving] at hs
    rcases hs with ⟨op, r, todo, recovered, hs⟩ | ⟨recovered, hs⟩
    all_goals cases hs

omit [DecidableEq κ] in
/-- A step of one request, and where its adapter and its thread stand afterwards. -/
theorem Attached.request {t : ι} {d : Disk} {l : Phase} {next : Option σ}
    {last : Option RunId} (hw : Attached S w)
    (hnext : l.runsPlaybook = true → ∃ s, next = some s ∧
      (l.betweenCalls = false → ∃ e ok raised, S.adapter.call s = .event e ok raised))
    (hlast : ∀ i, last = some i → i = newRunId (S.clock t) ∧ l = .ended) :
    Attached S { w with
      world := ⟨⟨d, .serving⟩, Function.update w.world.locals t l⟩
      adapters := Function.update w.adapters t next
      discarding := Function.update w.discarding t last } := by
  constructor
  · intro u hu
    rcases eq_or_ne u t with rfl | hne
    · simp only [Function.update_self] at hu ⊢
      exact hnext hu
    · simp only [Function.update_of_ne hne] at hu ⊢
      exact hw.running u hu
  · intro u i hi
    rcases eq_or_ne u t with rfl | hne
    · simp only [Function.update_self] at hi ⊢
      exact hlast i hi
    · simp only [Function.update_of_ne hne] at hi ⊢
      exact hw.discarding u i hi

omit [DecidableEq κ] in
/-- The same for a call of its adapter. -/
theorem Attached.call {t : ι} {r : RunRecord} {p : RunProgress} {assigned : Bool} {a : Action}
    {v : World ι} {s : σ} (hw : Attached S w) (hphase : w.world.locals t = .executing r p assigned)
    (hv : worldStep S.clock w.world (.request t a) = some v)
    (hevent : ∀ d l, requestStep (newRunId (S.clock t)) a w.world.shared.disk
        (.executing r p assigned) = some (d, l) → l.betweenCalls = false →
      l.runsPlaybook = true → ∃ e ok raised, S.adapter.call s = .event e ok raised) :
    Attached S { w with world := v, adapters := Function.update w.adapters t (some s) } := by
  have hidle : w.discarding t = none := by
    cases hd : w.discarding t with
    | none => rfl
    | some i =>
        have hended := (hw.discarding t i hd).2
        rw [hphase] at hended
        cases hended
  obtain ⟨-, d, l, hreq, rfl⟩ := worldStep_request.mp hv
  rw [hphase] at hreq
  have hnext : l.runsPlaybook = true → ∃ s', some s = some s' ∧
      (l.betweenCalls = false → ∃ e ok raised, S.adapter.call s' = .event e ok raised) :=
    fun hruns => ⟨s, rfl, fun hcalls => hevent d l hreq hcalls hruns⟩
  have hlast : ∀ i, (none : Option RunId) = some i → i = newRunId (S.clock t) ∧ l = .ended :=
    fun _ h => by cases h
  have hrequest := hw.request (t := t) (d := d) hnext hlast
  rwa [← hidle, Function.update_eq_self] at hrequest

/-- Step lemma. -/
theorem step_attached {label : CancelLabel ι κ} (hinv : w.world.Invariant S.clock)
    (hw : Attached S w) (h : S.step w label = some w') : Attached S w' := by
  cases CancelStep.of_eq_some h with
  | @request t a v hcalls hv =>
      obtain ⟨-, d, l, hreq, rfl⟩ := worldStep_request.mp hv
      simp only [Function.update_self]
      refine hw.request (fun hruns => ?_) fun i hi => of_discards (hinv.requests t) hreq hi
      refine follow_attached hreq hcalls (fun hbefore => ?_) hruns
      obtain ⟨s, hs, hevent⟩ := hw.running t hbefore
      exact ⟨s, hs, hevent hcalls⟩
  | @crash v hv =>
      refine ⟨fun t ht => ?_, fun t i hi => by cases hi⟩
      obtain ⟨t', a, heq, -⟩ | ⟨-, -, rfl⟩ | ⟨_, heq, -⟩ | ⟨_, _, heq, -⟩ | ⟨heq, -⟩ :=
        worldStep_cases hv
      · cases heq
      · have howns := Phase.owns_of_runsPlaybook ht
        rw [Phase.owns_kill] at howns
        cases howns
      all_goals cases heq
  | @other label v hrequest hcrash hv =>
      exact hw.of_phases (worldStep_other hrequest hcrash hv).2 rfl fun _ _ hi => hi
  | @operate t now r p assigned s next raised hphase hs hcall =>
      exact hw.update (by rw [hphase]; rfl)
  | @poll t now r p assigned s next hphase hs hcall =>
      exact hw.update (by rw [hphase]; rfl)
  | @event t now r p assigned s e next raised v hphase hs hcall hv =>
      exact hw.call hphase hv fun _ _ _ _ _ => ⟨e, next, raised, hcall⟩
  | @output t now r p assigned s text next raised v hphase hs hcall hv =>
      refine hw.call hphase hv fun d l hreq hnot _ => ?_
      cases RequestStep.of_eq_some hreq with
      | output => cases hnot
  | @finish t now r p assigned s outcome v hphase hs hcall hv =>
      refine hw.call hphase hv fun d l hreq _ hruns => ?_
      cases RequestStep.of_eq_some hreq with
      | finish => cases hruns
  | @raise t now r p assigned s message v hphase hs hcall hv =>
      refine hw.call hphase hv fun d l hreq _ hruns => ?_
      cases RequestStep.of_eq_some hreq with
      | raise => cases hruns
  | @raises t r p assigned s hphase hs =>
      exact hw.update (by rw [hphase]; rfl)
  | @discard t i hi =>
      refine hw.of_phases rfl rfl fun u j hj => ?_
      rcases eq_or_ne u t with rfl | hne
      · simp only [Function.update_self] at hj
        cases hj
      · simpa only [Function.update_of_ne hne] using hj
  | cancel => exact hw.of_phases rfl rfl fun _ _ hi => hi
  | add => exact hw.of_phases rfl rfl fun _ _ hi => hi

end SeapathWebui.Runs
