/-
  Runs/Rest.lean --- every request comes to its end, and the node to rest or to a stop.

  Source: app/runs/service.py `launch` and `_execute`, app/runs/store.py `acquire`, `save`,
  `release` and `reconcile`.

  No routine of the store loops or waits.  So a request takes a bounded number of steps on
  the files, more of them only for what the adapter reports, and none of these steps waits
  for another request (`wait_free`).

  Whether the lock comes free is another matter: `World.Wedged` says of one state, without its
  history, that nobody is left to free it.  Where that is not so a run without failures, and
  with one restart at most, leads to a node that serves with the lock free
  (`rests_or_wedged`).
-/
import SeapathWebui.Foundation.Potential
import SeapathWebui.Runs.Exits
import SeapathWebui.Runs.Recovery

set_option autoImplicit false

namespace SeapathWebui.Runs

open SeapathWebui.Foundation

variable {ι : Type*}

/-! ## The steps that are left -/

/-- Of `create`, before its save. -/
def CreateOp.stepsLeft : CreateOp → Nat
  | .readInventory => 5
  | .makeDirectory => 4
  | .writeInventory => 3
  | .touchEvents => 2
  | .touchLog => 1

/-- Of a `save`. -/
def SaveOp.stepsLeft : SaveOp → Nat
  | .writeTemporary => 2
  | .replace => 1

/-- After a `save`. -/
def SaveStage.stepsAfter : SaveStage → Nat
  | .create => 8
  | .mark => 6
  | .event => 5
  | .final => 2

/-- Of a request, where nothing fails and the adapter has nothing more to report. -/
def Phase.stepsLeft : Phase → Nat
  | .idle => 18
  | .opening _ _ => 17
  | .writingId _ _ => 16
  | .creating op _ _ => op.stepsLeft + 10
  | .saving stage op _ => op.stepsLeft + stage.stepsAfter
  | .starting _ => 6
  | .executing _ _ _ => 5
  | .appending _ _ _ _ => 8
  | .releasing _ _ => 2
  | .unlinking _ _ => 1
  | .abandoned | .ended => 0

/-- What the adapter reports during a run, by the steps it costs. -/
def Action.reportSteps : Action → Nat
  | .event _ _ => 4
  | .output _ => 1
  | .launch _ _ | .proceed _ | .fail | .failWriting _ | .finish _ _ | .raise _ _ => 0

/-- The operation succeeds, or the adapter returns. -/
def Action.smooth : Action → Bool
  | .launch _ _ | .proceed _ | .finish _ _ => true
  | .fail | .failWriting _ | .event _ _ | .output _ | .raise _ _ => false

/-- Step lemma: every step of a request is paid for. -/
theorem requestStep_stepsLeft {i : RunId} {a : Action} {d d' : Disk} {l l' : Phase}
    (h : requestStep i a d l = some (d', l')) :
    1 + l'.stepsLeft ≤ l.stepsLeft + a.reportSteps := by
  cases RequestStep.of_eq_some h with
  | create now op => cases op <;> simp [Phase.stepsLeft, afterCreateOp, CreateOp.stepsLeft,
      SaveOp.stepsLeft, SaveStage.stepsAfter]
  | failCreate op =>
      simp only [Phase.stepsLeft]
      omega
  | write now stage => simp [Phase.stepsLeft, SaveOp.stepsLeft]; omega
  | replace now stage =>
      cases stage <;> simp [Phase.stepsLeft, afterSave, SaveOp.stepsLeft, SaveStage.stepsAfter]
  | failSave stage op =>
      cases stage <;> cases op <;>
        simp [Phase.stepsLeft, afterSaveRaised, SaveOp.stepsLeft, SaveStage.stepsAfter,
          Action.reportSteps]
  | _ => simp [Phase.stepsLeft, CreateOp.stepsLeft, SaveOp.stepsLeft, SaveStage.stepsAfter,
      Action.reportSteps]

/-- Step lemma: a request that is not over has a step to take, whatever the others are at,
and it comes nearer to its end. -/
theorem exists_smooth_step (i : RunId) (d : Disk) {l : Phase} (hover : l.over = false) :
    ∃ a d' l', a.smooth = true ∧ requestStep i a d l = some (d', l') ∧
      l'.stepsLeft < l.stepsLeft := by
  suffices hstep : ∃ a d' l', a.smooth = true ∧ a.reportSteps = 0 ∧
      requestStep i a d l = some (d', l') by
    obtain ⟨a, d', l', hsmooth, hnone, h⟩ := hstep
    have hpaid := requestStep_stepsLeft h
    exact ⟨a, d', l', hsmooth, h, by omega⟩
  cases l with
  | idle => exact ⟨.launch default "", d, _, rfl, rfl, rfl⟩
  | opening r inventory =>
      cases hlock : d.createLock with
      | none => exact ⟨.proceed default, d, .ended, rfl, rfl, by simp [requestStep, hlock]⟩
      | some d' => exact ⟨.proceed default, d', _, rfl, rfl, by simp [requestStep, hlock]; rfl⟩
  | writingId r inventory => exact ⟨.proceed default, _, _, rfl, rfl, rfl⟩
  | creating op r inventory => exact ⟨.proceed default, _, _, rfl, rfl, rfl⟩
  | saving stage op r => cases op <;> exact ⟨.proceed default, _, _, rfl, rfl, rfl⟩
  | starting r => exact ⟨.proceed default, _, _, rfl, rfl, rfl⟩
  | executing r p assigned => exact ⟨.finish default default, _, _, rfl, rfl, rfl⟩
  | appending line r p assigned => exact ⟨.proceed default, _, _, rfl, rfl, rfl⟩
  | releasing cause r =>
      by_cases hholder : d.lockHolder = some r.id ∨ d.lockHolder = none
      · exact ⟨.proceed default, d, .unlinking cause r, rfl, rfl, by simp [requestStep, hholder]⟩
      · exact ⟨.proceed default, d, .ended, rfl, rfl, by simp [requestStep, hholder]⟩
  | unlinking cause r => exact ⟨.proceed default, _, _, rfl, rfl, rfl⟩
  | abandoned => cases hover
  | ended => cases hover

theorem Phase.stepsLeft_kill (l : Phase) : l.kill.stepsLeft ≤ l.stepsLeft := by
  cases l <;> simp [Phase.kill, Phase.stepsLeft]

/-! ## No request waits -/

/-- A step of the request. -/
def Label.isStepOf [DecidableEq ι] (t : ι) : Label ι → Nat
  | .request u _ => if u = t then 1 else 0
  | .crash | .start _ | .reconcile _ | .reconcileRaises => 0

/-- What the adapter of the request reports. -/
def Label.reportsTo [DecidableEq ι] (t : ι) : Label ι → Nat
  | .request u a => if u = t then a.reportSteps else 0
  | .crash | .start _ | .reconcile _ | .reconcileRaises => 0

variable [DecidableEq ι] {clock : ι → Instant}

/-- Step lemma. -/
theorem worldStep_stepsLeft (t : ι) {w w' : World ι} {label : Label ι}
    (h : worldStep clock w label = some w') :
    label.isStepOf t + (w'.locals t).stepsLeft ≤
      (w.locals t).stepsLeft + label.reportsTo t := by
  rcases worldStep_cases h with ⟨u, a, rfl, hact⟩ | ⟨rfl, -, rfl⟩ | ⟨unreadable, rfl, -, rfl⟩ |
    ⟨now, n, rfl, -, rfl⟩ | ⟨rfl, -, rfl⟩
  · obtain ⟨n, l, hthread, rfl⟩ := Config.advance_eq_some.mp hact
    obtain ⟨-, d, hreq, -⟩ := threadStep_eq_some.mp hthread
    simp only [Label.isStepOf, Label.reportsTo]
    rcases eq_or_ne u t with rfl | hne
    · rw [Function.update_self, if_pos rfl, if_pos rfl]
      exact requestStep_stepsLeft hreq
    · rw [Function.update_of_ne hne.symm, if_neg hne, if_neg hne, Nat.zero_add, Nat.add_zero]
  · simpa [Label.isStepOf, Label.reportsTo] using (w.locals t).stepsLeft_kill
  all_goals simp [Label.isStepOf, Label.reportsTo]

/-- **No request waits for another, and none goes on for ever.**  In every continuation of
every state a request takes no more steps than were left of it, four more for each event
that its adapter reports, and one for each output; and while it is not over and the service
serves, it has a step to take that is neither a failure nor a report, after which fewer are
left. -/
theorem wait_free {labels : List (Label ι)} {w w' : World ι}
    (h : execute (worldStep clock) w labels = some w') (t : ι) :
    total (Label.isStepOf t) labels + (w'.locals t).stepsLeft ≤
        (w.locals t).stepsLeft + total (Label.reportsTo t) labels ∧
      (w'.shared.service = .serving → (w'.locals t).over = false →
        ∃ a v, a.smooth = true ∧ worldStep clock w' (.request t a) = some v ∧
          (v.locals t).stepsLeft < (w'.locals t).stepsLeft) := by
  refine ⟨cost_run (fun _ _ _ hstep => worldStep_stepsLeft t hstep) h, fun hserving hover => ?_⟩
  obtain ⟨a, d, l, hsmooth, hreq, hlt⟩ :=
    exists_smooth_step (newRunId (clock t)) w'.shared.disk hover
  refine ⟨a, ⟨⟨d, .serving⟩, Function.update w'.locals t l⟩, hsmooth, ?_, ?_⟩
  · exact Config.advance_eq_some.mpr
      ⟨_, l, threadStep_eq_some.mpr ⟨hserving, d, hreq, rfl⟩, rfl⟩
  · simpa only [Function.update_self] using hlt

theorem wait_free_marking :
    ∃ w : World Unit, execute (worldStep fun _ => default) (boot {}) marking = some w ∧
      total (Label.isStepOf ()) marking + (w.locals ()).stepsLeft ≤
          ((boot {} : World Unit).locals ()).stepsLeft +
            total (Label.reportsTo ()) marking ∧
        (w.shared.service = .serving → (w.locals ()).over = false →
          ∃ a v, a.smooth = true ∧ worldStep (fun _ => default) w (.request () a) = some v ∧
            (v.locals ()).stepsLeft < (w.locals ()).stepsLeft) := by
  have hrun : (execute (worldStep fun _ => default) (boot {}) marking).isSome = true := by
    decide +kernel
  obtain ⟨w, hw⟩ := Option.isSome_iff_exists.mp hrun
  exact ⟨w, hw, wait_free hw ()⟩

/-! ## A node that is wedged -/

/-- Somebody is left to unlink the lock: `reconcile`, which has closed a record or is going to,
or a lock that is free already. -/
def Node.Freeing (n : Node) : Prop :=
  match n.service with
  | .stopped => False
  | .serving => n.disk.lock = none
  | .reconciling todo recovered =>
      n.disk.lock = none ∨ recovered ≠ [] ∨ ∃ r ∈ todo, r.unfinished = true
  | .closing _ _ _ _ | .unlocking _ => True

/-- The lock is there and nobody is left to free it: the request that owns it was given up,
no start finds a record to close, and no start is about to close one. -/
structure World.Wedged (w : World ι) : Prop where
  locked : w.shared.disk.lock ≠ none
  givenUp : ∀ t, (w.locals t).owns = true → w.locals t = .abandoned
  closed : ∀ r ∈ RunStore.list w.shared.disk 1000 [], r.unfinished = false
  notFreeing : ¬ w.shared.Freeing

/-- A start reads every record. -/
def Label.readsAll : Label ι → Prop
  | .start unreadable => unreadable = []
  | .request _ _ | .crash | .reconcile _ | .reconcileRaises => True

/-- Nothing but a request that owns the lock, or a start that closes a record, gets to the
store. -/
theorem worldStep_wedged {w w' : World ι} {label : Label ι} (hw : w.Wedged)
    (hreads : label.readsAll) (h : worldStep clock w label = some w') : w'.Wedged := by
  rcases worldStep_cases h with ⟨t, a, rfl, hact⟩ | ⟨rfl, -, rfl⟩ | ⟨unreadable, rfl, -, rfl⟩ |
    ⟨now, n, rfl, hn, rfl⟩ | ⟨rfl, hraises, rfl⟩
  · obtain ⟨n, l, hthread, rfl⟩ := Config.advance_eq_some.mp hact
    obtain ⟨hserving, d, hreq, rfl⟩ := threadStep_eq_some.mp hthread
    have ht : (w.locals t).owns = false := by
      cases ht : (w.locals t).owns with
      | false => rfl
      | true =>
          rw [hw.givenUp t ht, requestStep_abandoned] at hreq
          cases hreq
    have hl : l.owns = false := by
      cases hl : l.owns with
      | false => rfl
      | true => exact (hw.locked (requestStep_enter hreq ht hl).1).elim
    obtain rfl := requestStep_outside hreq ht hl
    refine ⟨hw.locked, fun u hu => ?_, hw.closed, hw.locked⟩
    rcases eq_or_ne u t with rfl | hne
    · simp only [Function.update_self, hl, Bool.false_eq_true] at hu
    · simp only [Function.update_of_ne hne] at hu ⊢
      exact hw.givenUp u hu
  · refine ⟨hw.locked, fun t ht => ?_, hw.closed, id⟩
    rw [Phase.owns_kill] at ht
    cases ht
  · obtain rfl : unreadable = [] := hreads
    refine ⟨hw.locked, hw.givenUp, hw.closed, ?_⟩
    rintro (hfree | hnil | ⟨r, hr, hopen⟩)
    · exact hw.locked hfree
    · exact hnil rfl
    · rw [hw.closed r hr] at hopen
      cases hopen
  · obtain ⟨⟨d, service⟩, locals⟩ := w
    have hnot := hw.notFreeing
    cases ReconcileStep.of_eq_some hn with
    | serve => exact ⟨hw.locked, hw.givenUp, hw.closed, hw.locked⟩
    | unlock d r recovered => exact (hnot (.inr (.inl (List.cons_ne_nil r recovered)))).elim
    | close d todo recovered hu =>
        exact (hnot (.inr (.inr ⟨_, List.mem_cons_self, hu⟩))).elim
    | skip d todo recovered hu =>
        refine ⟨hw.locked, hw.givenUp, hw.closed, fun hfree => hnot ?_⟩
        exact hfree.imp_right (.imp_right fun ⟨r, hr, hopen⟩ =>
          ⟨r, List.mem_cons_of_mem _ hr, hopen⟩)
    | write | replace | unlink => exact (hnot trivial).elim
  · refine (hw.notFreeing ?_).elim
    unfold Node.Freeing
    rcases hraises with ⟨_, _, _, _, hservice⟩ | ⟨_, hservice⟩
    all_goals rw [hservice]; trivial

/-- Run lemma: a wedged node stays so. -/
theorem wedged_run {labels : List (Label ι)} {w w' : World ι} (hw : w.Wedged)
    (hreads : ∀ label ∈ labels, label.readsAll)
    (h : execute (worldStep clock) w labels = some w') : w'.Wedged := by
  have hstep : ∀ (v : World ι) (label : Label ι) (v' : World ι), v.Wedged → label.readsAll →
      worldStep clock v label = some v' → v'.Wedged :=
    fun _ _ _ hv hok hnext => worldStep_wedged hv hok hnext
  exact invariant_along hstep hw (along_of_forall hreads) h

/-! ## A node that is not -/

/-- The steps of `reconcile` that are left, at most. -/
def Service.stepsLeft : Service → Nat
  | .stopped | .serving => 0
  | .reconciling todo _ => 3 * todo.length + 2
  | .closing op _ todo _ => 3 * todo.length + 2 + op.stepsLeft
  | .unlocking _ => 1

/-- A step of a request, or of `reconcile`, at which nothing goes wrong. -/
def Label.smooth : Label ι → Prop
  | .request _ a => a.smooth = true
  | .reconcile _ => True
  | .crash | .start _ | .reconcileRaises => False

/-- The node serves, with the lock free. -/
def World.AtRest (w : World ι) : Prop :=
  w.shared.service = .serving ∧ w.shared.disk.lock = none

/-- Step lemma: `reconcile` comes nearer to its end. -/
theorem exists_reconcile_step {n : Node} (hfreeing : n.Freeing) (hservice : n.service ≠ .serving) :
    ∃ m, reconcileStep default n = some m ∧ m.Freeing ∧
      m.service.stepsLeft < n.service.stepsLeft := by
  obtain ⟨d, service⟩ := n
  cases service with
  | stopped => exact hfreeing.elim
  | serving => exact (hservice rfl).elim
  | reconciling todo recovered =>
      cases todo with
      | nil =>
          cases recovered with
          | nil =>
              refine ⟨_, rfl, ?_, Nat.zero_lt_succ _⟩
              rcases hfreeing with hfree | hnil | ⟨r, hr, -⟩
              · exact hfree
              · exact (hnil rfl).elim
              · cases hr
          | cons r rest =>
              refine ⟨⟨d, .unlocking (r :: rest)⟩, rfl, trivial, ?_⟩
              simp [Service.stepsLeft]
      | cons r rest =>
          cases hr : r.unfinished with
          | true =>
              refine ⟨⟨d, .closing .writeTemporary (RunStore.interrupt default r) rest recovered⟩,
                by simp [reconcileStep, hr], trivial, ?_⟩
              simp only [Service.stepsLeft, SaveOp.stepsLeft, List.length_cons]
              omega
          | false =>
              refine ⟨⟨d, .reconciling rest recovered⟩, by simp [reconcileStep, hr], ?_, ?_⟩
              · refine hfreeing.imp_right (.imp_right ?_)
                rintro ⟨s, hs, hopen⟩
                rcases List.mem_cons.mp hs with rfl | hs
                · rw [hr] at hopen
                  cases hopen
                · exact ⟨s, hs, hopen⟩
              · simp only [Service.stepsLeft, List.length_cons]
                omega
  | closing op r todo recovered =>
      cases op with
      | writeTemporary =>
          refine ⟨⟨d.writeTemporary r, .closing .replace r todo recovered⟩, rfl, trivial, ?_⟩
          simp [Service.stepsLeft, SaveOp.stepsLeft]
      | replace =>
          refine ⟨_, rfl, .inr (.inl (by simp)), ?_⟩
          simp [Service.stepsLeft, SaveOp.stepsLeft]
  | unlocking recovered => exact ⟨_, rfl, rfl, Nat.zero_lt_succ _⟩

/-- Where somebody of the process is left to free the lock, `reconcile` gets to rest. -/
theorem exists_rest_of_freeing (clock : ι → Instant) {w : World ι} (hw : w.shared.Freeing) :
    ∃ labels w', (∀ label ∈ labels, label.smooth) ∧
      execute (worldStep clock) w labels = some w' ∧ w'.AtRest := by
  have hstep : ∀ v : World ι, v.shared.Freeing → ¬ v.shared.service = .serving →
      ∃ (label : Label ι) (v' : World ι), label.smooth ∧ worldStep clock v label = some v' ∧
        v'.shared.Freeing ∧ v'.shared.service.stepsLeft < v.shared.service.stepsLeft := by
    intro v hv hservice
    obtain ⟨m, hm, hfreeing, hlt⟩ := exists_reconcile_step hv hservice
    exact ⟨.reconcile default, ⟨m, v.locals⟩, trivial, by rw [worldStep, hm], hfreeing, hlt⟩
  obtain ⟨labels, w', hsmooth, hrun, hfreeing, hserving, -⟩ :=
    exists_run_to (fun v : World ι => v.shared.service.stepsLeft) hstep hw
  refine ⟨labels, w', hsmooth, hrun, hserving, ?_⟩
  rwa [Node.Freeing, hserving] at hfreeing

/-- The request frees the lock, or has freed it. -/
structure World.Frees (clock : ι → Instant) (t : ι) (w : World ι) : Prop where
  invariant : w.Invariant clock
  serving : w.shared.service = .serving
  owner : w.shared.disk.lock = none ∨ (w.locals t).owns = true ∧ (w.locals t).over = false

/-- Step lemma: it comes nearer to its end. -/
theorem exists_freeing_step {t : ι} {w : World ι} (hw : w.Frees clock t)
    (hnot : ¬ w.shared.disk.lock = none) :
    ∃ (label : Label ι) (w' : World ι), label.smooth ∧ worldStep clock w label = some w' ∧
      w'.Frees clock t ∧ (w'.locals t).stepsLeft < (w.locals t).stepsLeft := by
  obtain ⟨howns, hover⟩ := hw.owner.resolve_left hnot
  obtain ⟨a, d, l, hsmooth, hreq, hlt⟩ :=
    exists_smooth_step (newRunId (clock t)) w.shared.disk hover
  have hstep : worldStep clock w (.request t a) =
      some ⟨⟨d, .serving⟩, Function.update w.locals t l⟩ :=
    Config.advance_eq_some.mpr ⟨_, l, threadStep_eq_some.mpr ⟨hw.serving, d, hreq, rfl⟩, rfl⟩
  refine ⟨.request t a, _, hsmooth, hstep, ⟨worldStep_invariant hw.invariant hstep, rfl, ?_⟩, ?_⟩
  · simp only [Function.update_self]
    cases hl : l.over with
    | false =>
        cases hlowns : l.owns with
        | false => exact .inl (requestStep_unlocks (hw.invariant.requests t) hreq howns hlowns)
        | true => exact .inr ⟨rfl, rfl⟩
    | true =>
        -- it was not given up: that takes a failure
        refine .inl ?_
        rcases requestStep_exit (hw.invariant.requests t) hreq hl with ⟨hnone, -, -⟩ |
          ⟨-, hfree, -⟩ | ⟨-, -, hskips⟩
        · rw [howns] at hnone
          cases hnone
        · exact hfree
        · cases a <;> cases hsmooth <;> cases hskips
  · simpa only [Function.update_self] using hlt

/-- A request that owns the lock and was not given up frees it at its end. -/
theorem exists_rest_of_owner {t : ι} {w : World ι} (hw : w.Frees clock t) :
    ∃ labels w', (∀ label ∈ labels, label.smooth) ∧
      execute (worldStep clock) w labels = some w' ∧ w'.AtRest := by
  obtain ⟨labels, w', hsmooth, hrun, hfrees, hfree, -⟩ :=
    exists_run_to (fun v : World ι => (v.locals t).stepsLeft)
      (fun _ hv hnot => exists_freeing_step hv hnot) hw
  exact ⟨labels, w', hsmooth, hrun, hfrees.serving, hfree⟩

theorem Phase.abandoned_of_over {l : Phase} (howns : l.owns = true) (hover : l.over = true) :
    l = .abandoned := by
  cases l with
  | abandoned => rfl
  | idle | opening | ended => cases howns
  | _ => cases hover

/-- How the service is restarted, if it has to be. -/
def restarts (ι : Type*) : List (List (Label ι)) := [[], [.start []], [.crash, .start []]]

/-- A start finds the record of the run that the lock is for, or finds no lock. -/
theorem exists_restart (clock : ι → Instant) {w : World ι} (hnot : ¬ w.shared.Freeing)
    (hopen : w.shared.disk.lock = none ∨
      ∃ r ∈ RunStore.list w.shared.disk 1000 [], r.unfinished = true) :
    ∃ restart ∈ restarts ι, ∃ w', execute (worldStep clock) w restart = some w' ∧
      w'.shared.Freeing := by
  obtain ⟨⟨d, service⟩, locals⟩ := w
  have hfreeing : Node.Freeing ⟨d, .reconciling (RunStore.list d 1000 []) []⟩ :=
    hopen.imp_right .inr
  by_cases hstopped : service = .stopped
  · subst hstopped
    refine ⟨[.start []], by simp [restarts],
      ⟨⟨d, .reconciling (RunStore.list d 1000 []) []⟩, locals⟩, ?_, hfreeing⟩
    simp [execute, worldStep]
  · refine ⟨[.crash, .start []], by simp [restarts],
      ⟨⟨d, .reconciling (RunStore.list d 1000 []) []⟩, fun t => (locals t).kill⟩, ?_, hfreeing⟩
    simp [execute, worldStep, hstopped]

/-- **The node comes to rest, or it is wedged.**  In every reachable state, if the node is
wedged, the lock is there in every later state, unless a start misses a record that it could
read; and if it is not, a run leads to a node that serves with the lock free and no record
unfinished, in which nothing fails, and before which the service is restarted at most once. -/
theorem rests_or_wedged {labels : List (Label ι)} {w : World ι}
    (h : Reaches clock {} labels w) :
    (w.Wedged → ∀ more w', (∀ label ∈ more, label.readsAll) →
        execute (worldStep clock) w more = some w' → w'.shared.disk.lock ≠ none) ∧
      (¬ w.Wedged → ∃ restart ∈ restarts ι, ∃ more w', (∀ label ∈ more, label.smooth) ∧
        execute (worldStep clock) w (restart ++ more) = some w' ∧ w'.AtRest ∧
          w'.shared.disk.NoUnfinished) := by
  have hinv := invariant_of_reaches h
  refine ⟨fun hw more w' hreads hrun => (wedged_run hw hreads hrun).locked, fun hw => ?_⟩
  suffices hrest : ∃ restart ∈ restarts ι, ∃ more w', (∀ label ∈ more, label.smooth) ∧
      execute (worldStep clock) w (restart ++ more) = some w' ∧ w'.AtRest by
    obtain ⟨restart, hrestart, more, w', hsmooth, hrun, hrest⟩ := hrest
    have hinv' : w'.Invariant clock :=
      invariant_run (fun _ _ _ hv hstep => worldStep_invariant hv hstep) hinv hrun
    exact ⟨restart, hrestart, more, w', hsmooth, hrun, hrest,
      hinv'.consistent.noUnfinished_of_unlocked hrest.2⟩
  by_cases hfreeing : w.shared.Freeing
  · exact ⟨[], by simp [restarts], exists_rest_of_freeing clock hfreeing⟩
  by_cases howner : ∃ t, (w.locals t).owns = true ∧ (w.locals t).over = false
  · obtain ⟨t, howns, hover⟩ := howner
    have hserving : w.shared.service = .serving := by
      by_contra hservice
      rw [hinv.lock.quiet hservice t] at howns
      cases howns
    exact ⟨[], by simp [restarts], exists_rest_of_owner ⟨hinv, hserving, .inr ⟨howns, hover⟩⟩⟩
  have hgivenUp : ∀ t, (w.locals t).owns = true → w.locals t = .abandoned := by
    intro t howns
    refine Phase.abandoned_of_over howns (Bool.eq_true_of_not_eq_false fun hover => ?_)
    exact howner ⟨t, howns, hover⟩
  have hopen : w.shared.disk.lock = none ∨
      ∃ r ∈ RunStore.list w.shared.disk 1000 [], r.unfinished = true := by
    by_contra hnone
    obtain ⟨hlocked, hclosed⟩ := not_or.mp hnone
    refine hw ⟨hlocked, hgivenUp, fun r hr => ?_, hfreeing⟩
    exact Bool.eq_false_iff.mpr fun hu => hclosed ⟨r, hr, hu⟩
  obtain ⟨restart, hrestart, v, hrun, hv⟩ := exists_restart clock hfreeing hopen
  obtain ⟨more, w', hsmooth, hmore, hrest⟩ := exists_rest_of_freeing clock hv
  exact ⟨restart, hrestart, more, w', hsmooth, execute_append_eq_some.mpr ⟨v, hrun, hmore⟩, hrest⟩

theorem rests_or_wedged_marking :
    ∃ w : World Unit, Reaches (fun _ => default) {} marking w ∧
      (w.Wedged → ∀ more w', (∀ label ∈ more, label.readsAll) →
        execute (worldStep fun _ => default) w more = some w' → w'.shared.disk.lock ≠ none) ∧
      (¬ w.Wedged → ∃ restart ∈ restarts Unit, ∃ more w', (∀ label ∈ more, label.smooth) ∧
        execute (worldStep fun _ => default) w (restart ++ more) = some w' ∧ w'.AtRest ∧
          w'.shared.disk.NoUnfinished) := by
  have hrun : (execute (worldStep fun _ => default) (boot {}) marking).isSome = true := by
    decide +kernel
  obtain ⟨w, hw⟩ := Option.isSome_iff_exists.mp hrun
  exact ⟨w, hw, rests_or_wedged hw⟩

end SeapathWebui.Runs
