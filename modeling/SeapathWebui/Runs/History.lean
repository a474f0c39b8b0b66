/-
  Runs/History.lean --- what the run store looks like in every reachable state.

  Two facts about the store hold between any two file operations, whatever raised,
  whatever crashed: every record sits in its own run's directory, and a record that
  is pending or running is the run the lock names (`Disk.Consistent`).  With them
  goes an assertion for every point of the code of a request (`Phase.Holds`) and of
  `reconcile` (`Service.Holds`), which says what that code still relies on.

  A request outside its ownership relies on nothing and an owner is alone, so no
  step disturbs the assertions of the other requests.  Up to here the run ids may
  coincide.  That a finished record is never written again does need them to
  differ: until its first save a request relies on having no record yet.
-/
import SeapathWebui.Runs.LockSafety

set_option autoImplicit false

namespace SeapathWebui.Runs

open SeapathWebui.Foundation

variable {ι : Type*}

/-! ## The invariant -/

namespace Disk

/-- Every record is the one of its directory, and an unfinished one is the run
the lock names. -/
structure Consistent (d : Disk) : Prop where
  named : ∀ i r, d.record i = some r → r.id = i
  locked : ∀ i r, d.record i = some r → r.unfinished = true → d.lock = some i

/-- Nothing on disk says pending or running. -/
def NoUnfinished (d : Disk) : Prop :=
  ∀ i r, d.record i = some r → r.unfinished = false

/-- The run has a record, and it is not finished. -/
def OpenRecord (d : Disk) (i : RunId) : Prop :=
  ∃ r, d.record i = some r ∧ r.unfinished = true

/-- The run is finished, or has no record. -/
def ClosedRecord (d : Disk) (i : RunId) : Prop :=
  ∀ r, d.record i = some r → r.unfinished = false

/-- Once the run the lock names is closed, nothing is unfinished. -/
theorem Consistent.noUnfinished {d : Disk} (hc : d.Consistent) {i : RunId}
    (hlock : d.lock = some i) (hi : d.ClosedRecord i) : d.NoUnfinished := by
  intro j r hr
  cases hu : r.unfinished with
  | false => rfl
  | true =>
      have hj : i = j := Option.some.inj (hlock.symm.trans (hc.locked j r hr hu))
      subst hj
      rw [hi r hr] at hu
      cases hu

theorem Consistent.noUnfinished_of_unlocked {d : Disk} (hc : d.Consistent)
    (hlock : d.lock = none) : d.NoUnfinished := by
  intro j r hr
  cases hu : r.unfinished with
  | false => rfl
  | true =>
      have h := hc.locked j r hr hu
      rw [hlock] at h
      cases h

/-- The records decide whether a store with nothing unfinished is consistent. -/
theorem Consistent.of_records {d d' : Disk} (hc : d.Consistent) (hno : d.NoUnfinished)
    (h : ∀ j, d'.record j = d.record j) : d'.Consistent where
  named := fun i r hr => hc.named i r (h i ▸ hr)
  locked := fun i r hr hu => by
    rw [hno i r (h i ▸ hr)] at hu
    cases hu

/-- Same records, same lock. -/
theorem Consistent.of_same {d d' : Disk} (hc : d.Consistent) (hlock : d'.lock = d.lock)
    (h : ∀ j, d'.record j = d.record j) : d'.Consistent where
  named := fun i r hr => hc.named i r (h i ▸ hr)
  locked := fun i r hr hu => hlock ▸ hc.locked i r (h i ▸ hr) hu

/-- Installing a record of the run the lock names. -/
theorem Consistent.replaceRecord {d : Disk} (hc : d.Consistent) {r : RunRecord}
    (hlock : d.lock = some r.id) (htmp : d.temporary r.id = some r) :
    (d.replaceRecord r.id).Consistent where
  named := by
    intro j s hs
    rcases eq_or_ne r.id j with rfl | hne
    · rw [record_replaceRecord_self htmp] at hs
      rw [← Option.some.inj hs]
    · rw [record_replaceRecord_of_ne d hne] at hs
      exact hc.named j s hs
  locked := by
    intro j s hs hu
    rcases eq_or_ne r.id j with rfl | hne
    · simpa using hlock
    · rw [record_replaceRecord_of_ne d hne] at hs
      simpa using hc.locked j s hs hu

/-- What the record of a run is once a save of it is over. -/
theorem OpenRecord.replaceRecord {d : Disk} {r : RunRecord} (htmp : d.temporary r.id = some r)
    (hu : r.unfinished = true) : (d.replaceRecord r.id).OpenRecord r.id :=
  ⟨r, record_replaceRecord_self htmp, hu⟩

theorem ClosedRecord.replaceRecord {d : Disk} {r : RunRecord}
    (htmp : d.temporary r.id = some r) (hu : r.unfinished = false) :
    (d.replaceRecord r.id).ClosedRecord r.id := by
  intro s hs
  rw [record_replaceRecord_self htmp] at hs
  rw [← Option.some.inj hs]
  exact hu

theorem OpenRecord.of_records {d d' : Disk} {i : RunId} (h : d.OpenRecord i)
    (hrec : d'.record i = d.record i) : d'.OpenRecord i := by
  obtain ⟨r, hr, hu⟩ := h
  exact ⟨r, hrec.trans hr, hu⟩

theorem ClosedRecord.of_records {d d' : Disk} {i : RunId} (h : d.ClosedRecord i)
    (hrec : d'.record i = d.record i) : d'.ClosedRecord i :=
  fun r hr => h r (hrec ▸ hr)

end Disk

/-- The file operations of `create` that write inside the run directory. -/
def CreateOp.inDirectory : CreateOp → Bool
  | .readInventory | .makeDirectory => false
  | .writeInventory | .touchEvents | .touchLog => true

/-- What a `save` relies on having been saved before. -/
def SaveStage.Holds (i : RunId) (d : Disk) : SaveStage → Prop
  | .create => d.ClosedRecord i
  | .mark | .event | .final => d.OpenRecord i

/-- What the code of request `i` relies on at each of its points. -/
def Phase.Holds (i : RunId) (d : Disk) : Phase → Prop
  | .opening r _ => r.id = i ∧ r.unfinished = true
  | .writingId r _ =>
      r.id = i ∧ r.unfinished = true ∧ d.NoUnfinished ∧ d.lock ≠ none
  | .creating op r _ =>
      r.id = i ∧ r.unfinished = true ∧ d.ClosedRecord i ∧ d.lock = some i ∧
        (op.inDirectory = true → d.hasDirectory i)
  | .saving stage op r =>
      r.id = i ∧ r.unfinished = !decide (stage = .final) ∧ stage.Holds i d ∧
        d.lock = some i ∧ d.hasDirectory i ∧ (op = .replace → d.temporary i = some r)
  | .starting r | .executing r _ _ | .appending _ r _ _ =>
      r.id = i ∧ r.unfinished = true ∧ d.OpenRecord i ∧ d.lock = some i ∧ d.hasDirectory i
  | .releasing _ r | .unlinking _ r =>
      r.id = i ∧ d.lock = some i ∧ d.ClosedRecord i
  | .idle | .abandoned | .ended => True

/-! ## One step of a request -/

/-- What a step of request `i` establishes. -/
structure StepResult (i : RunId) (d' : Disk) (l' : Phase) : Prop where
  consistent : d'.Consistent
  holds : l'.Holds i d'

/-- The operations of `create` before its `save`. -/
theorem createEffect_result {r : RunRecord} {inventory : String} {d : Disk} {op : CreateOp}
    (hc : d.Consistent) (hl : (Phase.creating op r inventory).Holds r.id d) :
    StepResult r.id (createEffect r inventory d op) (afterCreateOp r inventory op) := by
  obtain ⟨-, hu, hclosed, hlock, hdir⟩ := hl
  have hlock' : (createEffect r inventory d op).lock = d.lock := by
    cases op <;> simp [createEffect]
  have hrec : ∀ j, (createEffect r inventory d op).record j = d.record j := by
    intro j
    cases op <;> simp [createEffect]
  have hclosed' := hclosed.of_records (hrec r.id)
  refine ⟨hc.of_same hlock' hrec, ?_⟩
  cases op with
  | readInventory => exact ⟨rfl, hu, hclosed, hlock, fun h => by cases h⟩
  | makeDirectory =>
      exact ⟨rfl, hu, hclosed', hlock'.trans hlock,
        fun _ => Disk.hasDirectory_makeDirectory d r.id⟩
  | writeInventory =>
      exact ⟨rfl, hu, hclosed', hlock'.trans hlock,
        fun _ => by simpa [createEffect, Disk.writeInventory] using hdir rfl⟩
  | touchEvents =>
      exact ⟨rfl, hu, hclosed', hlock'.trans hlock,
        fun _ => by simpa [createEffect, Disk.touchEvents] using hdir rfl⟩
  | touchLog =>
      exact ⟨rfl, by simpa using hu, hclosed', hlock'.trans hlock,
        by simpa [createEffect, Disk.touchLog] using hdir rfl, (by rintro ⟨⟩)⟩

/-- The write of the temporary record. -/
theorem writeTemporary_result {stage : SaveStage} {r : RunRecord} {d : Disk}
    (hc : d.Consistent) (hl : (Phase.saving stage .writeTemporary r).Holds r.id d) :
    StepResult r.id (d.writeTemporary r) (.saving stage .replace r) := by
  obtain ⟨-, hu, hstage, hlock, hdir, -⟩ := hl
  have hrec : ∀ j, (d.writeTemporary r).record j = d.record j := fun j => by simp
  refine ⟨hc.of_same rfl hrec, rfl, hu, ?_, hlock, ?_, fun _ => ?_⟩
  · cases stage with
    | create => exact hstage.of_records (hrec r.id)
    | mark | event | final => exact hstage.of_records (hrec r.id)
  · simpa [Disk.writeTemporary] using hdir
  · exact Disk.temporary_writeTemporary hdir

/-- The replace of a `save`. -/
theorem replaceRecord_result {stage : SaveStage} {r : RunRecord} {now : Instant} {d : Disk}
    (hc : d.Consistent) (hl : (Phase.saving stage .replace r).Holds r.id d) :
    StepResult r.id (d.replaceRecord r.id) (afterSave now r stage) := by
  obtain ⟨-, hu, -, hlock, hdir, htmp⟩ := hl
  have hdir' : (d.replaceRecord r.id).hasDirectory r.id := by
    simpa [Disk.replaceRecord] using hdir
  refine ⟨hc.replaceRecord hlock (htmp rfl), ?_⟩
  cases stage with
  | create =>
      have hopen := Disk.OpenRecord.replaceRecord (htmp rfl) (by simpa using hu)
      exact ⟨rfl, by simp, hopen, hlock, hdir', (by rintro ⟨⟩)⟩
  | mark | event =>
      have hopen := Disk.OpenRecord.replaceRecord (htmp rfl) (by simpa using hu)
      exact ⟨rfl, by simpa using hu, hopen, hlock, hdir'⟩
  | final => exact ⟨rfl, hlock, .replaceRecord (htmp rfl) (by simpa using hu)⟩

/-- Step lemma: a request keeps the store consistent and its own assertion. -/
theorem requestStep_result {i : RunId} {a : Action} {d d' : Disk} {l l' : Phase}
    (hc : d.Consistent) (hl : l.Holds i d) (h : requestStep i a d l = some (d', l')) :
    StepResult i d' l' := by
  cases RequestStep.of_eq_some h with
  | launch q inventory d => exact ⟨hc, rfl, rfl⟩
  | acquire now r inventory hlock =>
      -- no lock, so nothing is unfinished
      obtain ⟨hid, hu⟩ := hl
      have hno := hc.noUnfinished_of_unlocked hlock
      exact ⟨hc.of_records hno fun _ => rfl, hid, hu, hno, Option.some_ne_none _⟩
  | writeId now d r inventory =>
      obtain ⟨rfl, hu, hno, -⟩ := hl
      exact ⟨hc.of_records hno fun _ => rfl, rfl, hu, hno r.id, rfl, fun h => by cases h⟩
  | failWriting written d r inventory =>
      exact ⟨hc.of_records hl.2.2.1 fun _ => rfl, trivial⟩
  | create now op d r inventory =>
      obtain rfl := hl.1
      exact createEffect_result hc hl
  | failCreate op d r inventory =>
      obtain ⟨hid, -, hclosed, hlock, -⟩ := hl
      exact ⟨hc, hid, hlock, hclosed⟩
  | write now stage d r =>
      obtain rfl := hl.1
      exact writeTemporary_result hc hl
  | replace now stage d r =>
      obtain rfl := hl.1
      exact replaceRecord_result hc hl
  | failSave stage op d r =>
      obtain ⟨hid, hu, hstage, hlock, hdir, -⟩ := hl
      refine ⟨hc, ?_⟩
      cases stage with
      | create => exact ⟨hid, hlock, hstage⟩
      | event => exact ⟨hid, by simpa using hu, hstage, hlock, hdir⟩
      | mark | final => trivial
  | silentEvent p d r before assigned =>
      obtain ⟨hid, hu, hopen, hlock, hdir⟩ := hl
      exact ⟨hc, hid, hu, hopen, hlock, hdir, (by rintro ⟨⟩)⟩
  | event line p d r before assigned =>
      obtain ⟨hid, hu, hopen, hlock, hdir⟩ := hl
      exact ⟨hc, by simpa using hid, by simpa using hu, hopen, hlock, hdir⟩
  | output text d r p assigned =>
      obtain ⟨hid, hu, hopen, hlock, hdir⟩ := hl
      have hrec : ∀ j, (d.appendLog r.id text).record j = d.record j := fun j => by simp
      exact ⟨hc.of_same rfl hrec, hid, hu, hopen.of_records (hrec i), hlock,
        by simpa [Disk.appendLog] using hdir⟩
  | finish | raise =>
      obtain ⟨hid, -, hopen, hlock, hdir⟩ := hl
      exact ⟨hc, hid, by simp, hopen, hlock, hdir, (by rintro ⟨⟩)⟩
  | append now line d r p assigned =>
      obtain ⟨hid, hu, hopen, hlock, hdir⟩ := hl
      have hrec : ∀ j, (d.appendEvent r.id line).record j = d.record j := fun j => by simp
      exact ⟨hc.of_same rfl hrec, hid, hu, hopen.of_records (hrec i), hlock,
        by simpa [Disk.appendEvent] using hdir, (by rintro ⟨⟩)⟩
  | unlink now cause d r =>
      obtain ⟨-, hlock, hclosed⟩ := hl
      exact ⟨hc.of_records (hc.noUnfinished hlock hclosed) fun _ => rfl, trivial⟩
  | start | failAppend | held | failHolder => exact ⟨hc, hl⟩
  | refuse | failOpening | failStart | foreign | failUnlink => exact ⟨hc, trivial⟩

/-- Outside ownership a request relies on nothing in the store. -/
theorem Phase.Holds.of_not_owns {i : RunId} {d d' : Disk} {l : Phase}
    (hl : l.owns = false) (h : l.Holds i d) : l.Holds i d' := by
  cases l with
  | idle | opening | ended => exact h
  | _ => cases hl

theorem Phase.holds_kill {i : RunId} {d : Disk} (l : Phase) : l.kill.Holds i d := by
  rcases Phase.kill_eq l with ⟨hk, -⟩ | hk
  all_goals rw [hk]; trivial

/-! ## One step of `reconcile` -/

/-- What `reconcile` relies on at each of its points. -/
def Service.Holds (d : Disk) : Service → Prop
  | .stopped | .serving => True
  | .reconciling todo recovered =>
      (∀ r ∈ todo, d.record r.id = some r) ∧ (todo.map (·.id)).Nodup ∧
        (recovered ≠ [] → d.NoUnfinished ∧ d.lock ≠ none)
  | .closing op r todo _ =>
      r.unfinished = false ∧ d.OpenRecord r.id ∧ d.lock = some r.id ∧
        (∀ s ∈ todo, d.record s.id = some s) ∧ ((r :: todo).map (·.id)).Nodup ∧
        (op = .replace → d.temporary r.id = some r)
  | .unlocking _ => d.NoUnfinished ∧ d.lock ≠ none

/-- What a step of `reconcile` establishes. -/
structure ReconcileResult (m : Node) : Prop where
  consistent : m.disk.Consistent
  holds : m.service.Holds m.disk

/-- What `list` returns is what the store holds, each run once. -/
theorem start_holds {d : Disk} {unreadable : List RunId} (hc : d.Consistent) :
    (Service.reconciling (RunStore.list d 1000 unreadable) []).Holds d := by
  refine ⟨?_, RunStore.nodup_ids_list hc.named, fun h => (h rfl).elim⟩
  intro r hr
  obtain ⟨i, _, hi⟩ := RunStore.mem_readable.mp (RunStore.mem_readable_of_mem_list hr)
  rw [hc.named i r hi]
  exact hi

/-- The replace of the `save` in `reconcile` closes the one run that was open. -/
theorem closing_replace_result {d : Disk} {r : RunRecord} {todo recovered : List RunRecord}
    (hc : d.Consistent) (hs : (Service.closing .replace r todo recovered).Holds d) :
    ReconcileResult ⟨d.replaceRecord r.id, .reconciling todo (recovered ++ [r])⟩ := by
  obtain ⟨hfin, -, hlock, htodo, hnodup, htmp⟩ := hs
  have hc' := hc.replaceRecord hlock (htmp rfl)
  obtain ⟨hr, hnodup⟩ := List.nodup_cons.mp (List.map_cons ▸ hnodup)
  refine ⟨hc', ?_, hnodup, fun _ => ⟨?_, ?_⟩⟩
  · intro s hs
    have hne : r.id ≠ s.id := fun h => hr (h ▸ List.mem_map_of_mem hs)
    rw [Disk.record_replaceRecord_of_ne d hne]
    exact htodo s hs
  · -- the lock named it, and now it is closed
    exact hc'.noUnfinished hlock (.replaceRecord (htmp rfl) hfin)
  · rw [Disk.lock_replaceRecord, hlock]
    exact Option.some_ne_none _

/-- Step lemma of `reconcile`. -/
theorem reconcileStep_result {now : Instant} {n m : Node} (hc : n.disk.Consistent)
    (hs : n.service.Holds n.disk) (h : reconcileStep now n = some m) : ReconcileResult m := by
  cases ReconcileStep.of_eq_some h with
  | serve d => exact ⟨hc, trivial⟩
  | unlock d r recovered => exact ⟨hc, hs.2.2 (List.cons_ne_nil _ _)⟩
  | close d todo recovered hu =>
      obtain ⟨htodo, hnodup, -⟩ := hs
      have hr := htodo _ List.mem_cons_self
      have htodo' : ∀ s ∈ todo, d.record s.id = some s :=
        fun s hs => htodo s (List.mem_cons_of_mem _ hs)
      exact ⟨hc, rfl, ⟨_, hr, hu⟩, hc.locked _ _ hr hu, htodo', hnodup, (by rintro ⟨⟩)⟩
  | skip d todo recovered hu =>
      obtain ⟨htodo, hnodup, hno⟩ := hs
      exact ⟨hc, fun s hs => htodo s (List.mem_cons_of_mem _ hs),
        (List.nodup_cons.mp (List.map_cons ▸ hnodup)).2, hno⟩
  | write d r todo recovered =>
      obtain ⟨hfin, ⟨s, hs, hu⟩, hlock, htodo, hnodup, -⟩ := hs
      have hrec : ∀ j, (d.writeTemporary r).record j = d.record j := fun j => by simp
      refine ⟨hc.of_same rfl hrec, hfin, ⟨s, (hrec _).trans hs, hu⟩, hlock, ?_, hnodup, ?_⟩
      · exact fun s hs => (hrec s.id).trans (htodo s hs)
      · exact fun _ => Disk.temporary_writeTemporary (Disk.hasDirectory_of_record hs)
  | replace d r todo recovered => exact closing_replace_result hc hs
  | unlink d recovered => exact ⟨hc.of_records hs.1 fun _ => rfl, trivial⟩

/-! ## Whole histories -/

/-- The invariant of the system. -/
structure World.Invariant (clock : ι → Instant) (w : World ι) : Prop where
  lock : w.LockInvariant
  consistent : w.shared.disk.Consistent
  service : w.shared.service.Holds w.shared.disk
  requests : ∀ t, (w.locals t).Holds (newRunId (clock t)) w.shared.disk

theorem boot_invariant (clock : ι → Instant) : (boot {} : World ι).Invariant clock where
  lock := boot_lockInvariant _
  consistent := ⟨fun _ r hr => (Option.some_ne_none r hr.symm).elim,
    fun _ r hr => (Option.some_ne_none r hr.symm).elim⟩
  service := trivial
  requests := fun _ => trivial

/-- A step of one request leaves what the others rely on: while another one owns
the lock it changes nothing. -/
theorem others_hold {clock : ι → Instant} {w : World ι} {t u : ι} {a : Action} {d : Disk}
    {l : Phase} (hinv : w.Invariant clock) (hne : u ≠ t)
    (hreq : requestStep (newRunId (clock t)) a w.shared.disk (w.locals t) = some (d, l)) :
    (w.locals u).Holds (newRunId (clock u)) d := by
  have hex := hinv.lock.exclusive
  cases hu : (w.locals u).owns with
  | false => exact (hinv.requests u).of_not_owns hu
  | true =>
      have ht : (w.locals t).owns = false := by
        cases ht : (w.locals t).owns with
        | false => rfl
        | true => exact (hne (hex.unique u t hu ht)).elim
      have hl : l.owns = false := by
        cases hl : l.owns with
        | false => rfl
        | true => exact (hex.guarded u hu (requestStep_enter hreq ht hl).1).elim
      rw [requestStep_outside hreq ht hl]
      exact hinv.requests u

/-- `reconcile` steps while no request owns the lock. -/
theorem no_owner_of_reconcileStep {w : World ι} {now : Instant} {n : Node}
    (hinv : w.LockInvariant) (h : reconcileStep now w.shared = some n) :
    ∀ t, (w.locals t).owns = false := by
  refine hinv.quiet fun hserving => ?_
  rw [reconcileStep, hserving] at h
  cases h

/-- Step lemma: every step of the system keeps the invariant. -/
theorem worldStep_invariant [DecidableEq ι] {clock : ι → Instant} {w w' : World ι}
    {label : Label ι} (hinv : w.Invariant clock) (h : worldStep clock w label = some w') :
    w'.Invariant clock := by
  have hlock := worldStep_lockInvariant hinv.lock h
  rcases worldStep_cases h with ⟨t, a, rfl, hstep⟩ | ⟨rfl, _, rfl⟩ | ⟨_, rfl, hs, rfl⟩ |
    ⟨now, n, rfl, hn, rfl⟩ | ⟨rfl, hs, rfl⟩
  · obtain ⟨n, l, hact, rfl⟩ := Config.advance_eq_some.mp hstep
    obtain ⟨_, d, hreq, rfl⟩ := threadStep_eq_some.mp hact
    have hresult := requestStep_result hinv.consistent (hinv.requests t) hreq
    refine ⟨hlock, hresult.consistent, trivial, ?_⟩
    intro u
    rcases eq_or_ne u t with rfl | hne
    · simpa using hresult.holds
    · simpa [Function.update_of_ne hne] using others_hold hinv hne hreq
  · exact ⟨hlock, hinv.consistent, trivial, fun t => Phase.holds_kill _⟩
  · exact ⟨hlock, hinv.consistent, start_holds hinv.consistent, hinv.requests⟩
  · have hresult := reconcileStep_result hinv.consistent hinv.service hn
    have hquiet := no_owner_of_reconcileStep hinv.lock hn
    exact ⟨hlock, hresult.consistent, hresult.holds,
      fun t => (hinv.requests t).of_not_owns (hquiet t)⟩
  · exact ⟨hlock, hinv.consistent, trivial, hinv.requests⟩

/-- Run lemma. -/
theorem invariant_of_reaches [DecidableEq ι] {clock : ι → Instant} {labels : List (Label ι)}
    {w : World ι} (h : Reaches clock {} labels w) : w.Invariant clock :=
  invariant_run (fun _ _ _ hinv hstep => worldStep_invariant hinv hstep)
    (boot_invariant clock) h

/-! ## Finished records -/

/-- The request has not saved its record yet. -/
def Phase.unsaved : Phase → Bool
  | .idle | .opening _ _ | .writingId _ _ | .creating _ _ _ | .saving .create _ _ => true
  | _ => false

/-- Until its first save a request has no record on disk. -/
def World.Fresh (clock : ι → Instant) (w : World ι) : Prop :=
  ∀ t, (w.locals t).unsaved = true → w.shared.disk.record (newRunId (clock t)) = none

/-- Every finished record of `d` is in `d'` as it was. -/
def Disk.KeepsFinished (d d' : Disk) : Prop :=
  ∀ i r, d.record i = some r → r.unfinished = false → d'.record i = some r

theorem Disk.KeepsFinished.of_records {d d' : Disk} (h : ∀ j, d'.record j = d.record j) :
    d.KeepsFinished d' := fun i _ hr _ => (h i).trans hr

theorem Disk.KeepsFinished.trans {d e f : Disk} (h : d.KeepsFinished e)
    (h' : e.KeepsFinished f) : d.KeepsFinished f :=
  fun i r hr hfin => h' i r (h i r hr hfin) hfin

/-- A save over a record that is open, or not there, loses nothing finished. -/
theorem Disk.KeepsFinished.replaceRecord {d : Disk} {i : RunId}
    (h : ∀ r, d.record i = some r → r.unfinished = true) :
    d.KeepsFinished (d.replaceRecord i) := by
  intro j r hr hfin
  rcases eq_or_ne i j with rfl | hne
  · rw [h r hr] at hfin
    cases hfin
  · rw [record_replaceRecord_of_ne d hne]
    exact hr

theorem Disk.OpenRecord.unfinished {d : Disk} {i : RunId} (h : d.OpenRecord i) {r : RunRecord}
    (hr : d.record i = some r) : r.unfinished = true := by
  obtain ⟨s, hs, hu⟩ := h
  rw [hr] at hs
  rw [Option.some.inj hs]
  exact hu

theorem MinorWrite.record {d d' : Disk} (h : MinorWrite d d') (j : RunId) :
    d'.record j = d.record j := by
  cases h with
  | none | lock text => rfl
  | create op r inventory => cases op <;> simp [createEffect]
  | temporary r => simp
  | log i text => simp

/-- The only step of a request that writes a record is the replace of a save. -/
theorem requestStep_record {i : RunId} {a : Action} {d d' : Disk} {l l' : Phase}
    (h : requestStep i a d l = some (d', l')) :
    (∀ j, d'.record j = d.record j) ∨
    ∃ now stage r, l = .saving stage .replace r ∧ d' = d.replaceRecord r.id ∧
      l' = afterSave now r stage := by
  rcases requestStep_writes h with hminor | hreplace | ⟨line, r, p, assigned, -, rfl⟩
  · exact .inl hminor.record
  · exact .inr hreplace
  · exact .inl fun j => by simp

theorem afterSave_unsaved (now : Instant) (r : RunRecord) (stage : SaveStage) :
    (afterSave now r stage).unsaved = false := by
  cases stage <;> rfl

/-- A request that has saved its record does not go back. -/
theorem requestStep_unsaved {i : RunId} {a : Action} {d d' : Disk} {l l' : Phase}
    (h : requestStep i a d l = some (d', l')) (hl : l.unsaved = false) : l'.unsaved = false := by
  cases RequestStep.of_eq_some h with
  | write now stage d r =>
      cases stage with
      | create => cases hl
      | mark | event | final => rfl
  | replace now stage d r => exact afterSave_unsaved now r stage
  | failSave stage op d r => cases stage <;> rfl
  | launch | refuse | failOpening | acquire | writeId | failWriting | create | failCreate =>
      cases hl
  | _ => rfl

/-- The only step of `reconcile` that writes a record is the replace of its save. -/
theorem reconcileStep_record {now : Instant} {n m : Node} (h : reconcileStep now n = some m) :
    (∀ j, m.disk.record j = n.disk.record j) ∨
    ∃ r todo recovered, n.service = .closing .replace r todo recovered ∧
      m.disk = n.disk.replaceRecord r.id := by
  cases ReconcileStep.of_eq_some h with
  | replace d r todo recovered => exact Or.inr ⟨r, todo, recovered, rfl, rfl⟩
  | write d r todo recovered => exact Or.inl fun j => by simp
  | serve | unlock | close | skip | unlink => exact Or.inl fun _ => rfl

/-- A request writes no record but its own. -/
theorem requestStep_frame {i j : RunId} {a : Action} {d d' : Disk} {l l' : Phase}
    (hl : l.Holds i d) (h : requestStep i a d l = some (d', l')) (hne : i ≠ j) :
    d'.record j = d.record j := by
  rcases requestStep_record h with hrec | ⟨now, stage, r, rfl, rfl, -⟩
  · exact hrec j
  · obtain ⟨rfl, -⟩ := hl
    exact Disk.record_replaceRecord_of_ne d hne

/-- Until its first save it keeps having none. -/
theorem requestStep_fresh {i : RunId} {a : Action} {d d' : Disk} {l l' : Phase}
    (hfresh : l.unsaved = true → d.record i = none)
    (h : requestStep i a d l = some (d', l')) (hl' : l'.unsaved = true) : d'.record i = none := by
  have hl : l.unsaved = true := by
    by_contra hsaved
    rw [requestStep_unsaved h (by simpa using hsaved)] at hl'
    cases hl'
  rcases requestStep_record h with hrec | ⟨now, stage, r, -, -, rfl⟩
  · rw [hrec, hfresh hl]
  · rw [afterSave_unsaved] at hl'
    cases hl'

/-- What it saves over is missing or unfinished. -/
theorem requestStep_keepsFinished {i : RunId} {a : Action} {d d' : Disk} {l l' : Phase}
    (hl : l.Holds i d) (hfresh : l.unsaved = true → d.record i = none)
    (h : requestStep i a d l = some (d', l')) : d.KeepsFinished d' := by
  rcases requestStep_record h with hrec | ⟨now, stage, r, rfl, rfl, -⟩
  · exact .of_records hrec
  · obtain ⟨rfl, -, hstage, -⟩ := hl
    refine .replaceRecord fun s hs => ?_
    cases stage with
    | create =>
        rw [hfresh rfl] at hs
        cases hs
    | mark | event | final => exact Disk.OpenRecord.unfinished hstage hs

/-- With run ids that differ, the step of a request writes over no finished record, and a
request without a record keeps having none. -/
theorem threadStep_keepsFinished [DecidableEq ι] {clock : ι → Instant}
    (hids : Function.Injective fun t => newRunId (clock t)) {w w' : World ι} {t : ι} {a : Action}
    (hinv : w.Invariant clock) (hfresh : w.Fresh clock)
    (h : w.advance (threadStep clock) t a = some w') :
    w'.Fresh clock ∧ w.shared.disk.KeepsFinished w'.shared.disk := by
  obtain ⟨n, l, hact, rfl⟩ := Config.advance_eq_some.mp h
  obtain ⟨_, d, hreq, rfl⟩ := threadStep_eq_some.mp hact
  have hown := hinv.requests t
  refine ⟨?_, requestStep_keepsFinished hown (hfresh t) hreq⟩
  intro u hu
  rcases eq_or_ne u t with rfl | hne
  · exact requestStep_fresh (hfresh u) hreq (by simpa using hu)
  · have hids' : newRunId (clock t) ≠ newRunId (clock u) := fun heq => hne (hids heq).symm
    exact (requestStep_frame hown hreq hids').trans
      (hfresh u (by simpa [Function.update_of_ne hne] using hu))

/-- Nor does a step of `reconcile`, which saves none but an unfinished record. -/
theorem reconcileStep_keepsFinished {clock : ι → Instant} {w : World ι} {now : Instant} {n : Node}
    (hinv : w.Invariant clock) (hfresh : w.Fresh clock)
    (h : reconcileStep now w.shared = some n) :
    World.Fresh clock ⟨n, w.locals⟩ ∧ w.shared.disk.KeepsFinished n.disk := by
  rcases reconcileStep_record h with hrec | ⟨r, todo, recovered, hs, hd⟩
  · exact ⟨fun t ht => (hrec _).trans (hfresh t ht), .of_records hrec⟩
  · have hopen : w.shared.disk.OpenRecord r.id := (hs ▸ hinv.service).2.1
    rw [hd]
    refine ⟨?_, .replaceRecord fun s hs => hopen.unfinished hs⟩
    intro t ht
    have hne : r.id ≠ newRunId (clock t) := by
      intro heq
      obtain ⟨s, hs, -⟩ := hopen
      rw [heq, hfresh t ht] at hs
      cases hs
    simp only [hd, Disk.record_replaceRecord_of_ne _ hne]
    exact hfresh t ht

/-- Step lemma: with run ids that differ, no step writes over a finished record,
and a request without a record keeps having none. -/
theorem worldStep_keepsFinished [DecidableEq ι] {clock : ι → Instant}
    (hids : Function.Injective fun t => newRunId (clock t)) {w w' : World ι} {label : Label ι}
    (hinv : w.Invariant clock) (hfresh : w.Fresh clock)
    (h : worldStep clock w label = some w') :
    w'.Fresh clock ∧ w.shared.disk.KeepsFinished w'.shared.disk := by
  rcases worldStep_cases h with ⟨t, a, rfl, hstep⟩ | ⟨rfl, _, rfl⟩ | ⟨_, rfl, hs, rfl⟩ |
    ⟨now, n, rfl, hn, rfl⟩ | ⟨rfl, hs, rfl⟩
  · exact threadStep_keepsFinished hids hinv hfresh hstep
  · -- a killed request that had no record was not launched yet
    refine ⟨?_, .of_records fun _ => rfl⟩
    intro t ht
    refine hfresh t ?_
    rcases Phase.kill_eq (w.locals t) with ⟨_, hl⟩ | hk
    · rw [hl]; rfl
    · simp [hk, Phase.unsaved] at ht
  · exact ⟨hfresh, .of_records fun _ => rfl⟩
  · exact reconcileStep_keepsFinished hinv hfresh hn
  · exact ⟨hfresh, .of_records fun _ => rfl⟩

/-- A finished record outlives every continuation. -/
theorem keepsFinished_run [DecidableEq ι] {clock : ι → Instant}
    (hids : Function.Injective fun t => newRunId (clock t)) {labels : List (Label ι)}
    {w w' : World ι} (hinv : w.Invariant clock) (hfresh : w.Fresh clock)
    (h : execute (worldStep clock) w labels = some w') :
    w.shared.disk.KeepsFinished w'.shared.disk :=
  relation_run (I := fun v : World ι => v.Invariant clock ∧ v.Fresh clock)
    (R := fun v v' : World ι => v.shared.disk.KeepsFinished v'.shared.disk)
    (fun _ _ _ hI hstep =>
      ⟨worldStep_invariant hI.1 hstep, (worldStep_keepsFinished hids hI.1 hI.2 hstep).1⟩)
    (fun _ => .of_records fun _ => rfl)
    (fun _ _ _ _ hI hstep hrest => (worldStep_keepsFinished hids hI.1 hI.2 hstep).2.trans hrest)
    ⟨hinv, hfresh⟩ h

theorem fresh_of_reaches [DecidableEq ι] {clock : ι → Instant}
    (hids : Function.Injective fun t => newRunId (clock t)) {labels : List (Label ι)}
    {w : World ι} (h : Reaches clock {} labels w) : w.Fresh clock :=
  (invariant_run (I := fun v : World ι => v.Invariant clock ∧ v.Fresh clock)
    (fun _ _ _ hI hstep =>
      ⟨worldStep_invariant hI.1 hstep, (worldStep_keepsFinished hids hI.1 hI.2 hstep).1⟩)
    ⟨boot_invariant clock, fun _ _ => rfl⟩ h).2

/-- In every state of every history, started on an empty store with run ids that
differ: at most one record is pending or running, the lock file names it, and a
record once finished is never changed again. -/
theorem run_store_invariant [DecidableEq ι] {clock : ι → Instant}
    (hids : Function.Injective fun t => newRunId (clock t)) {labels : List (Label ι)}
    {w : World ι} (h : Reaches clock {} labels w) :
    (∀ i j r s, w.shared.disk.record i = some r → r.unfinished = true →
      w.shared.disk.record j = some s → s.unfinished = true → i = j) ∧
    (∀ i r, w.shared.disk.record i = some r → r.unfinished = true →
      w.shared.disk.lock = some r.id) ∧
    (∀ i r, w.shared.disk.record i = some r → r.finished = true →
      ∀ more w', execute (worldStep clock) w more = some w' →
        w'.shared.disk.record i = some r) := by
  have hinv := invariant_of_reaches h
  have hc := hinv.consistent
  refine ⟨?_, ?_, ?_⟩
  · intro i j r s hr hru hs hsu
    exact Option.some.inj ((hc.locked i r hr hru).symm.trans (hc.locked j s hs hsu))
  · intro i r hr hu
    rw [hc.named i r hr]
    exact hc.locked i r hr hu
  · intro i r hr hfin more w' hmore
    refine keepsFinished_run hids hinv (fresh_of_reaches hids h) hmore i r hr ?_
    rw [RunRecord.finished_eq_not_unfinished] at hfin
    simpa using hfin

/-- Two requests, a microsecond apart. -/
def twoRequests (t : Bool) : Instant :=
  { (default : Instant) with microsecond := if t then 1 else 0 }

/-- The first request runs to its end, the second one is in the middle of its
playbook. -/
def oneAfterTheOther : List (Label Bool) :=
  [.start [], .reconcile default, .request false (.launch default "all: {}\n")] ++
  List.replicate 12 (.request false (.proceed default)) ++
  [.request false (.finish default default)] ++
  List.replicate 4 (.request false (.proceed default)) ++
  [.request true (.launch default "all: {}\n")] ++
  List.replicate 12 (.request true (.proceed default))

theorem twoRequests_injective : Function.Injective fun t => newRunId (twoRequests t) := by
  intro t u h
  cases t <;> cases u <;> first | rfl | exact absurd h (by decide)

theorem run_store_invariant_oneAfterTheOther :
    ∃ w : World Bool, Reaches twoRequests {} oneAfterTheOther w ∧
      ((w.shared.disk.record (newRunId (twoRequests false))).map (·.state)) = some .interrupted ∧
      ((w.shared.disk.record (newRunId (twoRequests true))).map (·.state)) = some .running ∧
      ∀ i r, w.shared.disk.record i = some r → r.unfinished = true →
        w.shared.disk.lock = some r.id :=
  have h : Reaches twoRequests {} oneAfterTheOther _ := rfl
  ⟨_, h, rfl, rfl, (run_store_invariant twoRequests_injective h).2.1⟩

end SeapathWebui.Runs
