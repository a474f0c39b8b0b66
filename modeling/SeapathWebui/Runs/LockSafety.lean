/-
  Runs/LockSafety.lean --- one run at a time.

  The lock file is created by an exclusive create and removed by `release`, which
  unlinks a lock whose content is its own run id, but also one whose content is
  empty: exactly what the half-finished `acquire` of another run looks like.  The
  reason this is safe is in the control flow, not in the file: `release` is only
  reached by a run that created the file itself and has not released it since, so
  while one is there nobody else can have created it.

  `Phase.owns` says that, and the three ways a step may touch the lock
  (`lockProtocol`) make it exclusive by `LockProtocol.exclusive_advance`.  The
  argument asks nothing of the run identifiers, not even that they differ.
-/
import SeapathWebui.Runs.Lifecycle

set_option autoImplicit false

namespace SeapathWebui.Runs

open SeapathWebui.Foundation

variable {ι : Type*}

/-- The lock file exists. -/
def Node.locked (n : Node) : Prop := n.disk.lock ≠ none

/-! ## What one step does to the lock -/

/-- A step into ownership is the exclusive create. -/
theorem requestStep_enter {i : RunId} {a : Action} {d d' : Disk} {l l' : Phase}
    (h : requestStep i a d l = some (d', l')) (hl : l.owns = false) (hl' : l'.owns = true) :
    d.lock = none ∧ d'.lock = some "" := by
  cases RequestStep.of_eq_some h with
  | acquire now r inventory hlock => exact ⟨hlock, rfl⟩
  | launch | refuse | failOpening => cases hl'
  | _ => cases hl

/-- Outside ownership a step leaves the store alone. -/
theorem requestStep_outside {i : RunId} {a : Action} {d d' : Disk} {l l' : Phase}
    (h : requestStep i a d l = some (d', l')) (hl : l.owns = false) (hl' : l'.owns = false) :
    d' = d := by
  cases RequestStep.of_eq_some h with
  | launch | refuse | failOpening => rfl
  | acquire => cases hl'
  | _ => cases hl

/-- While it owns the lock, a run does not remove it. -/
theorem requestStep_keep {i : RunId} {a : Action} {d d' : Disk} {l l' : Phase}
    (h : requestStep i a d l = some (d', l')) (hl : l.owns = true) (hl' : l'.owns = true)
    (hd : d.lock ≠ none) : d'.lock ≠ none := by
  cases RequestStep.of_eq_some h with
  | create now op d r inventory => cases op <;> simpa [createEffect] using hd
  | writeId | failWriting => simp
  | write | replace | append | output => simpa using hd
  | foreign | unlink => cases hl'
  | launch | refuse | failOpening | acquire => cases hl
  | _ => exact hd

/-! ## The protocol -/

/-- The requests follow the lock protocol, whatever their number, their
identifiers and what the adapter reports. -/
theorem lockProtocol (clock : ι → Instant) :
    LockProtocol (threadStep clock) Node.locked (fun l : Phase => l.owns = true) where
  enter := by
    intro t a n l n' l' hstep hl hl'
    obtain ⟨_, d, hreq, rfl⟩ := threadStep_eq_some.mp hstep
    obtain ⟨hnone, hsome⟩ := requestStep_enter hreq (Bool.eq_false_iff.mpr hl) hl'
    exact ⟨fun h => h hnone, by simp [Node.locked, hsome]⟩
  keep := by
    intro t a n l n' l' hstep hl hl' htaken
    obtain ⟨_, d, hreq, rfl⟩ := threadStep_eq_some.mp hstep
    exact requestStep_keep hreq hl hl' htaken
  outside := by
    intro t a n l n' l' hstep hl hl' htaken
    obtain ⟨_, d, hreq, rfl⟩ := threadStep_eq_some.mp hstep
    have hsame : d = n.disk :=
      requestStep_outside hreq (Bool.eq_false_iff.mpr hl) (Bool.eq_false_iff.mpr hl')
    simpa [Node.locked, hsame] using htaken

/-- Where the process does not serve, no request is past `acquire`. -/
def World.quiet (w : World ι) : Prop :=
  w.shared.service ≠ .serving → ∀ t, (w.locals t).owns = false

/-- The lock is held by one run at most, and is there while it is held. -/
structure World.LockInvariant (w : World ι) : Prop where
  exclusive : Exclusive Node.locked (fun l : Phase => l.owns = true) w
  quiet : w.quiet

theorem boot_lockInvariant (d : Disk) : (boot d : World ι).LockInvariant where
  exclusive := ⟨fun _ _ h => (Bool.false_ne_true h).elim, fun _ h => (Bool.false_ne_true h).elim⟩
  quiet := fun _ _ => rfl

/-- With no owner the lock is held by no run, whatever the file says. -/
theorem exclusive_of_no_owner {w : World ι} (h : ∀ t, (w.locals t).owns = false) :
    Exclusive Node.locked (fun l : Phase => l.owns = true) w where
  unique := fun t _ ht => absurd ht (by simp [h t])
  guarded := fun t ht => absurd ht (by simp [h t])

/-- Step lemma: every step of the system keeps the lock with one run at most. -/
theorem worldStep_lockInvariant [DecidableEq ι] {clock : ι → Instant} {w w' : World ι}
    {label : Label ι} (hinv : w.LockInvariant) (h : worldStep clock w label = some w') :
    w'.LockInvariant := by
  rcases worldStep_cases h with ⟨t, a, rfl, hstep⟩ | ⟨rfl, _, rfl⟩ | ⟨_, rfl, hs, rfl⟩ |
    ⟨now, n, rfl, hn, rfl⟩ | ⟨rfl, hs, rfl⟩
  · -- a request: the protocol, and only a serving process gets here
    refine ⟨(lockProtocol clock).exclusive_advance hstep hinv.exclusive, ?_⟩
    obtain ⟨n, l, hact, rfl⟩ := Config.advance_eq_some.mp hstep
    obtain ⟨_, d, _, rfl⟩ := threadStep_eq_some.mp hact
    exact fun hserving => (hserving rfl).elim
  · -- a crash: the threads are gone
    have hgone : ∀ t, ((w.locals t).kill).owns = false := fun t => Phase.owns_kill _
    exact ⟨exclusive_of_no_owner hgone, fun _ => hgone⟩
  · -- a start: there was no thread
    have hgone := hinv.quiet (by simp [hs])
    exact ⟨exclusive_of_no_owner hgone, fun _ => hgone⟩
  · -- `reconcile` steps while there is no thread
    have hgone : ∀ t, (w.locals t).owns = false := by
      refine hinv.quiet fun hserving => ?_
      rw [reconcileStep, hserving] at hn
      cases hn
    exact ⟨exclusive_of_no_owner hgone, fun _ => hgone⟩
  · have hgone : ∀ t, (w.locals t).owns = false := by
      refine hinv.quiet fun hserving => ?_
      rcases hs with ⟨_, _, _, _, hs⟩ | ⟨_, hs⟩ <;> rw [hserving] at hs <;> cases hs
    exact ⟨exclusive_of_no_owner hgone, fun _ => hgone⟩

/-- Run lemma. -/
theorem lockInvariant_of_reaches [DecidableEq ι] {clock : ι → Instant} {d : Disk}
    {labels : List (Label ι)} {w : World ι} (h : Reaches clock d labels w) :
    w.LockInvariant :=
  invariant_run (fun _ _ _ hinv hstep => worldStep_lockInvariant hinv hstep)
    (boot_lockInvariant d) h

/-! ## Mutual exclusion -/

/-- One run at a time, in every state of every history: at most one is between
its exclusive create and the end of its release, so at most one playbook is
executing; and where a step of a request removes the lock, that request is the
one that holds it and no other does. -/
theorem run_lock_mutual_exclusion [DecidableEq ι] {clock : ι → Instant} {d : Disk}
    {labels : List (Label ι)} {w : World ι} (h : Reaches clock d labels w) :
    (∀ t u, (w.locals t).owns = true → (w.locals u).owns = true → t = u) ∧
    (∀ t u, (w.locals t).runsPlaybook = true → (w.locals u).runsPlaybook = true → t = u) ∧
    (∀ t a w', worldStep clock w (.request t a) = some w' →
      w.shared.disk.lock ≠ none → w'.shared.disk.lock = none →
        (w.locals t).owns = true ∧ ∀ u, (w.locals u).owns = true → u = t) := by
  have hex := (lockInvariant_of_reaches h).exclusive
  refine ⟨hex.unique, ?_, ?_⟩
  · intro t u ht hu
    exact hex.unique t u (Phase.owns_of_runsPlaybook ht) (Phase.owns_of_runsPlaybook hu)
  · intro t a w' hstep hbefore hafter
    exact (lockProtocol clock).freed_by_owner hstep hex hbefore fun hlocked => hlocked hafter

/-- Two requests race for the lock of an empty store; the first is in the window
where the file is there and its id is not. -/
def contended : List (Label Bool) :=
  [.start [], .reconcile default, .request false (.launch default "all: {}\n"),
    .request true (.launch default "all: {}\n"), .request false (.proceed default)]

theorem run_lock_mutual_exclusion_contended :
    ∃ w : World Bool, Reaches (fun _ => default) {} contended w ∧
      (w.locals false).owns = true ∧ w.shared.disk.lock = some "" ∧
      ∀ t u, (w.locals t).owns = true → (w.locals u).owns = true → t = u :=
  have h : Reaches (fun _ : Bool => default) {} contended _ := rfl
  ⟨_, h, rfl, rfl, (run_lock_mutual_exclusion h).1⟩

end SeapathWebui.Runs
