/-
  Runs/Exits.lean --- which exits of a launch, and of the run it starts, free the lock.

  Source: app/runs/service.py `launch` and `_execute`, app/runs/store.py `acquire` and
  `release`.

  Every way out of the two functions is a step after which the request is over.  Only a
  failure inside `create` is followed by a release, and only if the release itself gets to
  its end; `SkipsRelease` lists the failures that are not.  `exits_free_lock_iff` is over
  histories of any number of requests, with crashes and restarts in between.
-/
import SeapathWebui.Runs.History

set_option autoImplicit false

namespace SeapathWebui.Runs

open SeapathWebui.Foundation

variable {ι : Type*}

/-- The request, and the run thread if it started one, are over. -/
def Phase.over : Phase → Bool
  | .abandoned | .ended => true
  | .idle | .opening _ _ | .writingId _ _ | .creating _ _ _ | .saving _ _ _ | .starting _
  | .executing _ _ _ | .appending _ _ _ _ | .releasing _ _ | .unlinking _ _ => false

/-- A failure after the exclusive create that no release follows: of the write of the run
id, of the save that marks the run as running, of `thread.start()`, of the last save, and
of the unlink. -/
def SkipsRelease : Action → Phase → Bool
  | .failWriting _, .writingId _ _ => true
  | .fail, .saving .mark _ _ | .fail, .saving .final _ _ => true
  | .fail, .starting _ => true
  | .fail, .unlinking _ _ => true
  | _, _ => false

/-! ## One exit -/

/-- The ways a request can end. -/
inductive Exit (a : Action) (d d' : Disk) (l : Phase) : Prop
  /-- it never took the lock, and has written nothing -/
  | refused : l.owns = false → d' = d → SkipsRelease a l = false → Exit a d d' l
  | released : l.owns = true → d'.lock = none → SkipsRelease a l = false → Exit a d d' l
  | skipped : l.owns = true → d'.lock ≠ none → SkipsRelease a l = true → Exit a d d' l

/-- Step lemma: a step after which a request is over is one of them. -/
theorem requestStep_exit {now : Instant} {a : Action} {d d' : Disk} {l l' : Phase}
    (hl : l.Holds (newRunId now) d) (h : requestStep (newRunId now) a d l = some (d', l'))
    (hover : l'.over = true) : Exit a d d' l := by
  cases RequestStep.of_eq_some h with
  | refuse | failOpening => exact .refused rfl rfl rfl
  | failWriting => exact .skipped rfl (Option.some_ne_none _) rfl
  | failSave stage op d r =>
      obtain ⟨-, -, -, hlock, -⟩ := hl
      cases stage with
      | create | event => cases hover
      | mark | final => exact .skipped rfl (by simp [hlock]) rfl
  | failStart => exact .skipped rfl (by simp [hl.2.2.2.1]) rfl
  | foreign now cause r hholder =>
      -- the lock names this run, and no other
      have hown : d.lockHolder = some r.id := by
        rw [hl.1]
        exact lockHolder_newRunId hl.2.1
      exact absurd (.inl hown) hholder
  | unlink => exact .released rfl rfl rfl
  | failUnlink => exact .skipped rfl (by simp [hl.2.1]) rfl
  | replace now stage d r => cases stage <;> cases hover
  | create now op d r inventory => cases op <;> cases hover
  | _ => cases hover

/-- A request that is over makes no step. -/
theorem requestStep_of_over {i : RunId} {a : Action} {d : Disk} {l : Phase}
    (h : l.over = true) : requestStep i a d l = none := by
  cases l with
  | abandoned => exact requestStep_abandoned i a d
  | ended =>
      cases a with
      | event line p => cases line <;> rfl
      | _ => rfl
  | _ => cases h

theorem Phase.over_kill {l : Phase} (h : l.over = true) : l.kill.over = true := by
  cases l with
  | abandoned | ended => rfl
  | _ => cases h

/-- Nor does anything else bring it back: there is no thread left of it. -/
theorem over_run [DecidableEq ι] {clock : ι → Instant} {t : ι} {labels : List (Label ι)}
    {w w' : World ι} (hover : (w.locals t).over = true)
    (h : execute (worldStep clock) w labels = some w') : (w'.locals t).over = true := by
  refine invariant_run (I := fun v : World ι => (v.locals t).over = true) ?_ hover h
  intro v label v' hv hstep
  rcases worldStep_cases hstep with ⟨u, a, rfl, hadvance⟩ | ⟨rfl, -, rfl⟩ | ⟨_, rfl, -, rfl⟩ |
    ⟨now, n, rfl, -, rfl⟩ | ⟨rfl, -, rfl⟩
  · obtain ⟨n, l, hact, rfl⟩ := Config.advance_eq_some.mp hadvance
    obtain ⟨-, d, hreq, -⟩ := threadStep_eq_some.mp hact
    have hne : t ≠ u := by
      rintro rfl
      rw [requestStep_of_over hv] at hreq
      cases hreq
    simpa [Function.update_of_ne hne] using hv
  · exact Phase.over_kill hv
  · exact hv
  · exact hv
  · exact hv

/-! ## Every exit of a history -/

/-- If the step ends a request, the lock that the request took is free, and one that it
did not take is as it was; and nothing is left of the request. -/
def ExitFrees [DecidableEq ι] (clock : ι → Instant) (w : World ι) : Label ι → Prop
  | .request t a => ∀ w', worldStep clock w (.request t a) = some w' →
      (w'.locals t).over = true →
        ((w.locals t).owns = true → w'.shared.disk.lock = none) ∧
        ((w.locals t).owns = false → w'.shared.disk = w.shared.disk) ∧
        ∀ more w'', execute (worldStep clock) w' more = some w'' → (w''.locals t).over = true
  | .crash | .start _ | .reconcile _ | .reconcileRaises => True

/-- The step is not a failure that skips the release. -/
def ReleaseFollows (w : World ι) : Label ι → Prop
  | .request t a => SkipsRelease a (w.locals t) = false
  | .crash | .start _ | .reconcile _ | .reconcileRaises => True

/-- A failure that skips the release is an exit. -/
theorem over_of_skipsRelease {i : RunId} {a : Action} {d d' : Disk} {l l' : Phase}
    (hskips : SkipsRelease a l = true) (h : requestStep i a d l = some (d', l')) :
    l'.over = true := by
  cases a <;> cases l <;> simp only [SkipsRelease, Bool.false_eq_true] at hskips
  case fail.saving stage op r =>
    cases stage with
    | create | event => cases hskips
    | mark | final => rw [← (Prod.mk.inj (Option.some.inj h)).2]; rfl
  case failWriting.writingId | fail.starting | fail.unlinking =>
    rw [← (Prod.mk.inj (Option.some.inj h)).2]
    rfl

/-- Step lemma: an exit frees the lock exactly if no release is skipped. -/
theorem exitFrees_iff [DecidableEq ι] {clock : ι → Instant} {w w' : World ι} {label : Label ι}
    (hinv : w.Invariant clock) (h : worldStep clock w label = some w') :
    ExitFrees clock w label ↔ ReleaseFollows w label := by
  cases label with
  | crash | start _ | reconcile _ | reconcileRaises => exact Iff.rfl
  | request t a =>
      obtain ⟨n, l, hact, rfl⟩ := Config.advance_eq_some.mp h
      obtain ⟨-, d, hreq, rfl⟩ := threadStep_eq_some.mp hact
      have hlocal : (Function.update w.locals t l) t = l := Function.update_self t l w.locals
      have hfrees : ExitFrees clock w (.request t a) ↔ (l.over = true →
          ((w.locals t).owns = true → d.lock = none) ∧
          ((w.locals t).owns = false → d = w.shared.disk)) := by
        simp only [ExitFrees, h, Option.some.injEq, forall_eq', hlocal]
        refine forall_congr' fun hover => and_congr_right fun _ => and_iff_left ?_
        exact fun more w'' hmore => over_run (by simpa [hlocal] using hover) hmore
      rw [hfrees, ReleaseFollows]
      cases hover : l.over with
      | false =>
          refine iff_of_true (fun hnot => nomatch hnot) (Bool.eq_false_iff.mpr fun hskips => ?_)
          rw [over_of_skipsRelease hskips hreq] at hover
          cases hover
      | true =>
          rw [forall_prop_of_true rfl]
          rcases requestStep_exit (hinv.requests t) hreq hover with
            ⟨howns, hsame, hkept⟩ | ⟨howns, hfree, hkept⟩ | ⟨howns, hheld, hskips⟩
          · exact iff_of_true ⟨fun h => absurd h (by simp [howns]), fun _ => hsame⟩ hkept
          · exact iff_of_true ⟨fun _ => hfree, fun h => absurd h (by simp [howns])⟩ hkept
          · exact iff_of_false (fun h => hheld (h.1 howns)) (by simp [hskips])

/-- **In a history, every exit frees the lock exactly if no step of it is a failure that
skips the release.** -/
theorem exits_free_lock_iff [DecidableEq ι] {clock : ι → Instant} {labels : List (Label ι)}
    {w : World ι} (h : Reaches clock {} labels w) :
    Along (worldStep clock) (ExitFrees clock) (boot {}) labels ↔
      Along (worldStep clock) ReleaseFollows (boot {}) labels :=
  along_congr (fun _ _ _ hinv hstep => worldStep_invariant hinv hstep)
    (fun _ _ _ hinv hstep => exitFrees_iff hinv hstep) (boot_invariant clock) h

/-- A launch, up to the save that marks its run as running. -/
def marking : List (Label Unit) :=
  [.start [], .reconcile default, .request () (.launch default "all: {}\n")] ++
  List.replicate 9 (.request () (.proceed default))

theorem exits_free_lock_marking :
    ∃ w : World Unit, Reaches (fun _ => default) {} marking w ∧
      (Along (worldStep fun _ => default) (ExitFrees fun _ => default) (boot {}) marking ↔
        Along (worldStep fun _ => default) ReleaseFollows (boot {}) marking) :=
  have h : Reaches (fun _ : Unit => default) {} marking _ := rfl
  ⟨_, h, exits_free_lock_iff h⟩

/-- That save raises: `launch` raises, and the lock of its run stays. -/
theorem mark_failure_keeps_lock :
    ∃ w w' : World Unit, Reaches (fun _ => default) {} marking w ∧
      worldStep (fun _ => default) w (.request () .fail) = some w' ∧
      (w'.locals ()).over = true ∧ w'.shared.disk.lock = some (newRunId default) ∧
      ¬ ExitFrees (fun _ => default) w (.request () .fail) := by
  have h : Reaches (fun _ : Unit => default) {} marking _ := rfl
  refine ⟨_, _, h, rfl, rfl, rfl, fun hfrees => ?_⟩
  have hlock := (hfrees _ rfl rfl).1 rfl
  cases hlock

end SeapathWebui.Runs
