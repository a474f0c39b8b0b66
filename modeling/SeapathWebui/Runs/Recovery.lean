/-
  Runs/Recovery.lean --- when a restart frees the lock.

  `reconcile` unlinks the lock as a side effect of having closed a run.  A lock
  that is there while no record on disk is unfinished is therefore never unlinked,
  and the code has such states: from the exclusive create of `acquire` to the first
  save of the record, from the last save to the unlink of `release`, and from the
  last save of `reconcile` to its own unlink.

  `World.Strands` lists the steps that leave the lock behind in one of them.
  Without such a step every `reconcile` that comes to its end leaves no lock
  (`recoverable_along`); after one the lock is there in every later state
  (`stuck_run`), however often the service restarts.
-/
import Mathlib.Data.Fintype.Basic
import SeapathWebui.Runs.History

set_option autoImplicit false

namespace SeapathWebui.Runs

open SeapathWebui.Foundation

variable {ι : Type*}

/-! ## The steps that strand the lock -/

/-- The request owns the lock, and no record on disk says so. -/
def Phase.bare : Phase → Bool
  | .writingId _ _ | .creating _ _ _ | .saving .create _ _ | .releasing _ _
  | .unlinking _ _ => true
  | _ => false

/-- `reconcile` has closed a run, and the lock is still there. -/
def Service.bare : Service → Bool
  | .reconciling _ (_ :: _) | .unlocking _ => true
  | _ => false

/-- The id cannot be written into the new lock file, or the unlink of `release`
raises. -/
def Action.strands : Action → Phase → Bool
  | .failWriting _, .writingId _ _ => true
  | .fail, .unlinking _ _ => true
  | _, _ => false

/-- The step leaves a lock behind that no unfinished record accounts for, or, for
a start, one whose record `list` misses. -/
def World.Strands (w : World ι) : Label ι → Prop
  | .request t a => a.strands (w.locals t) = true
  | .crash => (∃ t, (w.locals t).bare = true) ∨ w.shared.service.bare = true
  | .start unreadable =>
      ∃ r ∈ RunStore.readable w.shared.disk [], r.unfinished = true ∧
        r ∉ RunStore.list w.shared.disk 1000 unreadable
  | .reconcile _ => False
  | .reconcileRaises => w.shared.service.bare = true

instance [Fintype ι] (w : World ι) : ∀ label : Label ι, Decidable (w.Strands label)
  | .request t a => inferInstanceAs (Decidable (a.strands (w.locals t) = true))
  | .crash => inferInstanceAs
      (Decidable ((∃ t, (w.locals t).bare = true) ∨ w.shared.service.bare = true))
  | .start unreadable => inferInstanceAs
      (Decidable (∃ r ∈ RunStore.readable w.shared.disk [], r.unfinished = true ∧
        r ∉ RunStore.list w.shared.disk 1000 unreadable))
  | .reconcile _ => inferInstanceAs (Decidable False)
  | .reconcileRaises => inferInstanceAs (Decidable (w.shared.service.bare = true))

/-! ## Without them -/

/-- A lock that is there is accounted for: by an unfinished record, by a request
that is going to save one or to unlink, or by a run `reconcile` has closed or is
going to. -/
def World.Recoverable (w : World ι) : Prop :=
  w.shared.disk.lock ≠ none →
    match w.shared.service with
    | .stopped => ∃ i, w.shared.disk.OpenRecord i
    | .serving => (∃ i, w.shared.disk.OpenRecord i) ∨ ∃ t, (w.locals t).bare = true
    | .reconciling todo recovered => recovered ≠ [] ∨ ∃ r ∈ todo, r.unfinished = true
    | .closing _ _ _ _ | .unlocking _ => True

theorem Phase.owns_of_bare {l : Phase} (h : l.bare = true) : l.owns = true := by
  cases l with
  | idle | opening | ended | abandoned => cases h
  | _ => rfl

/-- A request that goes on owning the lock is in a window or has an unfinished
record. -/
theorem requestStep_accounted {i : RunId} {a : Action} {d d' : Disk} {l l' : Phase}
    (hc : d.Consistent) (hl : l.Holds i d) (h : requestStep i a d l = some (d', l'))
    (hs : a.strands l = false) (hl' : l'.owns = true) :
    l'.bare = true ∨ ∃ j, d'.OpenRecord j := by
  have hr := (requestStep_result hc hl h).holds
  cases l' with
  | idle | opening | ended => cases hl'
  | writingId | creating | releasing | unlinking => exact Or.inl rfl
  | starting | executing | appending => exact Or.inr ⟨i, hr.2.2.1⟩
  | saving stage op r =>
      cases stage with
      | create => exact Or.inl rfl
      | mark | event | final => exact Or.inr ⟨i, hr.2.2.1⟩
  | abandoned =>
      -- given up before its end, but not in a window
      generalize hgone : Phase.abandoned = gone at h
      cases RequestStep.of_eq_some h with
      | failWriting | failUnlink => cases hs
      | failSave stage op d r =>
          cases stage with
          | create | event => cases hgone
          | mark | final => exact Or.inr ⟨i, hl.2.2.1⟩
      | failStart => exact Or.inr ⟨i, hl.2.2.1⟩
      | create now op d r inventory => cases op <;> cases hgone
      | replace now stage d r => cases stage <;> cases hgone
      | _ => cases hgone

/-- A request gives up its ownership by unlinking the lock. -/
theorem requestStep_unlocks {now : Instant} {a : Action} {d d' : Disk} {l l' : Phase}
    (hl : l.Holds (newRunId now) d) (h : requestStep (newRunId now) a d l = some (d', l'))
    (howns : l.owns = true) (hl' : l'.owns = false) : d'.lock = none := by
  cases RequestStep.of_eq_some h with
  | unlink => rfl
  | foreign now cause r hholder =>
      -- the holder is the run itself
      obtain ⟨hid, hlock, -⟩ := hl
      exact absurd (Or.inl (hid ▸ lockHolder_newRunId hlock)) hholder
  | launch | refuse | failOpening | acquire => cases howns
  | create now op d r inventory => cases op <;> cases hl'
  | replace now stage d r | failSave stage op d r => cases stage <;> cases hl'
  | _ => cases hl'

/-- Step lemma of a serving process. -/
theorem request_recoverable [DecidableEq ι] {clock : ι → Instant} {w w' : World ι} {t : ι}
    {a : Action} (hinv : w.Invariant clock) (hw : w.Recoverable)
    (hs : ¬ w.Strands (.request t a)) (h : w.advance (threadStep clock) t a = some w') :
    w'.Recoverable := by
  obtain ⟨n, l, hact, rfl⟩ := Config.advance_eq_some.mp h
  obtain ⟨hserving, d, hreq, rfl⟩ := threadStep_eq_some.mp hact
  intro hlocked
  change (∃ i, d.OpenRecord i) ∨ ∃ u, ((Function.update w.locals t l) u).bare = true
  cases hl : l.owns with
  | true =>
      rcases requestStep_accounted hinv.consistent (hinv.requests t) hreq
        (Bool.eq_false_iff.mpr hs) hl with hbare | hopen
      · exact Or.inr ⟨t, by simpa using hbare⟩
      · exact Or.inl hopen
  | false =>
      cases ht : (w.locals t).owns with
      | true => exact (hlocked (requestStep_unlocks (hinv.requests t) hreq ht hl)).elim
      | false =>
          have hsame := requestStep_outside hreq ht hl
          subst hsame
          have haccounted := hw hlocked
          rw [hserving] at haccounted
          rcases haccounted with hopen | ⟨u, hu⟩
          · exact Or.inl hopen
          · have hne : u ≠ t := by
              rintro rfl
              rw [Phase.owns_of_bare hu] at ht
              cases ht
            exact Or.inr ⟨u, by simpa [Function.update_of_ne hne] using hu⟩

/-- Step lemma of `reconcile`. -/
theorem reconcile_recoverable {now : Instant} {w : World ι} {n : Node} (hw : w.Recoverable)
    (h : reconcileStep now w.shared = some n) : World.Recoverable ⟨n, w.locals⟩ := by
  obtain ⟨shared, locals⟩ := w
  intro hlocked
  cases ReconcileStep.of_eq_some h with
  | unlock | close | write => trivial
  | unlink => exact (hlocked rfl).elim
  | replace => exact Or.inl (by simp)
  | serve =>
      rcases hw hlocked with hne | ⟨r, hr, -⟩
      · exact (hne rfl).elim
      · cases hr
  | skip d todo recovered hu =>
      rcases hw hlocked with hne | ⟨s, hs, hsu⟩
      · exact Or.inl hne
      · rcases List.mem_cons.mp hs with rfl | hs
        · rw [hu] at hsu
          cases hsu
        · exact Or.inr ⟨s, hs, hsu⟩

/-- Where `reconcile` is closing a run, that run is unfinished on disk; where it
has listed an unfinished one, too. -/
theorem open_of_stops {clock : ι → Instant} {w : World ι} (hinv : w.Invariant clock)
    (hw : w.Recoverable) (hlocked : w.shared.disk.lock ≠ none)
    (hthreads : ∀ t, (w.locals t).bare = false) (hbare : w.shared.service.bare = false) :
    ∃ i, w.shared.disk.OpenRecord i := by
  have hservice := hinv.service
  have haccounted := hw hlocked
  cases hs : w.shared.service with
  | stopped => simpa only [hs] using haccounted
  | serving =>
      simp only [hs] at haccounted
      rcases haccounted with hopen | ⟨t, ht⟩
      · exact hopen
      · rw [hthreads t] at ht
        cases ht
  | unlocking => simp [hs, Service.bare] at hbare
  | closing op r todo recovered =>
      rw [hs] at hservice
      exact ⟨r.id, hservice.2.1⟩
  | reconciling todo recovered =>
      rw [hs] at hservice
      simp only [hs] at haccounted
      rcases haccounted with hne | ⟨r, hr, hu⟩
      · cases recovered with
        | nil => exact (hne rfl).elim
        | cons => simp [hs, Service.bare] at hbare
      · exact ⟨r.id, r, hservice.1 r hr, hu⟩

/-- Step lemma: a step that does not strand the lock leaves it accounted for. -/
theorem worldStep_recoverable [DecidableEq ι] {clock : ι → Instant} {w w' : World ι}
    {label : Label ι} (hinv : w.Invariant clock) (hw : w.Recoverable)
    (hs : ¬ w.Strands label) (h : worldStep clock w label = some w') : w'.Recoverable := by
  rcases worldStep_cases h with ⟨t, a, rfl, hstep⟩ | ⟨rfl, _, rfl⟩ |
    ⟨unreadable, rfl, hstopped, rfl⟩ | ⟨now, n, rfl, hn, rfl⟩ | ⟨rfl, hraises, rfl⟩
  · exact request_recoverable hinv hw hs hstep
  · intro hlocked
    obtain ⟨hthreads, hbare⟩ := not_or.mp hs
    have hopen := open_of_stops hinv hw hlocked
      (fun t => Bool.eq_false_iff.mpr fun ht => hthreads ⟨t, ht⟩) (Bool.eq_false_iff.mpr hbare)
    exact hopen
  · intro hlocked
    have haccounted := hw hlocked
    simp only [hstopped] at haccounted
    obtain ⟨i, r, hr, hu⟩ := haccounted
    refine Or.inr ⟨r, ?_, hu⟩
    by_contra hmissed
    exact hs ⟨r, RunStore.mem_readable.mpr ⟨i, List.not_mem_nil, hr⟩, hu, hmissed⟩
  · exact reconcile_recoverable hw hn
  · intro hlocked
    have hquiet : ∀ t, (w.locals t).bare = false := by
      have hserving : w.shared.service ≠ .serving := by
        rcases hraises with ⟨_, _, _, _, hr⟩ | ⟨_, hr⟩ <;> rw [hr] <;> exact nofun
      intro t
      refine Bool.eq_false_iff.mpr fun ht => ?_
      have howns := Phase.owns_of_bare ht
      rw [hinv.lock.quiet hserving t] at howns
      cases howns
    have hopen := open_of_stops hinv hw hlocked hquiet (Bool.eq_false_iff.mpr hs)
    exact hopen

/-- Run lemma. -/
theorem recoverable_along [DecidableEq ι] {clock : ι → Instant} {labels : List (Label ι)}
    {w : World ι}
    (hok : Along (worldStep clock) (fun v label => ¬ v.Strands label) (boot {}) labels)
    (h : Reaches clock {} labels w) : w.Invariant clock ∧ w.Recoverable :=
  invariant_along (I := fun v : World ι => v.Invariant clock ∧ v.Recoverable)
    (fun _ _ _ hI hok hstep =>
      ⟨worldStep_invariant hI.1 hstep, worldStep_recoverable hI.1 hI.2 hok hstep⟩)
    ⟨boot_invariant clock, fun hlocked => (hlocked rfl).elim⟩ hok h

/-- The end of `reconcile`, where the lock was accounted for. -/
theorem reconcile_unlocks {now : Instant} {w : World ι} {n : Node} (hw : w.Recoverable)
    (h : reconcileStep now w.shared = some n) (hserving : n.service = .serving) :
    n.disk.lock = none := by
  obtain ⟨shared, locals⟩ := w
  cases ReconcileStep.of_eq_some h with
  | unlock | close | skip | write | replace => cases hserving
  | unlink => rfl
  | serve =>
      by_contra hlocked
      rcases hw hlocked with hne | ⟨r, hr, -⟩
      · exact hne rfl
      · cases hr

/-! ## After one of them -/

/-- The lock is there, no record accounts for it, and nobody is going to unlink
it. -/
structure World.Stuck (w : World ι) : Prop where
  locked : w.shared.disk.lock ≠ none
  noUnfinished : w.shared.disk.NoUnfinished
  abandoned : ∀ t, (w.locals t).owns = true → w.locals t = .abandoned
  service :
    match w.shared.service with
    | .stopped | .serving => True
    | .reconciling _ recovered => recovered = []
    | .closing _ _ _ _ | .unlocking _ => False

/-- Everything that is in the window leaves a store where nothing is unfinished. -/
theorem Phase.Holds.noUnfinished_of_bare {i : RunId} {d : Disk} {l : Phase}
    (hc : d.Consistent) (hl : l.Holds i d) (h : l.bare = true) :
    d.NoUnfinished ∧ d.lock ≠ none := by
  have hnamed : d.lock = some i → d.ClosedRecord i → d.NoUnfinished ∧ d.lock ≠ none := by
    intro hlock hclosed
    refine ⟨hc.noUnfinished hlock hclosed, ?_⟩
    rw [hlock]
    exact Option.some_ne_none i
  cases l with
  | writingId r inventory => exact hl.2.2
  | creating op r inventory => exact hnamed hl.2.2.2.1 hl.2.2.1
  | releasing cause r | unlinking cause r => exact hnamed hl.2.1 hl.2.2
  | saving stage op r =>
      cases stage with
      | create => exact hnamed hl.2.2.2.1 hl.2.2.1
      | mark | event | final => cases h
  | _ => cases h

theorem Service.Holds.noUnfinished_of_bare {d : Disk} {service : Service}
    (hs : service.Holds d) (h : service.bare = true) : d.NoUnfinished ∧ d.lock ≠ none := by
  cases service with
  | unlocking recovered => exact hs
  | reconciling todo recovered =>
      cases recovered with
      | nil => cases h
      | cons r recovered => exact hs.2.2 (List.cons_ne_nil r recovered)
  | _ => cases h

/-- A step of a request that strands the lock abandons the request. -/
theorem requestStep_of_strands {i : RunId} {a : Action} {d d' : Disk} {l l' : Phase}
    (h : requestStep i a d l = some (d', l')) (hs : a.strands l = true) :
    l.bare = true ∧ l' = .abandoned ∧ (∀ j, d'.record j = d.record j) ∧
      (d.lock ≠ none → d'.lock ≠ none) := by
  cases a <;> cases l <;> simp only [Action.strands, Bool.false_eq_true] at hs
  case failWriting.writingId written r inventory =>
    obtain ⟨rfl, rfl⟩ := Prod.mk.inj (Option.some.inj h)
    exact ⟨rfl, rfl, fun _ => rfl, fun _ => Option.some_ne_none written⟩
  case fail.unlinking cause r =>
    obtain ⟨rfl, rfl⟩ := Prod.mk.inj (Option.some.inj h)
    exact ⟨rfl, rfl, fun _ => rfl, id⟩

/-- A stranding step, of any kind but a start that misses the record. -/
theorem stuck_of_strands [DecidableEq ι] {clock : ι → Instant} {w w' : World ι}
    {label : Label ι} (hinv : w.Invariant clock) (hs : w.Strands label)
    (hstart : ∀ unreadable, label ≠ .start unreadable)
    (h : worldStep clock w label = some w') : w'.Stuck := by
  rcases worldStep_cases h with ⟨t, a, rfl, hstep⟩ | ⟨rfl, _, rfl⟩ |
    ⟨unreadable, rfl, _, rfl⟩ | ⟨now, n, rfl, hn, rfl⟩ | ⟨rfl, hraises, rfl⟩
  · obtain ⟨n, l, hact, rfl⟩ := Config.advance_eq_some.mp hstep
    obtain ⟨_, d, hreq, rfl⟩ := threadStep_eq_some.mp hact
    obtain ⟨hbare, rfl, hrec, hlock⟩ := requestStep_of_strands hreq hs
    obtain ⟨hno, hlocked⟩ := (hinv.requests t).noUnfinished_of_bare hinv.consistent hbare
    refine ⟨hlock hlocked, fun j r hr => hno j r (hrec j ▸ hr), ?_, trivial⟩
    intro u hu
    rcases eq_or_ne u t with rfl | hne
    · simp
    · have howns : (w.locals u).owns = true := by simpa [Function.update_of_ne hne] using hu
      exact (hne (hinv.lock.exclusive.unique u t howns (Phase.owns_of_bare hbare))).elim
  · have hno : w.shared.disk.NoUnfinished ∧ w.shared.disk.lock ≠ none := by
      rcases hs with ⟨t, ht⟩ | hs
      · exact (hinv.requests t).noUnfinished_of_bare hinv.consistent ht
      · exact hinv.service.noUnfinished_of_bare hs
    refine ⟨hno.2, hno.1, ?_, trivial⟩
    intro t ht
    simp [Phase.owns_kill] at ht
  · exact (hstart unreadable rfl).elim
  · exact hs.elim
  · obtain ⟨hno, hlocked⟩ := hinv.service.noUnfinished_of_bare hs
    refine ⟨hlocked, hno, ?_, trivial⟩
    intro t ht
    have hserving : w.shared.service ≠ .serving := by
      rcases hraises with ⟨_, _, _, _, hr⟩ | ⟨_, hr⟩ <;> rw [hr] <;> exact nofun
    rw [hinv.lock.quiet hserving t] at ht
    cases ht

/-- Where no record before it is unfinished and it has closed none, `reconcile` leaves the
store alone, and goes on so or serves. -/
theorem reconcileStep_of_closed {now : Instant} {d : Disk} {todo : List RunRecord} {n : Node}
    (htodo : ∀ r ∈ todo, r.unfinished = false)
    (h : reconcileStep now ⟨d, .reconciling todo []⟩ = some n) :
    n = ⟨d, .serving⟩ ∨
      ∃ rest, (∀ r ∈ rest, r.unfinished = false) ∧ n = ⟨d, .reconciling rest []⟩ := by
  cases todo with
  | nil => exact .inl (Option.some.inj h).symm
  | cons r todo =>
      have hu := htodo r List.mem_cons_self
      simp only [reconcileStep, hu, Bool.false_eq_true, if_false] at h
      exact .inr ⟨todo, fun s hs => htodo s (List.mem_cons_of_mem r hs), (Option.some.inj h).symm⟩

/-- Step lemma: nothing gets the node unstuck. -/
theorem worldStep_stuck [DecidableEq ι] {clock : ι → Instant} {w w' : World ι}
    {label : Label ι} (hinv : w.Invariant clock) (hw : w.Stuck)
    (h : worldStep clock w label = some w') : w'.Stuck := by
  rcases worldStep_cases h with ⟨t, a, rfl, hstep⟩ | ⟨rfl, _, rfl⟩ |
    ⟨unreadable, rfl, _, rfl⟩ | ⟨now, n, rfl, hn, rfl⟩ | ⟨rfl, hraises, rfl⟩
  · obtain ⟨n, l, hact, rfl⟩ := Config.advance_eq_some.mp hstep
    obtain ⟨_, d, hreq, rfl⟩ := threadStep_eq_some.mp hact
    have ht : (w.locals t).owns = false := by
      cases ht : (w.locals t).owns with
      | false => rfl
      | true =>
          rw [hw.abandoned t ht, requestStep_abandoned] at hreq
          cases hreq
    have hl : l.owns = false := by
      cases hl : l.owns with
      | false => rfl
      | true => exact (hw.locked (requestStep_enter hreq ht hl).1).elim
    have hsame := requestStep_outside hreq ht hl
    subst hsame
    refine ⟨hw.locked, hw.noUnfinished, ?_, trivial⟩
    intro u hu
    rcases eq_or_ne u t with rfl | hne
    · simp only [Function.update_self, hl, Bool.false_eq_true] at hu
    · simp only [Function.update_of_ne hne] at hu ⊢
      exact hw.abandoned u hu
  · refine ⟨hw.locked, hw.noUnfinished, ?_, trivial⟩
    intro t ht
    simp [Phase.owns_kill] at ht
  · exact ⟨hw.locked, hw.noUnfinished, hw.abandoned, rfl⟩
  · obtain ⟨⟨d, service⟩, locals⟩ := w
    have hservice := hw.service
    have htodo := hinv.service
    cases service with
    | stopped | serving => cases hn
    | closing | unlocking => exact hservice.elim
    | reconciling todo recovered =>
        obtain rfl : recovered = [] := hservice
        have hclosed : ∀ r ∈ todo, r.unfinished = false :=
          fun r hr => hw.noUnfinished r.id r (htodo.1 r hr)
        rcases reconcileStep_of_closed hclosed hn with rfl | ⟨rest, -, rfl⟩
        · exact ⟨hw.locked, hw.noUnfinished, hw.abandoned, trivial⟩
        · exact ⟨hw.locked, hw.noUnfinished, hw.abandoned, rfl⟩
  · have hservice := hw.service
    rcases hraises with ⟨_, _, _, _, hr⟩ | ⟨_, hr⟩ <;> (rw [hr] at hservice; exact hservice.elim)

/-- Run lemma: the lock stays for ever. -/
theorem stuck_run [DecidableEq ι] {clock : ι → Instant} {labels : List (Label ι)}
    {w w' : World ι} (hinv : w.Invariant clock) (hw : w.Stuck)
    (h : execute (worldStep clock) w labels = some w') : w'.Stuck :=
  (invariant_run (I := fun v : World ι => v.Invariant clock ∧ v.Stuck)
    (fun _ _ _ hI hstep => ⟨worldStep_invariant hI.1 hstep, worldStep_stuck hI.1 hI.2 hstep⟩)
    ⟨hinv, hw⟩ h).2

/-- `reconcile` has not seen the one record that is unfinished. -/
structure World.Missed (w : World ι) : Prop where
  locked : w.shared.disk.lock ≠ none
  service :
    match w.shared.service with
    | .serving => True
    | .reconciling todo recovered => (∀ r ∈ todo, r.unfinished = false) ∧ recovered = []
    | .stopped | .closing _ _ _ _ | .unlocking _ => False

/-- A start that misses the record. -/
theorem missed_of_strands {clock : ι → Instant} {w : World ι} {unreadable : List RunId}
    (hinv : w.Invariant clock) (hs : w.Strands (.start unreadable)) :
    World.Missed ⟨{ w.shared with
      service := .reconciling (RunStore.list w.shared.disk 1000 unreadable) [] }, w.locals⟩ := by
  obtain ⟨r, hr, hu, hmissed⟩ := hs
  obtain ⟨i, -, hr⟩ := RunStore.mem_readable.mp hr
  have hc := hinv.consistent
  have hlock := hc.locked i r hr hu
  refine ⟨?_, ?_, rfl⟩
  · rw [hlock]
    exact Option.some_ne_none i
  · intro s hs
    have hsrec := (start_holds hc).1 s hs
    cases hsu : s.unfinished with
    | false => rfl
    | true =>
        -- the lock names one run only
        have hi : i = s.id := Option.some.inj (hlock.symm.trans (hc.locked s.id s hsrec hsu))
        rw [← hi, hr] at hsrec
        exact (hmissed (Option.some.inj hsrec ▸ hs)).elim

theorem reconcileStep_missed {now : Instant} {w : World ι} {n : Node} (hw : w.Missed)
    (h : reconcileStep now w.shared = some n) : World.Missed ⟨n, w.locals⟩ := by
  obtain ⟨⟨d, service⟩, locals⟩ := w
  have hservice := hw.service
  cases service with
  | stopped | serving => cases h
  | closing | unlocking => exact hservice.elim
  | reconciling todo recovered =>
      obtain ⟨htodo, rfl⟩ := hservice
      rcases reconcileStep_of_closed htodo h with rfl | ⟨rest, hrest, rfl⟩
      · exact ⟨hw.locked, trivial⟩
      · exact ⟨hw.locked, hrest, rfl⟩

/-- Run lemma: this `reconcile` leaves the lock. -/
theorem missed_run [DecidableEq ι] {clock : ι → Instant} {nows : List Instant} :
    ∀ {w w' : World ι}, w.Missed →
      execute (worldStep clock) w (nows.map Label.reconcile) = some w' → w'.Missed := by
  induction nows with
  | nil =>
      intro w w' hw h
      obtain rfl := Option.some.inj h
      exact hw
  | cons now nows ih =>
      intro w w' hw h
      obtain ⟨v, hstep, hrest⟩ := execute_cons_eq_some.mp h
      rcases worldStep_cases hstep with ⟨_, _, hlabel, _⟩ | ⟨hlabel, _⟩ | ⟨_, hlabel, _⟩ |
        ⟨_, n, _, hn, rfl⟩ | ⟨hlabel, _⟩
      · cases hlabel
      · cases hlabel
      · cases hlabel
      · exact ih (reconcileStep_missed hw hn) hrest
      · cases hlabel

/-! ## A restart -/

/-- While no step strands the lock, a `reconcile` that comes to its end leaves no
lock.  The condition leaves out no more than it has to: after a stranding step the
lock is there in every later state, and after a start that misses the unfinished
record it is there when its `reconcile` ends. -/
theorem restart_frees_lock_unless_stranded [DecidableEq ι] {clock : ι → Instant}
    {labels : List (Label ι)} {w : World ι} (h : Reaches clock {} labels w) :
    (Along (worldStep clock) (fun v label => ¬ v.Strands label) (boot {}) labels →
      ∀ now w', worldStep clock w (.reconcile now) = some w' → w'.shared.service = .serving →
        w'.shared.disk.lock = none) ∧
    (∀ label w', w.Strands label → (∀ unreadable, label ≠ .start unreadable) →
      worldStep clock w label = some w' →
        ∀ more v, execute (worldStep clock) w' more = some v → v.shared.disk.lock ≠ none) ∧
    (∀ unreadable w', w.Strands (.start unreadable) →
      worldStep clock w (.start unreadable) = some w' →
        ∀ (nows : List Instant) v,
          execute (worldStep clock) w' (nows.map Label.reconcile) = some v →
            v.shared.disk.lock ≠ none) := by
  have hinv := invariant_of_reaches h
  refine ⟨?_, ?_, ?_⟩
  · intro hok now w' hstep hserving
    rcases worldStep_cases hstep with ⟨_, _, hlabel, _⟩ | ⟨hlabel, _⟩ | ⟨_, hlabel, _⟩ |
      ⟨_, n, _, hn, rfl⟩ | ⟨hlabel, _⟩
    · cases hlabel
    · cases hlabel
    · cases hlabel
    · exact reconcile_unlocks (recoverable_along hok h).2 hn hserving
    · cases hlabel
  · intro label w' hs hstart hstep more v hmore
    have hstuck := stuck_of_strands hinv hs hstart hstep
    exact (stuck_run (worldStep_invariant hinv hstep) hstuck hmore).locked
  · intro unreadable w' hs hstep nows v hrun
    have hstopped : w.shared.service = .stopped := by
      by_contra hne
      simp [worldStep, hne] at hstep
    simp only [worldStep, hstopped, if_true, Option.some.injEq] at hstep
    subst hstep
    exact (missed_run (missed_of_strands hinv hs) hrun).locked

/-- A run is launched, the process dies while the playbook executes, and it starts
again. -/
def diesWhileRunning : List (Label Bool) :=
  [.start [], .reconcile default, .request false (.launch default "all: {}\n")] ++
  List.replicate 12 (.request false (.proceed default)) ++
  [.crash, .start [], .reconcile default, .reconcile default, .reconcile default,
    .reconcile default]

theorem restart_frees_lock_unless_stranded_dies :
    ∃ w w' : World Bool, Reaches (fun _ => default) {} diesWhileRunning w ∧
      w.shared.disk.lock ≠ none ∧
      worldStep (fun _ => default) w (.reconcile default) = some w' ∧
      w'.shared.disk.lock = none := by
  have h : Reaches (fun _ : Bool => default) {} diesWhileRunning _ := rfl
  refine ⟨_, _, h, ?_, rfl, ?_⟩
  · exact nofun
  · exact (restart_frees_lock_unless_stranded h).1 (by decide) default _ rfl rfl

/-- The process dies between the exclusive create and the write of the id. -/
def diesWhileAcquiring : List (Label Bool) :=
  [.start [], .reconcile default, .request false (.launch default "all: {}\n"),
    .request false (.proceed default), .crash, .start []]

/-- A restart does not always free the lock. -/
theorem restart_can_leave_lock :
    ¬ ∀ (labels : List (Label Bool)) (w w' : World Bool) (now : Instant),
      Reaches (fun _ => default) {} labels w →
        worldStep (fun _ => default) w (.reconcile now) = some w' →
          w'.shared.service = .serving → w'.shared.disk.lock = none := by
  intro h
  have hreach : Reaches (fun _ : Bool => default) {} diesWhileAcquiring _ := rfl
  have hfree := h diesWhileAcquiring _ _ default hreach rfl rfl
  cases hfree

end SeapathWebui.Runs
