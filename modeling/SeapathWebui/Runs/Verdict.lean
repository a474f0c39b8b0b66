/-
  Runs/Verdict.lean --- the end of the event stream.

  Source: `stream` of app/api/v1/runs.py, against `launch` and `_execute` of
  app/runs/service.py.

  A turn of the client's loop looks at two files: it reads the events, and then it loads
  the record.  If the record is finished it sends the state of the run, and ends.  The
  request and the run thread it starts are those of Runs/Lifecycle.lean, one file
  operation at a time, and any number of their steps may lie between the two looks.

  The run appends its last events and saves its final record in this order, so a loop
  that loaded the record first would have them all.  This one reads first.
-/
import SeapathWebui.Runs.EventStream
import SeapathWebui.Runs.History

set_option autoImplicit false

namespace SeapathWebui.Runs

open SeapathWebui.Foundation SeapathWebui.Foundation.Text

variable {E : Type*}

/-! ## The file of the events -/

namespace Disk

/-- `events.jsonl` of a run. -/
def eventsFile (d : Disk) (i : RunId) : Option String :=
  (d.directories.get? i).bind (·.events)

variable (d : Disk) (i j : RunId)

theorem eventsFile_change (f : RunDirectory → RunDirectory) : (d.change i f).eventsFile j =
    if i = j then (d.directories.get? j).bind (fun dir => (f dir).events)
    else d.eventsFile j := by
  unfold eventsFile change
  rw [Dict.get?_modify]
  by_cases h : i = j
  · cases hd : d.directories.get? j <;> simp [h]
  · simp [h]

/-- A change that keeps the text of the file, absent or empty being the same. -/
theorem eventsFile_change_of_keeps {f : RunDirectory → RunDirectory}
    (h : ∀ dir, (f dir).events.getD "" = dir.events.getD "") :
    ((d.change i f).eventsFile j).getD "" = (d.eventsFile j).getD "" := by
  rw [eventsFile_change]
  by_cases hij : i = j
  · rw [if_pos hij, eventsFile]
    cases d.directories.get? j with
    | none => rfl
    | some dir => exact h dir
  · rw [if_neg hij]

theorem eventsFile_makeDirectory :
    ((d.makeDirectory i).eventsFile j).getD "" = (d.eventsFile j).getD "" := by
  unfold makeDirectory
  split
  · rfl
  · rename_i h
    unfold eventsFile
    by_cases hij : i = j
    · have hnone : d.directories.get? i = none := by
        simpa [Dict.contains] using h
      subst hij
      simp [hnone]
    · simp [Dict.get?_set_of_ne _ _ hij]

theorem eventsFile_replaceRecord :
    ((d.replaceRecord i).eventsFile j).getD "" = (d.eventsFile j).getD "" :=
  eventsFile_change_of_keeps d i j fun dir => by cases h : dir.temporary <;> rfl

theorem eventsFile_appendEvent {d : Disk} {i : RunId} (h : d.hasDirectory i) (line : String) :
    ((d.appendEvent i line).eventsFile i).getD "" =
      (d.eventsFile i).getD "" ++ (line ++ "\n") := by
  obtain ⟨dir, hdir⟩ := Option.isSome_iff_exists.mp h
  rw [appendEvent, eventsFile_change, if_pos rfl, eventsFile, hdir]
  exact String.append_assoc

end Disk

theorem MinorWrite.eventsFile {d d' : Disk} (h : MinorWrite d d') (j : RunId) :
    (d'.eventsFile j).getD "" = (d.eventsFile j).getD "" := by
  cases h with
  | none | lock text => rfl
  | create op r inventory =>
      cases op with
      | readInventory => rfl
      | makeDirectory => exact d.eventsFile_makeDirectory r.id j
      | writeInventory => exact d.eventsFile_change_of_keeps r.id j fun _ => rfl
      | touchEvents => exact d.eventsFile_change_of_keeps r.id j fun _ => rfl
      | touchLog => exact d.eventsFile_change_of_keeps r.id j fun _ => rfl
  | temporary r => exact d.eventsFile_change_of_keeps r.id j fun _ => rfl
  | log i text => exact d.eventsFile_change_of_keeps i j fun _ => rfl

/-- The only step of a request that writes an event is the one of `append_event`. -/
theorem requestStep_events {i : RunId} {a : Action} {d d' : Disk} {l l' : Phase}
    (h : requestStep i a d l = some (d', l')) :
    (∀ j, (d'.eventsFile j).getD "" = (d.eventsFile j).getD "") ∨
    ∃ line r p assigned, l = .appending line r p assigned ∧ d' = d.appendEvent r.id line := by
  rcases requestStep_writes h with hminor | ⟨now, stage, r, -, rfl, -⟩ | happend
  · exact .inl hminor.eventsFile
  · exact .inl (d.eventsFile_replaceRecord r.id)
  · exact .inr happend

/-- A request comes to append a line where the adapter reported the event. -/
theorem requestStep_appending {i : RunId} {a : Action} {d d' : Disk} {l : Phase}
    {line : String} {r : RunRecord} {p : RunProgress} {assigned : Bool}
    (h : requestStep i a d l = some (d', .appending line r p assigned)) :
    a = .event (some line) p := by
  generalize happending : Phase.appending line r p assigned = l' at h
  cases RequestStep.of_eq_some h with
  | event text progress d record before live =>
      injection happending with hline _ hp _
      rw [hline, hp]
  | create now op d record inventory => cases op <;> cases happending
  | replace now stage d record | failSave stage op d record =>
      cases stage <;> cases happending
  | _ => cases happending

/-! ## The loop and the run -/

/-- What the loop does next. -/
inductive Look
  /-- read the events -/
  | events
  /-- load the record -/
  | record
  /-- nothing: it has ended -/
  | ended
  deriving DecidableEq

/-- The store, the request, and a client's loop. -/
structure Watch (E : Type*) where
  disk : Disk
  phase : Phase
  stream : Stream E
  look : Look := .events
  /-- the state message, once it is sent -/
  verdict : Option Final := none
  /-- the file as the last read saw it; the loop does not keep it -/
  seen : Option String := none

/-- A step of the request or its run, or one of the loop. -/
inductive WatchStep
  | run (a : Action)
  /-- the inner loop, over the file as it is -/
  | read
  /-- the record is loaded; `disconnected` is the answer of the client's connection, asked
  only while the run goes on -/
  | load (disconnected : Bool)

/-- The lines that the adapter's events make are texts of events. -/
def Action.reports (json : Json E) : Action → Bool
  | .event (some line) _ => (json.loads line).any fun e => json.dumps e = line
  | _ => true

/-- The loop, with the record it has loaded. -/
def Watch.judge (s : Watch E) (record : Option RunRecord) (disconnected : Bool) : Watch E :=
  match record with
  | some r =>
      if r.finished then { s with look := .ended, verdict := some (final r) }
      else { s with look := if disconnected then .ended else .events }
  | none => { s with look := if disconnected then .ended else .events }

/-- One step. -/
def watchStep (json : Json E) (i : RunId) (s : Watch E) :
    WatchStep → Option (Watch E)
  | .run a =>
      if a.reports json then
        (requestStep i a s.disk s.phase).map fun p => { s with disk := p.1, phase := p.2 }
      else none
  | .read =>
      if s.look = .events then
        some { s with
          stream := s.stream.poll json (s.disk.eventsFile i)
          look := .record
          seen := s.disk.eventsFile i }
      else none
  | .load disconnected =>
      if s.look = .record then some (s.judge (RunStore.load s.disk i) disconnected) else none

/-- The request has not been received yet; a client asks for the events from `offset`. -/
def Watch.start (d : Disk) (offset : Nat) : Watch E :=
  { disk := d, phase := .idle, stream := { index := offset } }

/-- Everything that was sent. -/
def Watch.sent (s : Watch E) : List (Message E) :=
  s.stream.sent ++ (s.verdict.map .state).toList

/-- The events of the run so far. -/
def Watch.eventsOf (json : Json E) (i : RunId) (s : Watch E) : List E :=
  RunStore.events json (s.disk.eventsFile i) 0

/-- When the state of the run has been sent, every event from the offset on has been sent
before it. -/
def Watch.Complete (json : Json E) (i : RunId) (offset : Nat) (s : Watch E) : Prop :=
  ∀ verdict, s.verdict = some verdict →
    s.sent = (numbered (s.eventsOf json i)).drop offset ++ [.state verdict]

/-- No event from the offset on has been appended since the last read. -/
def Watch.UpToDate (json : Json E) (i : RunId) (offset : Nat) (s : Watch E) : Prop :=
  (s.eventsOf json i).length ≤ max offset (RunStore.events json s.seen 0).length

/-- The load that finds the run finished comes before any event from the offset on is
appended that the read before it did not see. -/
def Undisturbed (json : Json E) (i : RunId) (offset : Nat) (s : Watch E) : WatchStep → Prop
  | .load _ =>
      s.look = .record → ∀ r, RunStore.load s.disk i = some r → r.finished = true →
        s.UpToDate json i offset
  | _ => True

/-! ## What holds in every run -/

variable {json : Json E} {i : RunId} {offset : Nat}

/-- The loop has sent the events that the last read saw, those before the offset
excepted. -/
structure Watch.Invariant (json : Json E) (i : RunId) (offset : Nat) (s : Watch E) : Prop where
  consistent : s.disk.Consistent
  holds : s.phase.Holds i s.disk
  fresh : s.phase.unsaved = true → s.disk.record i = none
  line : ∀ line r p assigned, s.phase = .appending line r p assigned →
    ∃ e, json.dumps e = line
  stream : ∃ (written : List E) (n : Nat),
    (s.disk.eventsFile i).getD "" = eventsText json written ∧ n ≤ written.length ∧
      RunStore.events json s.seen 0 = written.take n ∧
      s.stream = ⟨max offset n, ((numbered written).take (max offset n)).drop offset⟩
  closed : s.verdict ≠ none →
    s.look = .ended ∧ ∃ r, RunStore.load s.disk i = some r ∧ r.finished = true

/-- Absent or empty, the file has no event. -/
theorem events_getD (json : Json E) (file : Option String) (offset : Nat) :
    RunStore.events json file offset = RunStore.events json (some (file.getD "")) offset := by
  cases file with
  | none => rfl
  | some text => rfl

theorem events_eventsText (hjson : json.Faithful) {file : Option String} {written : List E}
    (hfile : file.getD "" = eventsText json written) (offset : Nat) :
    RunStore.events json file offset = written.drop offset := by
  have hall : (file.getD "").toList <+: (eventsText json written).toList := by
    rw [hfile]
  obtain ⟨k, hk, hevents, hwhole⟩ := events_of_isPrefix hjson hall
  have hkeep : written.length ≤ k := by
    refine hwhole _ le_rfl ?_
    rw [hfile, List.take_length]
  rw [events_getD, hevents, List.take_of_length_le hkeep]

theorem start_watchInvariant {d : Disk} (hd : d.Consistent) (hfresh : d.record i = none)
    (hfile : (d.eventsFile i).getD "" = "") :
    (Watch.start d offset : Watch E).Invariant json i offset where
  consistent := hd
  holds := trivial
  fresh _ := hfresh
  line := by
    intro line r p assigned h
    cases h
  stream := by
    refine ⟨[], 0, hfile, le_rfl, rfl, ?_⟩
    simp [Watch.start, numbered]
  closed h := absurd rfl h

theorem watchStep_cases {s t : Watch E} {a : WatchStep} (h : watchStep json i s a = some t) :
    (∃ action d l, a = .run action ∧ action.reports json = true ∧
      requestStep i action s.disk s.phase = some (d, l) ∧
      t = { s with disk := d, phase := l }) ∨
    (a = .read ∧ s.look = .events ∧ t = { s with
      stream := s.stream.poll json (s.disk.eventsFile i)
      look := .record
      seen := s.disk.eventsFile i }) ∨
    (∃ disconnected, a = .load disconnected ∧ s.look = .record ∧
      t = s.judge (RunStore.load s.disk i) disconnected) := by
  cases a with
  | run action =>
      simp only [watchStep] at h
      split at h
      · rename_i hreports
        obtain ⟨⟨d, l⟩, hstep, rfl⟩ := Option.map_eq_some_iff.mp h
        exact .inl ⟨action, d, l, rfl, hreports, hstep, rfl⟩
      · cases h
  | read =>
      simp only [watchStep] at h
      split at h
      · rename_i hlook
        exact .inr (.inl ⟨rfl, hlook, (Option.some.inj h).symm⟩)
      · cases h
  | load disconnected =>
      simp only [watchStep] at h
      split at h
      · rename_i hlook
        exact .inr (.inr ⟨disconnected, rfl, hlook, (Option.some.inj h).symm⟩)
      · cases h

/-- While a line may yet be appended, the record is not finished. -/
theorem requestStep_keepsEvents {a : Action} {d d' : Disk} {l l' : Phase} {r : RunRecord}
    (hl : l.Holds i d) (hr : d.record i = some r) (hfin : r.finished = true)
    (h : requestStep i a d l = some (d', l')) :
    (d'.eventsFile i).getD "" = (d.eventsFile i).getD "" := by
  rcases requestStep_events h with hsame | ⟨line, r', p, assigned, rfl, rfl⟩
  · exact hsame i
  · obtain ⟨-, -, hopen, -⟩ := hl
    rw [RunRecord.finished_eq_not_unfinished, Disk.OpenRecord.unfinished hopen hr] at hfin
    cases hfin

/-- Step lemma, for the request and the run. -/
theorem run_invariant {s : Watch E} {action : Action} {d : Disk} {l : Phase}
    (hs : s.Invariant json i offset) (hreports : action.reports json = true)
    (h : requestStep i action s.disk s.phase = some (d, l)) :
    ({ s with disk := d, phase := l } : Watch E).Invariant json i offset where
  consistent := (requestStep_result hs.consistent hs.holds h).consistent
  holds := (requestStep_result hs.consistent hs.holds h).holds
  fresh := requestStep_fresh hs.fresh h
  line := by
    rintro line r p assigned rfl
    obtain rfl := requestStep_appending h
    rw [Action.reports, Option.any_eq_true] at hreports
    obtain ⟨e, -, hdumps⟩ := hreports
    exact ⟨e, of_decide_eq_true hdumps⟩
  stream := by
    obtain ⟨written, n, hfile, hn, hseen, hstream⟩ := hs.stream
    rcases requestStep_events h with hsame | ⟨line, r, p, assigned, hphase, rfl⟩
    · exact ⟨written, n, (hsame i).trans hfile, hn, hseen, hstream⟩
    · have hholds := hs.holds
      rw [hphase] at hholds
      obtain ⟨rfl, -, -, -, hdirectory⟩ := hholds
      obtain ⟨e, rfl⟩ := hs.line line r p assigned hphase
      refine ⟨written ++ [e], n, ?_, ?_, ?_, ?_⟩
      · rw [Disk.eventsFile_appendEvent hdirectory, hfile, eventsText_concat]
      · rw [List.length_append]
        exact Nat.le_add_right_of_le hn
      · rw [List.take_append_of_le_length hn]
        exact hseen
      · have hindex : max offset n ≤ written.length ∨ max offset n = offset := by omega
        rw [numbered_append hindex]
        exact hstream
  closed := by
    intro hverdict
    obtain ⟨hlook, r, hr, hfin⟩ := hs.closed hverdict
    have hclosed : r.unfinished = false := by
      rw [RunRecord.finished_eq_not_unfinished] at hfin
      simpa using hfin
    exact ⟨hlook, r, requestStep_keepsFinished hs.holds hs.fresh h i r hr hclosed, hfin⟩

/-- Step lemma, for the inner loop. -/
theorem read_invariant (hjson : json.Faithful) {s : Watch E} (hs : s.Invariant json i offset)
    (hlook : s.look = .events) :
    ({ s with
      stream := s.stream.poll json (s.disk.eventsFile i)
      look := .record
      seen := s.disk.eventsFile i } : Watch E).Invariant json i offset where
  consistent := hs.consistent
  holds := hs.holds
  fresh := hs.fresh
  line := hs.line
  stream := by
    obtain ⟨written, n, hfile, hn, -, hstream⟩ := hs.stream
    refine ⟨written, written.length, hfile, le_rfl, ?_, ?_⟩
    · rw [List.take_length]
      exact events_eventsText hjson hfile 0
    · have hevents : RunStore.events json (s.disk.eventsFile i) s.stream.index =
          (written.take written.length).drop s.stream.index := by
        rw [List.take_length, events_eventsText hjson hfile]
      have hindex : s.stream.index = max offset n := by rw [hstream]
      have hsent : s.stream.sent = ((numbered written).take s.stream.index).drop offset := by
        rw [hindex, hstream]
      have hmax : max s.stream.index written.length = max offset written.length := by omega
      change s.stream.poll json (s.disk.eventsFile i) = _
      rw [poll_eq hevents le_rfl hsent (by omega), hmax]
  closed := by
    intro hverdict
    obtain ⟨hended, -⟩ := hs.closed hverdict
    rw [hlook] at hended
    cases hended

/-- Step lemma, for the load. -/
theorem judge_invariant {s : Watch E} (hs : s.Invariant json i offset) (hlook : s.look = .record)
    (disconnected : Bool) :
    (s.judge (RunStore.load s.disk i) disconnected).Invariant json i offset := by
  have hnone : s.verdict = none := by
    by_contra hverdict
    obtain ⟨hended, -⟩ := hs.closed hverdict
    rw [hlook] at hended
    cases hended
  have hgoesOn : ∀ look, ({ s with look := look } : Watch E).Invariant json i offset :=
    fun look =>
      { consistent := hs.consistent
        holds := hs.holds
        fresh := hs.fresh
        line := hs.line
        stream := hs.stream
        closed := fun hverdict => absurd hnone hverdict }
  unfold Watch.judge
  split
  · rename_i r hr
    split
    · rename_i hfin
      exact
        { consistent := hs.consistent
          holds := hs.holds
          fresh := hs.fresh
          line := hs.line
          stream := hs.stream
          closed := fun _ => ⟨rfl, r, hr, hfin⟩ }
    · exact hgoesOn _
  · exact hgoesOn _

theorem watchStep_invariant (hjson : json.Faithful) {s t : Watch E} {a : WatchStep}
    (hs : s.Invariant json i offset) (h : watchStep json i s a = some t) :
    t.Invariant json i offset := by
  rcases watchStep_cases h with ⟨action, d, l, -, hreports, hstep, rfl⟩ | ⟨-, hlook, rfl⟩ |
    ⟨disconnected, -, hlook, rfl⟩
  · exact run_invariant hs hreports hstep
  · exact read_invariant hjson hs hlook
  · exact judge_invariant hs hlook disconnected

/-! ## When the verdict comes after everything else -/

/-- The loop sends up to what the last read saw, so it has sent everything exactly if
that was everything. -/
theorem complete_iff (hjson : json.Faithful) {s : Watch E} (hs : s.Invariant json i offset) :
    s.Complete json i offset ↔ (s.verdict ≠ none → s.UpToDate json i offset) := by
  obtain ⟨written, n, hfile, hn, hseen, hstream⟩ := hs.stream
  have hevents : s.eventsOf json i = written := events_eventsText hjson hfile 0
  have hupToDate : s.UpToDate json i offset ↔ written.length ≤ max offset n := by
    rw [Watch.UpToDate, hevents, hseen, List.length_take, Nat.min_eq_left hn]
  have hall : ((numbered written).take (max offset n)).drop offset =
      (numbered written).drop offset ↔ written.length ≤ max offset n := by
    have hlength : (numbered written).length = written.length := length_numberedFrom 0 written
    constructor
    · intro heq
      have hsame := congrArg List.length heq
      rw [List.length_drop, List.length_drop, List.length_take, hlength] at hsame
      omega
    · intro hle
      rw [List.take_of_length_le (hlength.trans_le hle)]
  unfold Watch.Complete Watch.sent
  rw [hevents, hupToDate, hstream, ← hall]
  cases hverdict : s.verdict with
  | none => simp
  | some verdict => simp

/-- What a step does to a verdict that has all events before it. -/
theorem upToDate_step {s t : Watch E} {a : WatchStep} (hs : s.Invariant json i offset)
    (h : watchStep json i s a = some t) :
    (t.verdict ≠ none → t.UpToDate json i offset) ↔
      (s.verdict ≠ none → s.UpToDate json i offset) ∧ Undisturbed json i offset s a := by
  have hopen : s.look ≠ .ended → s.verdict = none := by
    intro hlook
    by_contra hverdict
    exact hlook (hs.closed hverdict).1
  rcases watchStep_cases h with ⟨action, d, l, rfl, -, hstep, rfl⟩ | ⟨rfl, hlook, rfl⟩ |
    ⟨disconnected, rfl, hlook, rfl⟩
  · rw [and_iff_left (show Undisturbed json i offset s (.run action) from trivial)]
    refine forall_congr' fun hverdict => ?_
    obtain ⟨-, r, hr, hfin⟩ := hs.closed hverdict
    have hkept := requestStep_keepsEvents hs.holds hr hfin hstep
    unfold Watch.UpToDate Watch.eventsOf
    rw [events_getD, events_getD json (s.disk.eventsFile i)]
    exact iff_of_eq (by rw [hkept])
  · have hnone := hopen (by rw [hlook]; decide)
    exact iff_of_true (fun hverdict => absurd hnone hverdict)
      ⟨fun hverdict => absurd hnone hverdict, trivial⟩
  · have hnone := hopen (by rw [hlook]; decide)
    have hundisturbed : Undisturbed json i offset s (.load disconnected) ↔
        ∀ r, RunStore.load s.disk i = some r → r.finished = true → s.UpToDate json i offset :=
      forall_prop_of_true hlook
    rw [hundisturbed, and_iff_right (fun hverdict => absurd hnone hverdict)]
    unfold Watch.judge
    cases hr : RunStore.load s.disk i with
    | none => exact iff_of_true (fun hverdict => absurd hnone hverdict) (fun r h => nomatch h)
    | some r =>
        by_cases hfin : r.finished = true
        · simp only [hfin, if_true]
          constructor
          · rintro hupToDate r' - -
            exact hupToDate (by simp)
          · exact fun hupToDate _ => hupToDate r rfl hfin
        · simp only [hfin]
          refine iff_of_true (fun hverdict => absurd hnone hverdict) fun r' hr' hfin' => ?_
          exact absurd (Option.some.inj hr' ▸ hfin') hfin

/-- **The verdict comes after everything else exactly if the run does not append its last
events and finish between the two looks.** -/
theorem verdict_last_iff (hjson : json.Faithful) {d : Disk} (hd : d.Consistent)
    (hfresh : d.record i = none) (hfile : (d.eventsFile i).getD "" = "")
    {steps : List WatchStep} {s : Watch E}
    (hrun : execute (watchStep json i) (Watch.start d offset) steps = some s) :
    s.Complete json i offset ↔
      Along (watchStep json i) (Undisturbed json i offset) (Watch.start d offset) steps := by
  have hstart : (Watch.start d offset : Watch E).Invariant json i offset :=
    start_watchInvariant hd hfresh hfile
  have hs : s.Invariant json i offset :=
    invariant_run (fun _ _ _ hI h => watchStep_invariant hjson hI h) hstart hrun
  have hrunIff := run_iff_along (P := fun s => s.verdict ≠ none → s.UpToDate json i offset)
    (fun _ _ _ hI h => watchStep_invariant hjson hI h) (fun _ _ _ hI h => upToDate_step hI h)
    hstart hrun
  rw [complete_iff hjson hs, hrunIff]
  exact and_iff_right fun hverdict => absurd rfl hverdict

/-- A launch, up to the thread that executes the playbook. -/
def launchSteps : List WatchStep :=
  .run (.launch default "") :: List.replicate 12 (.run (.proceed default))

/-- The run reports one event. -/
def eventSteps : List WatchStep :=
  .run (.event (some Sample.task.text) {}) :: List.replicate 3 (.run (.proceed default))

/-- The adapter returns, and the record is saved. -/
def finishSteps : List WatchStep :=
  .run (.finish { returnCode := some 0, command := [] } default) ::
    List.replicate 2 (.run (.proceed default))

theorem empty_consistent : ({} : Disk).Consistent where
  named := by
    rintro i r ⟨⟩
  locked := by
    rintro i r ⟨⟩

/-- A client that reads after the run has finished has its event before the verdict. -/
theorem verdict_last_iff_readAfter :
    ∃ s, execute (watchStep sampleJson "run") (Watch.start {} 0)
        (launchSteps ++ eventSteps ++ finishSteps ++ [.read, .load false]) = some s ∧
      (s.Complete sampleJson "run" 0 ↔
        Along (watchStep sampleJson "run") (Undisturbed sampleJson "run" 0) (Watch.start {} 0)
          (launchSteps ++ eventSteps ++ finishSteps ++ [.read, .load false])) := by
  have hruns : (execute (watchStep sampleJson "run") (Watch.start {} 0)
      (launchSteps ++ eventSteps ++ finishSteps ++ [.read, .load false])).isSome = true := by
    decide +kernel
  obtain ⟨s, hs⟩ := Option.isSome_iff_exists.mp hruns
  exact ⟨s, hs, verdict_last_iff sampleJson_faithful empty_consistent rfl rfl hs⟩

/-- The run reports its event and finishes between the two looks of a client: the verdict
is all that is sent. -/
theorem verdict_can_hide_event :
    ∃ s, execute (watchStep sampleJson "run") (Watch.start {} 0)
        (launchSteps ++ [.read] ++ eventSteps ++ finishSteps ++ [.load false]) = some s ∧
      ¬ s.Complete sampleJson "run" 0 := by
  have hruns : (execute (watchStep sampleJson "run") (Watch.start {} 0)
      (launchSteps ++ [.read] ++ eventSteps ++ finishSteps ++ [.load false])).any (fun s =>
        s.verdict ≠ none ∧ s.stream.sent = [] ∧ s.eventsOf sampleJson "run" = [.task]) = true := by
    decide +kernel
  rw [Option.any_eq_true] at hruns
  obtain ⟨s, hs, hhidden⟩ := hruns
  obtain ⟨hverdict, hsent, hevents⟩ := of_decide_eq_true hhidden
  refine ⟨s, hs, fun hcomplete => ?_⟩
  obtain ⟨verdict, hv⟩ := Option.ne_none_iff_exists'.mp hverdict
  have hall := congrArg List.length (hcomplete verdict hv)
  rw [Watch.sent, hsent, hevents, hv] at hall
  simp [numbered] at hall

end SeapathWebui.Runs
