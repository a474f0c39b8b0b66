/-
  Runs/Tally.lean --- what the progress of a run says once its events are in.

  Source: `apply_event`, `_apply_stats` and `summarise` of app/runs/progress.py,
  `_final_state` and `_final_message` of app/runs/service.py.

  Three readings of the same events are compared.  The one flag that tells a finished run
  from an interrupted one is set by the recap and by nothing else (`run_classified`).  The
  counters that are kept while the run goes on count what the stored summaries say
  (`counters_eq_summaries`).  And the recap overwrites the counters it names, and no others
  (`recap_last_word_iff`).
-/
import SeapathWebui.Runs.Progress

set_option autoImplicit false

namespace SeapathWebui.Runs

open SeapathWebui.Foundation

/-! ## What one event does -/

/-- The event is Ansible's recap. -/
def Event.isRecap (e : Event) : Prop := e.name = "playbook_on_stats"

instance (e : Event) : Decidable e.isRecap := inferInstanceAs (Decidable (_ = _))

/-- The outcome that the event reports, if it reports the result of a task. -/
def Event.outcome (e : Event) : Option Outcome :=
  (hostResults.lookup e.name).map fun outcome =>
    if outcome = .ok ∧ e.changed then .changed else outcome

/-- A task that came to an end well counts as changed or as ok, and one that failed in the
background counts as failed. -/
theorem outcome_eq_some_iff {e : Event} {outcome : Outcome} :
    e.outcome = some outcome ↔
      (e.name = "runner_on_ok" ∧ outcome = if e.changed then .changed else .ok) ∨
        (e.name ∈ ["runner_on_failed", "runner_on_async_failed"] ∧ outcome = .failed) ∨
          (e.name = "runner_on_skipped" ∧ outcome = .skipped) ∨
            (e.name = "runner_on_unreachable" ∧ outcome = .unreachable) := by
  unfold Event.outcome
  constructor
  · intro h
    obtain ⟨reported, hlookup, rfl⟩ := Option.map_eq_some_iff.mp h
    have hmem := lookup_hostResults.mp hlookup
    simp only [hostResults, List.mem_cons, Prod.mk.injEq, List.not_mem_nil, or_false] at hmem
    rcases hmem with ⟨hname, rfl⟩ | ⟨hname, rfl⟩ | ⟨hname, rfl⟩ | ⟨hname, rfl⟩ | ⟨hname, rfl⟩ <;>
      simp [hname]
  · rintro (⟨hname, rfl⟩ | ⟨hname, rfl⟩ | ⟨hname, rfl⟩ | ⟨hname, rfl⟩)
    · rw [lookup_hostResults.mpr (hname ▸ by decide : (e.name, .ok) ∈ hostResults)]
      simp
    · have hfailed : ∀ name ∈ ["runner_on_failed", "runner_on_async_failed"],
          hostResults.lookup name = some .failed := by decide
      rw [hfailed e.name hname]
      simp
    · rw [hname]
      rfl
    · rw [hname]
      rfl

/-- The recap sets the flag and overwrites the counters it names. -/
theorem applyEvent_recap {p : RunProgress} {e : Event} (h : e.isRecap) :
    applyEvent p e = applyStats { p with finalStatusSeen := true } e := by
  have hname : e.name = "playbook_on_stats" := h
  have hlookup : hostResults.lookup "playbook_on_stats" = none := rfl
  simp [applyEvent, hname, hlookup]

/-- An event that reports a result starts neither a play nor a task. -/
theorem name_of_result {e : Event} {outcome : Outcome}
    (h : hostResults.lookup e.name = some outcome) :
    e.name ≠ "playbook_on_play_start" ∧ e.name ≠ "playbook_on_task_start" := by
  constructor
  · intro hname
    rw [hname] at h
    cases h
  · intro hname
    rw [hname] at h
    cases h

/-- A result counts for its host, once. -/
theorem applyEvent_result {p : RunProgress} {e : Event} {outcome : Outcome}
    (h : e.outcome = some outcome) :
    applyEvent p e =
      match e.filled "host" with
      | none => p
      | some host => p.setHost host
          { (p.host host).setCount ((p.host host).count outcome + 1) outcome with
            lastTask := (e.filled "task").or p.task } := by
  obtain ⟨reported, hlookup, houtcome⟩ := Option.map_eq_some_iff.mp h
  obtain ⟨hplay, htask⟩ := name_of_result hlookup
  simp only [applyEvent, if_neg hplay, if_neg htask, hlookup]
  cases e.filled "host" with
  | none => rfl
  | some host =>
      by_cases hchanged : reported = .ok ∧ e.changed
      · rw [if_pos hchanged] at houtcome
        subst houtcome
        simp [hchanged]
      · rw [if_neg hchanged] at houtcome
        subst houtcome
        simp [hchanged]

/-- Any other event counts nothing. -/
theorem applyEvent_other {p : RunProgress} {e : Event} (h : e.outcome = none)
    (hrecap : ¬ e.isRecap) :
    (applyEvent p e).hosts = p.hosts ∧ (applyEvent p e).finalStatusSeen = p.finalStatusSeen := by
  have hlookup : hostResults.lookup e.name = none := Option.map_eq_none_iff.mp h
  have hname : e.name ≠ "playbook_on_stats" := hrecap
  simp only [applyEvent, hlookup, if_neg hname]
  split
  · exact ⟨rfl, rfl⟩
  · split
    · exact ⟨rfl, rfl⟩
    · exact ⟨rfl, rfl⟩

/-! ## The flag -/

theorem finalStatusSeen_applyCounts (field : Outcome) (counts : List (String × Int)) :
    ∀ p : RunProgress, (applyCounts field counts p).finalStatusSeen = p.finalStatusSeen := by
  induction counts with
  | nil => exact fun _ => rfl
  | cons c rest ih => exact fun p => ih _

theorem finalStatusSeen_applyStats (p : RunProgress) (e : Event) :
    (applyStats p e).finalStatusSeen = p.finalStatusSeen := by
  simp only [applyStats, statFields, List.foldl_cons, List.foldl_nil, finalStatusSeen_applyCounts]

/-- Step lemma: the recap sets the flag, and nothing else touches it. -/
theorem finalStatusSeen_applyEvent (p : RunProgress) (e : Event) :
    (applyEvent p e).finalStatusSeen = true ↔ p.finalStatusSeen = true ∨ e.isRecap := by
  by_cases hrecap : e.isRecap
  · rw [applyEvent_recap hrecap, finalStatusSeen_applyStats]
    simp [hrecap]
  · have hkept : (applyEvent p e).finalStatusSeen = p.finalStatusSeen := by
      cases houtcome : e.outcome with
      | none => exact (applyEvent_other houtcome hrecap).2
      | some outcome =>
          rw [applyEvent_result houtcome]
          cases e.filled "host" <;> rfl
    rw [hkept]
    exact (or_iff_left hrecap).symm

/-- Run lemma. -/
theorem finalStatusSeen_foldl (events : List Event) :
    ∀ p : RunProgress, (events.foldl applyEvent p).finalStatusSeen = true ↔
      p.finalStatusSeen = true ∨ ∃ e ∈ events, e.isRecap := by
  induction events with
  | nil => simp
  | cons e rest ih =>
      intro p
      rw [List.foldl_cons, ih, finalStatusSeen_applyEvent, List.exists_mem_cons_iff, or_assoc]

/-! ## How a run is classified -/

/-- The state of a run to which these events were reported and that ended like this. -/
def classify (events : List Event) : Ending → RunState
  | .raised _ => .failed
  | .returned outcome =>
      if outcome.cancelled then .cancelled
      else if outcome.error.getD "" ≠ "" then .failed
      else if ∀ e ∈ events, ¬ e.isRecap then .interrupted
      else if outcome.returnCode = some 0 then .success
      else .failed

/-- The adapter raised, or reports an error of its own. -/
def Ending.Erroneous : Ending → Prop
  | .raised _ => True
  | .returned outcome => outcome.error.getD "" ≠ ""

/-- The flag at the end of a run says whether there was a recap. -/
theorem finalState_progressOf (outcome : RunOutcome) (events : List Event) :
    finalState outcome (progressOf events) = classify events (.returned outcome) := by
  have hflag : (progressOf events).finalStatusSeen = true ↔ ∃ e ∈ events, e.isRecap := by
    simpa [progressOf] using finalStatusSeen_foldl events {}
  unfold finalState classify
  by_cases hrecap : ∀ e ∈ events, ¬ e.isRecap
  · have hunseen : (progressOf events).finalStatusSeen = false := by
      rw [← Bool.not_eq_true, hflag]
      exact fun ⟨e, he, hseen⟩ => hrecap e he hseen
    simp [hunseen, if_pos hrecap]
  · have hseen : (progressOf events).finalStatusSeen = true := by
      rw [hflag]
      simpa using hrecap
    simp [hseen, if_neg hrecap]

/-- Without a recap nothing makes a run succeed, and nothing but an error of the adapter makes
it fail. -/
theorem classify_of_no_recap {events : List Event} (h : ∀ e ∈ events, ¬ e.isRecap)
    (ending : Ending) :
    classify events ending ≠ .success ∧
      (classify events ending = .failed → ending.Erroneous) := by
  cases ending with
  | raised message => exact ⟨nofun, fun _ => trivial⟩
  | returned outcome =>
      simp only [classify, Ending.Erroneous, if_pos h]
      split
      · exact ⟨nofun, nofun⟩
      · split
        · rename_i herror
          exact ⟨nofun, fun _ => herror⟩
        · exact ⟨nofun, nofun⟩

/-- **The state that is finally saved is told by the end of the adapter and by the presence of
a recap.** -/
theorem run_classified (rt : Runtime) (dumps : Summary → String) (now : Instant) {d : Disk}
    {r : RunRecord} (h : d.hasDirectory r.id) (events : List Event) (ending : Ending) :
    ∃ saved, (executeRun rt dumps now d r events ending).1.record r.id = some saved ∧
      saved.state = classify events ending ∧
      ((∀ e ∈ events, ¬ e.isRecap) →
        saved.state ≠ .success ∧ (saved.state = .failed → ending.Erroneous)) := by
  have hstate : (executeRun rt dumps now d r events ending).2.state = classify events ending := by
    cases ending with
    | raised message => rfl
    | returned outcome =>
        rw [← finalState_progressOf]
        exact congrArg (finalState outcome) (progress_foldl_onEvent rt dumps events _)
  refine ⟨_, record_executeRun rt dumps now h events ending, hstate, fun hrecap => ?_⟩
  rw [hstate]
  exact classify_of_no_recap hrecap ending

/-- A task that fails, perhaps to be ignored. -/
def failedTask : Event :=
  ⟨Dict.ofList [("event", .str "runner_on_failed"),
    ("event_data", .map [(.str "host", .str "node1")])], by decide⟩

/-- A task that succeeds. -/
def okTask : Event :=
  ⟨Dict.ofList [("event", .str "runner_on_ok"),
    ("event_data", .map [(.str "host", .str "node1")])], by decide⟩

/-- A recap that lists the host where a count is not zero, as Ansible writes it. -/
def okRecap : Event :=
  ⟨Dict.ofList [("event", .str "playbook_on_stats"),
    ("event_data", .map [(.str "ok", .map [(.str "node1", .scalar (.int 1))])])], by decide⟩

/-- What an operator launches. -/
def setupRequest : LaunchRequest := ⟨"setup", "setup", false, "alice", none, "2.0.0"⟩

/-- A failed task and an exit code, and no recap: the machine went away under the run. -/
theorem run_classified_reboot :
    ∃ saved, (executeRun .silent (fun _ => "") default
        (RunStore.create {} (newRecord "r1" setupRequest) "") (newRecord "r1" setupRequest)
        [failedTask] (.returned ⟨some 4, [], false, none⟩)).1.record "r1" = some saved ∧
      saved.state = .interrupted := by
  obtain ⟨saved, hsaved, hstate, -⟩ := run_classified .silent (fun _ => "") default
    (RunStore.hasDirectory_create {} (newRecord "r1" setupRequest) "") [failedTask]
    (.returned ⟨some 4, [], false, none⟩)
  exact ⟨saved, hsaved, hstate.trans (by decide)⟩

/-! ## What is counted, and what is told -/

/-- The event reports this outcome of a task on this host. -/
def Event.Reports (e : Event) (h : String) (o : Outcome) : Prop :=
  e.outcome = some o ∧ e.filled "host" = some h

instance (e : Event) (h : String) (o : Outcome) : Decidable (e.Reports h o) :=
  inferInstanceAs (Decidable (_ ∧ _))

theorem filled_eq_some_iff {e : Event} {key value : String} :
    e.filled key = some value ↔ e.text key = some value ∧ value ≠ "" := by
  simp [Event.filled, Option.filter_eq_some_iff]

/-- Step lemma: an event that is not the recap counts what it reports, and nothing else. -/
theorem count_applyEvent (p : RunProgress) {e : Event} (hrecap : ¬ e.isRecap) (h : String)
    (o : Outcome) :
    ((applyEvent p e).host h).count o =
      (p.host h).count o + if e.Reports h o then 1 else 0 := by
  cases houtcome : e.outcome with
  | none =>
      have hhost : (applyEvent p e).host h = p.host h := by
        simp only [RunProgress.host, (applyEvent_other houtcome hrecap).1]
      simp [hhost, Event.Reports, houtcome]
  | some outcome =>
      rw [applyEvent_result houtcome]
      cases hhost : e.filled "host" with
      | none => simp [Event.Reports, hhost]
      | some host =>
          by_cases hsame : host = h
          · subst hsame
            by_cases hcounted : outcome = o
            · subst hcounted
              simp [Event.Reports, houtcome, hhost]
            · simp [Event.Reports, houtcome, hhost, hcounted]
          · simp [Event.Reports, hhost, hsame]

/-- Run lemma: the counters count the reports. -/
theorem count_foldl {events : List Event} (h : String) (o : Outcome) :
    ∀ p : RunProgress, (∀ e ∈ events, ¬ e.isRecap) →
      ((events.foldl applyEvent p).host h).count o =
        (p.host h).count o + (events.countP fun e => e.Reports h o : Nat) := by
  induction events with
  | nil => simp
  | cons e rest ih =>
      intro p hrecap
      rw [List.foldl_cons, ih _ fun e' he' => hrecap e' (List.mem_cons_of_mem e he'),
        count_applyEvent p (hrecap e List.mem_cons_self), List.countP_cons]
      by_cases hreports : e.Reports h o
      · simp only [hreports, if_true, decide_true]
        push_cast
        omega
      · simp [hreports]

theorem count_progressOf {events : List Event} (hrecap : ∀ e ∈ events, ¬ e.isRecap) (h : String)
    (o : Outcome) :
    ((progressOf events).host h).count o = (events.countP fun e => e.Reports h o : Nat) := by
  have hzero : ((({} : RunProgress).host h).count o) = 0 := by cases o <;> rfl
  rw [progressOf, count_foldl h o {} hrecap, hzero, Int.zero_add]

/-- A summary that tells this outcome of a task on this host. -/
def Summary.isResult (h : String) (o : Outcome) : Summary → Bool
  | .result host _ outcome _ => host = some h ∧ outcome = o
  | .play _ | .task _ _ | .stats _ => false

theorem summarise_result (rt : Runtime) {e : Event} {outcome : Outcome}
    (h : e.outcome = some outcome) :
    summarise rt e = some (.result (e.text "host") (e.text "task") outcome
      (if outcome = .failed then failureMessage rt e else none)) := by
  obtain ⟨reported, hlookup, houtcome⟩ := Option.map_eq_some_iff.mp h
  obtain ⟨hplay, htask⟩ := name_of_result hlookup
  simp only [summarise, if_neg hplay, if_neg htask, hlookup, houtcome]

/-- Only a result is told as one. -/
theorem outcome_of_summarise {rt : Runtime} {e : Event} {host task message : Option String}
    {outcome : Outcome} (h : summarise rt e = some (.result host task outcome message)) :
    e.outcome = some outcome ∧
      message = if outcome = .failed then failureMessage rt e else none := by
  cases houtcome : e.outcome with
  | none =>
      have hlookup : hostResults.lookup e.name = none := Option.map_eq_none_iff.mp houtcome
      simp only [summarise, hlookup] at h
      split at h
      · cases h
      · split at h
        · cases h
        · split at h
          · cases h
          · cases h
  | some reported =>
      rw [summarise_result rt houtcome] at h
      cases h
      exact ⟨rfl, rfl⟩

theorem summarise_other (rt : Runtime) {e : Event} (houtcome : e.outcome = none) (h : String)
    (o : Outcome) : ∀ s ∈ summarise rt e, s.isResult h o = false := by
  intro s hs
  cases s with
  | result host task outcome message =>
      exact absurd (houtcome.symm.trans (outcome_of_summarise hs).1) nofun
  | play play => rfl
  | task task play => rfl
  | stats stats => rfl

/-- The summary of an event tells what the event reports. -/
theorem isResult_summarise (rt : Runtime) (e : Event) {h : String} (hne : h ≠ "") (o : Outcome) :
    (∃ s ∈ summarise rt e, s.isResult h o = true) ↔ e.Reports h o := by
  cases houtcome : e.outcome with
  | none =>
      constructor
      · rintro ⟨s, hs, hresult⟩
        rw [summarise_other rt houtcome h o s hs] at hresult
        cases hresult
      · exact fun hreports => nomatch houtcome.symm.trans hreports.1
  | some outcome =>
      simp [summarise_result rt houtcome, Summary.isResult, Event.Reports, houtcome,
        filled_eq_some_iff, hne, and_comm]

/-- So do the summaries of a sequence of them. -/
theorem countP_summaries (rt : Runtime) (events : List Event) {h : String} (hne : h ≠ "")
    (o : Outcome) :
    (events.filterMap (summarise rt)).countP (Summary.isResult h o) =
      events.countP fun e => e.Reports h o := by
  rw [List.countP_filterMap]
  refine List.countP_congr fun e _ => ?_
  rw [decide_eq_true_iff, ← isResult_summarise rt e hne o]
  cases summarise rt e with
  | none => simp
  | some s => simp

/-! ## The hosts an interrupted run names -/

/-- `sorted(reached)` of `_final_message`. -/
def reachedHosts (p : RunProgress) : List String :=
  (p.hosts.entries.filterMap fun e => if e.2.reached then some e.1 else none).insertionSort
    fun a b => a ≤ b

theorem reached_iff {s : HostProgress} :
    s.reached = true ↔ ∃ o, o ≠ Outcome.unreachable ∧ s.count o ≠ 0 := by
  simp only [HostProgress.reached, Bool.or_eq_true, bne_iff_ne]
  constructor
  · rintro (((h | h) | h) | h)
    · exact ⟨.ok, nofun, h⟩
    · exact ⟨.changed, nofun, h⟩
    · exact ⟨.failed, nofun, h⟩
    · exact ⟨.skipped, nofun, h⟩
  · rintro ⟨o, hne, hcount⟩
    cases o with
    | ok => exact Or.inl (Or.inl (Or.inl hcount))
    | changed => exact Or.inl (Or.inl (Or.inr hcount))
    | failed => exact Or.inl (Or.inr hcount)
    | skipped => exact Or.inr hcount
    | unreachable => exact absurd rfl hne

theorem mem_reachedHosts {p : RunProgress} {h : String} :
    h ∈ reachedHosts p ↔ (p.host h).reached = true := by
  rw [reachedHosts, List.mem_insertionSort, List.mem_filterMap]
  constructor
  · rintro ⟨⟨name, s⟩, hmem, hsome⟩
    obtain ⟨hreached, rfl⟩ := Option.ite_none_right_eq_some.mp hsome |>.imp_right Option.some.inj
    rw [RunProgress.host, Dict.mem_entries_iff.mp hmem]
    exact hreached
  · intro hreached
    cases hget : p.hosts.get? h with
    | none =>
        rw [RunProgress.host, hget] at hreached
        cases hreached
    | some s =>
        rw [RunProgress.host, hget] at hreached
        exact ⟨(h, s), Dict.mem_entries_iff.mpr hget, if_pos hreached⟩

/-- The names come sorted, each once. -/
theorem pairwise_reachedHosts (p : RunProgress) : (reachedHosts p).Pairwise (· < ·) := by
  have hsorted : (reachedHosts p).Pairwise (· ≤ ·) := List.pairwise_insertionSort _ _
  have hkeys : (p.hosts.entries.filterMap fun e => if e.2.reached then some e.1 else none) =
      (p.hosts.filter fun e => e.2.reached).keys := by
    simp only [Dict.keys, Dict.filter]
    rw [← List.filterMap_eq_map, List.filterMap_filter]
    rfl
  have hnodup : (reachedHosts p).Nodup := by
    rw [reachedHosts, (List.perm_insertionSort _ _).nodup_iff, hkeys]
    exact Dict.nodup_keys _
  exact (hsorted.and hnodup).imp fun h => lt_of_le_of_ne h.1 h.2

/-- What an interrupted run says, of the hosts it names. -/
def interruptedMessage (names : List String) : String :=
  "The run ended without a final status, which usually means the " ++
    "playbook rebooted the machine it was running from. Relaunching is safe: the " ++
    "playbooks are idempotent. Hosts reached: " ++
    (if ", ".intercalate names = "" then "none" else ", ".intercalate names) ++ "."

/-- A launched run without a recap that is neither cancelled nor in error says it of the hosts
it reached. -/
theorem message_executeRun (rt : Runtime) (dumps : Summary → String) (now started : Instant)
    (d : Disk) (i : RunId) (q : LaunchRequest) {events : List Event}
    (hrecap : ∀ e ∈ events, ¬ e.isRecap) {outcome : RunOutcome}
    (hcancelled : outcome.cancelled = false) (herror : outcome.error.getD "" = "") :
    (executeRun rt dumps now d (markRunning started (newRecord i q)) events
        (.returned outcome)).2.message =
      some (interruptedMessage (reachedHosts (progressOf events))) := by
  have hinterrupted : finalState outcome (progressOf events) = .interrupted := by
    rw [finalState_progressOf, classify, hcancelled, herror]
    simp [if_pos hrecap]
  have hprogress : ∀ s : Reporting,
      s = { disk := d, record := markRunning started (newRecord i q) } →
      (events.foldl (onEvent rt dumps) s).progress = progressOf events := by
    rintro s rfl
    exact progress_foldl_onEvent rt dumps events _
  simp only [executeRun, Ending.close, finishRecord, hprogress _ rfl, hinterrupted]
  simp only [finalMessage, herror]
  rw [record_progress_foldl_onEvent rt dumps events _ rfl, hprogress _ rfl]
  rfl

/-- **The counters and the summaries tell the same, as long as there is no recap.** -/
theorem counters_eq_summaries (rt : Runtime) {events : List Event}
    (hrecap : ∀ e ∈ events, ¬ e.isRecap) :
    (∀ h, h ≠ "" → ∀ o, ((progressOf events).host h).count o =
        ((events.filterMap (summarise rt)).countP (Summary.isResult h o) : Nat)) ∧
      -- only the events of the host count, in whatever order the others come
      (∀ h, h ≠ "" → ∀ other, (∀ e ∈ other, ¬ e.isRecap) →
        (other.filter fun e => e.text "host" = some h) =
          (events.filter fun e => e.text "host" = some h) →
        ∀ o, ((progressOf other).host h).count o = ((progressOf events).host h).count o) ∧
      -- the message of the interrupted run
      ∀ dumps now started d i q outcome, outcome.cancelled = false →
        outcome.error.getD "" = "" →
        ∃ names : List String, names.Pairwise (· < ·) ∧
          (∀ h, h ∈ names ↔ h ≠ "" ∧ ∃ o, o ≠ Outcome.unreachable ∧
            ∃ s ∈ events.filterMap (summarise rt), s.isResult h o = true) ∧
          (executeRun rt dumps now d (markRunning started (newRecord i q)) events
            (.returned outcome)).2.message = some (interruptedMessage names) := by
  refine ⟨fun h hne o => ?_, fun h hne other hother hsame o => ?_, ?_⟩
  · rw [count_progressOf hrecap, countP_summaries rt events hne]
  · have hown : ∀ l : List Event, (l.countP fun e => e.Reports h o) =
        (l.filter fun e => e.text "host" = some h).countP fun e => e.Reports h o := by
      intro l
      rw [List.countP_filter]
      refine List.countP_congr fun e _ => ?_
      simp only [Event.Reports, filled_eq_some_iff, Bool.and_eq_true, decide_eq_true_iff]
      exact ⟨fun h => ⟨h, h.2.1⟩, fun h => h.1⟩
    rw [count_progressOf hother, count_progressOf hrecap, hown other, hown events, hsame]
  · intro dumps now started d i q outcome hcancelled herror
    refine ⟨reachedHosts (progressOf events), pairwise_reachedHosts _, fun h => ?_,
      message_executeRun rt dumps now started d i q hrecap hcancelled herror⟩
    rw [mem_reachedHosts, reached_iff]
    constructor
    · rintro ⟨o, hreached, hcount⟩
      rw [count_progressOf hrecap] at hcount
      have hpos : 0 < events.countP fun e => e.Reports h o := by omega
      obtain ⟨e, he, hreports⟩ := List.countP_pos_iff.mp hpos
      have hne : h ≠ "" := (filled_eq_some_iff.mp (of_decide_eq_true hreports).2).2
      obtain ⟨s, hs, hresult⟩ := (isResult_summarise rt e hne o).mpr (of_decide_eq_true hreports)
      exact ⟨hne, o, hreached, s, List.mem_filterMap.mpr ⟨e, he, hs⟩, hresult⟩
    · rintro ⟨hne, o, hreached, s, hs, hresult⟩
      refine ⟨o, hreached, ?_⟩
      have hpos : 0 < (events.filterMap (summarise rt)).countP (Summary.isResult h o) :=
        List.countP_pos_iff.mpr ⟨s, hs, hresult⟩
      rw [count_progressOf hrecap, ← countP_summaries rt events hne]
      omega

/-- One task each, that failed and that succeeded. -/
theorem counters_eq_summaries_two_tasks :
    ((progressOf [failedTask, okTask]).host "node1").count .failed =
      (([failedTask, okTask].filterMap (summarise .silent)).countP
        (Summary.isResult "node1" .failed) : Nat) :=
  (counters_eq_summaries .silent (by decide)).1 "node1" (by decide) .failed

/-! ## The recap -/

/-- The inner loop of `_apply_stats` overwrites one counter of the hosts it lists. -/
theorem count_applyCounts (field : Outcome) (h : String) (o : Outcome)
    {counts : List (String × Int)} :
    ∀ p : RunProgress, (counts.map Prod.fst).Nodup →
      ((applyCounts field counts p).host h).count o =
        if field = o then (counts.lookup h).getD ((p.host h).count o) else (p.host h).count o := by
  induction counts with
  | nil => simp [applyCounts]
  | cons c rest ih =>
      intro p hnodup
      obtain ⟨name, n⟩ := c
      simp only [List.map_cons, List.nodup_cons] at hnodup
      have hrest := ih (p.setHost name ((p.host name).setCount n field)) hnodup.2
      refine hrest.trans ?_
      by_cases hfield : field = o
      · subst hfield
        by_cases hname : name = h
        · subst hname
          have hnone : rest.lookup name = none := Dict.lookup_eq_none_iff_not_mem.mpr hnodup.1
          simp [hnone]
        · simp [Dict.lookup_cons_ite, hname]
      · by_cases hname : name = h
        · subst hname
          simp [hfield]
        · simp [hfield, hname]

/-- Where a counter stands in the recap. -/
theorem count_applyStats (p : RunProgress) (e : Event) (h : String) {f : Outcome × String}
    (hf : f ∈ statFields) :
    ((applyStats p e).host h).count f.1 =
      ((e.counts f.2).get? h).getD ((p.host h).count f.1) := by
  have hcounts : ∀ (field o : Outcome) (key : String) (p : RunProgress),
      ((applyCounts field (e.counts key).entries p).host h).count o =
        if field = o then ((e.counts key).get? h).getD ((p.host h).count o)
        else (p.host h).count o :=
    fun field o key p => count_applyCounts field h o p (e.counts key).nodup
  simp only [statFields, List.mem_cons, List.not_mem_nil, or_false] at hf
  rcases hf with rfl | rfl | rfl | rfl | rfl <;> simp [applyStats, statFields, hcounts]

/-- The hosts of the progress are those it had, and those the recap lists. -/
theorem mem_keys_applyCounts {field : Outcome} {h : String} {counts : List (String × Int)} :
    ∀ {p : RunProgress}, h ∈ (applyCounts field counts p).hosts.keys ↔
      h ∈ p.hosts.keys ∨ h ∈ counts.map Prod.fst := by
  induction counts with
  | nil => simp [applyCounts]
  | cons c rest ih =>
      intro p
      refine ih.trans ?_
      simp only [RunProgress.setHost, Dict.mem_keys_set, List.map_cons, List.mem_cons]
      tauto

theorem mem_keys_applyStats {p : RunProgress} {e : Event} {h : String} (hp : h ∈ p.hosts.keys) :
    h ∈ (applyStats p e).hosts.keys := by
  simp only [applyStats, statFields, List.foldl_cons, List.foldl_nil, mem_keys_applyCounts]
  exact Or.inl (Or.inl (Or.inl (Or.inl (Or.inl hp))))

/-- The counters of every host are those of the recap. -/
def LastWord (e : Event) (p : RunProgress) : Prop :=
  ∀ h ∈ p.hosts.keys, ∀ f ∈ statFields, (p.host h).count f.1 = ((e.counts f.2).get? h).getD 0

instance (e : Event) (p : RunProgress) : Decidable (LastWord e p) :=
  inferInstanceAs (Decidable (∀ h ∈ _, ∀ f ∈ _, _))

theorem count_eq_zero_of_not_mem {p : RunProgress} {h : String} (hmem : h ∉ p.hosts.keys)
    (o : Outcome) : (p.host h).count o = 0 := by
  rw [RunProgress.host, Dict.get?_eq_none_iff.mpr hmem]
  cases o <;> rfl

/-- The recap lists every counter that is not zero. -/
def Covers (e : Event) (p : RunProgress) : Prop :=
  ∀ h, ∀ f ∈ statFields, (p.host h).count f.1 ≠ 0 → (e.counts f.2).get? h ≠ none

/-- Without an earlier recap, these are the counters of what was reported. -/
theorem covers_progressOf_iff {events : List Event} (hrecap : ∀ e ∈ events, ¬ e.isRecap)
    (e : Event) :
    Covers e (progressOf events) ↔
      ∀ reported ∈ events, ∀ h, ∀ f ∈ statFields, reported.Reports h f.1 →
        (e.counts f.2).get? h ≠ none := by
  have hcount : ∀ h o, ((progressOf events).host h).count o ≠ 0 ↔
      ∃ reported ∈ events, reported.Reports h o := by
    intro h o
    rw [count_progressOf hrecap, Ne, Int.natCast_eq_zero, ← Ne, ← Nat.pos_iff_ne_zero,
      List.countP_pos_iff]
    simp only [decide_eq_true_iff]
  simp only [Covers, hcount]
  constructor
  · exact fun hcovers reported hmem h f hf hreports => hcovers h f hf ⟨reported, hmem, hreports⟩
  · rintro hcovers h f hf ⟨reported, hmem, hreports⟩
    exact hcovers reported hmem h f hf hreports

theorem lastWord_iff_covers (events : List Event) {e : Event} (he : e.isRecap) :
    LastWord e (progressOf (events ++ [e])) ↔ Covers e (progressOf events) := by
  have hstep : progressOf (events ++ [e]) =
      applyStats { progressOf events with finalStatusSeen := true } e := by
    rw [progressOf, List.foldl_append, List.foldl_cons, List.foldl_nil, applyEvent_recap he]
    rfl
  rw [hstep]
  generalize progressOf events = p
  have hhost : ∀ h, ({ p with finalStatusSeen := true } : RunProgress).host h = p.host h :=
    fun _ => rfl
  constructor
  · intro hword h f hf hcount hnone
    have hmem : h ∈ p.hosts.keys := by
      by_contra hmem
      exact hcount (count_eq_zero_of_not_mem hmem f.1)
    have hfinal := hword h (mem_keys_applyStats hmem) f hf
    rw [count_applyStats _ e h hf, hhost, hnone] at hfinal
    exact hcount hfinal
  · intro hcovers h _ f hf
    rw [count_applyStats _ e h hf, hhost]
    cases hget : (e.counts f.2).get? h with
    | some n => rfl
    | none =>
        by_contra hcount
        exact hcovers h f hf hcount hget

/-- **The recap has the last word exactly if it lists every counter that is not zero.**  Where
it is the only one, these are the counters of the outcomes that were reported. -/
theorem recap_last_word_iff (events : List Event) {e : Event} (he : e.isRecap) :
    (LastWord e (progressOf (events ++ [e])) ↔ Covers e (progressOf events)) ∧
      ((∀ earlier ∈ events, ¬ earlier.isRecap) →
        (LastWord e (progressOf (events ++ [e])) ↔
          ∀ reported ∈ events, ∀ h, ∀ f ∈ statFields, reported.Reports h f.1 →
            (e.counts f.2).get? h ≠ none)) := by
  refine ⟨lastWord_iff_covers events he, fun hrecap => ?_⟩
  rw [lastWord_iff_covers events he, covers_progressOf_iff hrecap]

/-- The failure that was ignored is still counted, next to a recap of no failure. -/
theorem ignored_failure_still_shown :
    ¬ (∀ events e, e.isRecap → LastWord e (progressOf (events ++ [e]))) ∧
      ((progressOf ([failedTask] ++ [okRecap])).host "node1").failed = 1 ∧
      ((progressOf ([okTask] ++ [okRecap])).host "node1").failed = 0 := by
  refine ⟨fun h => ?_, by decide +kernel, by decide +kernel⟩
  exact absurd (h [failedTask] okRecap (by decide)) (by decide +kernel)

/-- A recap that lists what was counted. -/
theorem recap_covers_okTask : Covers okRecap (progressOf [okTask]) :=
  (recap_last_word_iff [okTask] (by decide)).1.mp (by decide +kernel)

end SeapathWebui.Runs
