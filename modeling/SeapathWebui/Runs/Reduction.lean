/-
  Runs/Reduction.lean --- the stream of a run is a reduction of its events.

  Source: `summarise`, `_failure_message` and `_stats` of app/runs/progress.py, `on_event` of
  app/runs/service.py.

  `Agree` is what two events have to have in common for a viewer not to tell them apart: the
  name, the host, the task, the play, the dictionaries of the recap, whether something
  changed, and three texts of a result that failed.  Modules, arguments, output and the
  results of every other task are not in it.  `payload_unseen` is about two runs that agree
  event by event.
-/
import SeapathWebui.Foundation.Lines
import SeapathWebui.Runs.Tally
import SeapathWebui.Runs.Verdict

set_option autoImplicit false

namespace SeapathWebui.Runs

open SeapathWebui.Foundation

/-! ## What is looked at -/

/-- The keys of the reason why a task failed. -/
def failureKeys : List String := ["msg", "stderr", "reason"]

/-- The two events agree on what a viewer may see. -/
structure Agree (e e' : Event) : Prop where
  name : e.name = e'.name
  text : ∀ key ∈ ["host", "task", "play"], e.text key = e'.text key
  counts : ∀ key ∈ statsKeys, e.counts key = e'.counts key
  changed : e.changed = e'.changed
  failure : e.outcome = some .failed → ∀ key ∈ failureKeys, e.result key = e'.result key

namespace Agree

variable {e e' : Event}

theorem outcome (h : Agree e e') : e.outcome = e'.outcome := by
  simp only [Event.outcome, h.name, h.changed]

theorem filled (h : Agree e e') (key : String) (hkey : key ∈ ["host", "task", "play"]) :
    e.filled key = e'.filled key := by
  simp only [Event.filled, h.text key hkey]

theorem isRecap (h : Agree e e') : e.isRecap ↔ e'.isRecap := by
  rw [Event.isRecap, Event.isRecap, h.name]

theorem stats (h : Agree e e') : stats e = Runs.stats e' :=
  List.map_congr_left fun key hkey => by rw [h.counts key hkey]

theorem applyStats (h : Agree e e') (p : RunProgress) : applyStats p e = Runs.applyStats p e' := by
  have hcounts : ∀ f ∈ statFields, e.counts f.2 = e'.counts f.2 := by
    intro f hf
    refine h.counts f.2 ?_
    revert f
    decide
  simp only [Runs.applyStats, statFields, List.foldl_cons, List.foldl_nil]
  rw [hcounts (.ok, "ok") (by decide), hcounts (.changed, "changed") (by decide),
    hcounts (.failed, "failures") (by decide), hcounts (.skipped, "skipped") (by decide),
    hcounts (.unreachable, "dark") (by decide)]

/-- The two are counted alike. -/
theorem applyEvent (h : Agree e e') (p : RunProgress) : applyEvent p e = Runs.applyEvent p e' := by
  simp only [Runs.applyEvent, h.name, h.changed, h.filled "play" (by decide),
    h.filled "task" (by decide), h.filled "host" (by decide), h.applyStats]

theorem failureMessage (rt : Runtime) (h : Agree e e') (hfailed : e.outcome = some .failed) :
    failureMessage rt e = Runs.failureMessage rt e' := by
  have hresult := h.failure hfailed
  simp only [Runs.failureMessage, List.findSome?_cons, List.findSome?_nil,
    hresult "msg" (by decide), hresult "stderr" (by decide), hresult "reason" (by decide)]

/-- The two are told alike. -/
theorem summarise (rt : Runtime) (h : Agree e e') : summarise rt e = Runs.summarise rt e' := by
  cases houtcome : e.outcome with
  | some outcome =>
      rw [summarise_result rt houtcome, summarise_result rt (h.outcome ▸ houtcome),
        h.text "host" (by decide), h.text "task" (by decide)]
      split
      · rename_i hfailed
        rw [h.failureMessage rt (hfailed ▸ houtcome)]
      · rfl
  | none =>
      have hlookup : hostResults.lookup e'.name = none :=
        Option.map_eq_none_iff.mp (h.outcome ▸ houtcome)
      simp only [Runs.summarise, h.name, hlookup, h.stats, h.text "play" (by decide),
        h.text "task" (by decide)]

end Agree

/-! ## Whole runs -/

section Run

variable (rt : Runtime) (dumps : Summary → String)

/-- The lines that a run appends to `events.jsonl`. -/
def reportedLines (events : List Event) : List String :=
  (events.filterMap (summarise rt)).map dumps

/-- Step lemma: an event appends its line, if it has one. -/
theorem eventsFile_onEvent {s : Reporting} (h : s.disk.hasDirectory s.record.id) (e : Event) :
    ((onEvent rt dumps s e).disk.eventsFile s.record.id).getD "" =
      (s.disk.eventsFile s.record.id).getD "" ++ Text.joinLines (reportedLines rt dumps [e]) := by
  have hsave : ∀ (d : Disk) (r : RunRecord),
      ((RunStore.save d r).eventsFile s.record.id).getD "" =
        (d.eventsFile s.record.id).getD "" := by
    intro d r
    rw [RunStore.save, Disk.eventsFile_replaceRecord]
    exact (MinorWrite.temporary r).eventsFile s.record.id
  cases hsummary : summarise rt e with
  | none => simp [onEvent, reportedLines, hsave, hsummary, Text.joinLines]
  | some summary =>
      simp [onEvent, reportedLines, hsave, hsummary, Disk.eventsFile_appendEvent h, Text.joinLines]

/-- Run lemma: a run appends the lines of its events. -/
theorem eventsFile_foldl_onEvent (events : List Event) :
    ∀ s : Reporting, s.disk.hasDirectory s.record.id →
      ((events.foldl (onEvent rt dumps) s).disk.eventsFile s.record.id).getD "" =
        (s.disk.eventsFile s.record.id).getD "" ++
          Text.joinLines (reportedLines rt dumps events) := by
  induction events with
  | nil => simp [reportedLines, Text.joinLines]
  | cons e rest ih =>
      intro s h
      have hrest := ih (onEvent rt dumps s e) (hasDirectory_onEvent rt dumps h e)
      have hlines : reportedLines rt dumps (e :: rest) =
          reportedLines rt dumps [e] ++ reportedLines rt dumps rest := by
        simp only [reportedLines, ← List.map_append, ← List.filterMap_append,
          List.singleton_append]
      rw [List.foldl_cons, hlines, Text.joinLines_append, ← String.append_assoc,
        ← eventsFile_onEvent rt dumps h e]
      exact hrest

theorem eventsFile_executeRun (now : Instant) {d : Disk} {r : RunRecord}
    (h : d.hasDirectory r.id) (events : List Event) (ending : Ending) :
    ((executeRun rt dumps now d r events ending).1.eventsFile r.id).getD "" =
      (d.eventsFile r.id).getD "" ++ Text.joinLines (reportedLines rt dumps events) := by
  rw [executeRun, RunStore.save, Disk.eventsFile_replaceRecord, (MinorWrite.temporary _).eventsFile]
  exact eventsFile_foldl_onEvent rt dumps events { disk := d, record := r } h

end Run

/-- The text of a failure is the beginning of one of the three. -/
theorem message_of_summarise {rt : Runtime} {e : Event} {host task : Option String}
    {outcome : Outcome} {message : String}
    (h : summarise rt e = some (.result host task outcome (some message))) :
    e.outcome = some .failed ∧ message.length ≤ 2000 ∧
      ∃ key ∈ failureKeys, ∃ value, e.result key = some value ∧
        message = String.ofList ((value.text rt.repr).toList.take 2000) := by
  obtain ⟨houtcome, hmessage⟩ := outcome_of_summarise h
  by_cases hfailed : outcome = .failed
  · rw [if_pos hfailed] at hmessage
    obtain ⟨value, hvalue, rfl⟩ := Option.map_eq_some_iff.mp hmessage.symm
    obtain ⟨key, hkey, hresult⟩ := List.exists_of_findSome?_eq_some hvalue
    refine ⟨hfailed ▸ houtcome, ?_, key, hkey, value, (Option.filter_eq_some_iff.mp hresult).1, rfl⟩
    rw [String.length_ofList]
    exact List.length_take_le _ _
  · rw [if_neg hfailed] at hmessage
    cases hmessage

/-- **Two runs whose events agree on what a viewer may see write the same.** -/
theorem payload_unseen (rt : Runtime) (dumps : Summary → String) {events events' : List Event}
    (h : List.Forall₂ Agree events events') :
    reportedLines rt dumps events = reportedLines rt dumps events' ∧
      (∀ now d r ending, executeRun rt dumps now d r events ending =
        executeRun rt dumps now d r events' ending) ∧
      (∀ now d r ending, Disk.hasDirectory d r.id →
        ((executeRun rt dumps now d r events ending).1.eventsFile r.id).getD "" =
          (d.eventsFile r.id).getD "" ++ Text.joinLines (reportedLines rt dumps events)) ∧
      ∀ e ∈ events, ∀ host task outcome message,
        summarise rt e = some (.result host task outcome (some message)) →
          e.outcome = some .failed ∧ message.length ≤ 2000 ∧
            ∃ key ∈ failureKeys, ∃ value, e.result key = some value ∧
              message = String.ofList ((value.text rt.repr).toList.take 2000) := by
  refine ⟨?_, fun now d r ending => ?_, fun now d r ending hdirectory =>
    eventsFile_executeRun rt dumps now hdirectory events ending,
    fun e _ host task outcome message => message_of_summarise⟩
  · refine congrArg (List.map dumps) ?_
    induction h with
    | nil => rfl
    | cons hagree _ ih => rw [List.filterMap_cons, List.filterMap_cons, hagree.summarise rt, ih]
  · refine congrArg (fun s => (RunStore.save (Reporting.disk s) (ending.close now s),
      ending.close now s)) ?_
    generalize ({ disk := d, record := r } : Reporting) = s
    induction h generalizing s with
    | nil => rfl
    | cons hagree _ ih =>
        rw [List.foldl_cons, List.foldl_cons, onEvent, onEvent, hagree.summarise rt,
          hagree.applyEvent]
        exact ih _

/-- A task that changed something, with what it wrote in its result. -/
def contentTask (content : String) : Event :=
  ⟨Dict.ofList [("event", .str "runner_on_ok"),
    ("event_data", .map [(.str "host", .str "node1"),
      (.str "res",
        .map [(.str "changed", .scalar (.bool true)), (.str "content", .str content)])])],
    rfl⟩

theorem agree_contentTask (content content' : String) :
    Agree (contentTask content) (contentTask content') where
  name := rfl
  text := by
    simp only [List.forall_mem_cons]
    exact ⟨rfl, rfl, rfl, nofun⟩
  counts := by
    simp only [statsKeys, List.forall_mem_cons]
    exact ⟨rfl, rfl, rfl, rfl, rfl, rfl, nofun⟩
  changed := rfl
  failure := nofun

/-- A line that has the host and the message. -/
def dumpResult : Summary → String
  | .result host _ _ message => host.getD "" ++ ": " ++ message.getD ""
  | .play _ | .task _ _ | .stats _ => ""

/-- What a task wrote is in no line. -/
theorem payload_unseen_content :
    reportedLines .silent dumpResult [contentTask "a secret"] =
      reportedLines .silent dumpResult [contentTask "nothing"] :=
  (payload_unseen .silent dumpResult (.cons (agree_contentTask _ _) .nil)).1

end SeapathWebui.Runs
