/-
  Runs/Relaunch.lean --- launching a run again, from its record.

  Source: `launch` of app/runs/service.py, `RunRecord` of app/runs/models.py, and
  `confirmRelaunch` of app/ui/static/runs.js.

  A request goes into the record of its run, the record through every save of the run and
  of `reconcile`, and the browser makes the next request of it.  The record keeps the
  playbook and the flag whatever happens to the run (`request_of_record`), but it has no
  place for the variables, which go to the run's thread alone.
-/
import SeapathWebui.Runs.History
import SeapathWebui.Runs.Trace
import SeapathWebui.Runs.Variables

set_option autoImplicit false

namespace SeapathWebui.Runs

open SeapathWebui.Foundation SeapathWebui.Inventory

/-! ## Requests -/

/-- The body of `POST /runs`, with the defaults of what it leaves out. -/
structure LaunchBody where
  playbook : String
  check : Bool := false
  suppliedVars : Dict String Value := ∅

/-- The body that a call of `launch` came from. -/
def LaunchCall.body (call : LaunchCall) : LaunchBody where
  playbook := call.playbookId
  check := call.check
  suppliedVars := call.suppliedVars

/-- What `confirmRelaunch` posts. -/
def confirmRelaunch (record : RunRecord) : LaunchBody :=
  { playbook := record.playbookId, check := record.check }

/-- What a launch puts into its record. -/
def launchedRequest (node : Machine) (call : LaunchCall) (entry : PlaybookEntry)
    (commit : Option Hash) : LaunchRequest where
  playbook := entry.playbook
  playbookId := entry.id
  check := call.check
  launchedBy := call.launchedBy
  inventoryCommit := commit
  collectionVersion := node.collectionVersion

/-! ## What a record keeps -/

/-- The part of a record that `launch` filled. -/
def RunRecord.request (r : RunRecord) : LaunchRequest where
  playbook := r.playbook
  playbookId := r.playbookId
  check := r.check
  launchedBy := r.launchedBy
  inventoryCommit := r.inventoryCommit
  collectionVersion := r.collectionVersion

@[simp] theorem newRecord_request (i : RunId) (q : LaunchRequest) :
    (newRecord i q).request = q := rfl

@[simp] theorem markRunning_request (now : Instant) (r : RunRecord) :
    (markRunning now r).request = r.request := rfl

@[simp] theorem finishRecord_request (now : Instant) (o : RunOutcome) (p : RunProgress)
    (r : RunRecord) : (finishRecord now o p r).request = r.request := rfl

@[simp] theorem failRecord_request (now : Instant) (m : String) (p : RunProgress)
    (r : RunRecord) : (failRecord now m p r).request = r.request := rfl

@[simp] theorem interrupt_request (now : Instant) (r : RunRecord) :
    (RunStore.interrupt now r).request = r.request := rfl

@[simp] theorem liveRecord_request (assigned : Bool) (p : RunProgress) (r : RunRecord) :
    (liveRecord assigned p r).request = r.request := by
  unfold liveRecord
  split <;> rfl

/-- The record a request has at hand. -/
def Phase.record? : Phase → Option RunRecord
  | .opening r _ | .writingId r _ | .creating _ r _ | .saving _ _ r | .starting r
  | .executing r _ _ | .appending _ r _ _ | .releasing _ r | .unlinking _ r => some r
  | .idle | .abandoned | .ended => none

/-- Its record is made of this request. -/
def Phase.Carries (q : LaunchRequest) (l : Phase) : Prop := ∀ r, l.record? = some r → r.request = q

theorem Phase.Carries.of_some {q : LaunchRequest} {l : Phase} {r : RunRecord}
    (hl : l.record? = some r) (h : r.request = q) : l.Carries q := by
  intro s hs
  rw [hl] at hs
  rw [← Option.some.inj hs, h]

theorem Phase.Carries.of_none {q : LaunchRequest} {l : Phase} (hl : l.record? = none) :
    l.Carries q := by
  intro s hs
  rw [hl] at hs
  cases hs

theorem afterSave_carries {q : LaunchRequest} {now : Instant} {r : RunRecord}
    (h : r.request = q) (stage : SaveStage) : (afterSave now r stage).Carries q := by
  cases stage <;> exact .of_some rfl h

theorem afterSaveRaised_carries {q : LaunchRequest} {r : RunRecord} (h : r.request = q)
    (stage : SaveStage) : (afterSaveRaised r stage).Carries q := by
  cases stage with
  | create | event => exact .of_some rfl h
  | mark | final => exact .of_none rfl

/-- Step lemma: once it is launched, a request keeps what it was launched with. -/
theorem requestStep_carries {i : RunId} {a : Action} {d d' : Disk} {l l' : Phase}
    {q : LaunchRequest} (hidle : l ≠ .idle) (hl : l.Carries q)
    (h : requestStep i a d l = some (d', l')) : l' ≠ .idle ∧ l'.Carries q := by
  have hown : ∀ r, l.record? = some r → r.request = q := hl
  cases RequestStep.of_eq_some h with
  | launch => exact absurd rfl hidle
  | create now op d r inventory =>
      cases op <;> exact ⟨by rintro ⟨⟩, .of_some rfl (hown r rfl)⟩
  | replace now stage d r =>
      refine ⟨?_, afterSave_carries (hown r rfl) stage⟩
      cases stage <;> rintro ⟨⟩
  | failSave stage op d r =>
      refine ⟨?_, afterSaveRaised_carries (hown r rfl) stage⟩
      cases stage <;> rintro ⟨⟩
  | event line p d r before assigned =>
      have hrecord := hown r rfl
      exact ⟨by rintro ⟨⟩, .of_some rfl (by rwa [liveRecord_request])⟩
  | refuse | failOpening | failWriting | failStart | foreign | unlink | failUnlink =>
      exact ⟨by rintro ⟨⟩, .of_none rfl⟩
  | _ =>
      have hrecord := hown _ rfl
      exact ⟨by rintro ⟨⟩, .of_some rfl hrecord⟩

/-- A launch that succeeds is of an entry that accepts the variables, and its record is made of
the call. -/
theorem request_of_launch (rt : Runtime) {node : Machine} {call : LaunchCall} {g : Schedule}
    {s : Repo} {d d' : Disk} {launched : RunRecord} {accepted : Dict String Value}
    (h : launch rt node call g s d = .ok (d', launched, accepted)) :
    ∃ entry commit, Catalogue.get call.playbookId = some entry ∧
      launched.request = launchedRequest node call entry commit ∧
      acceptedVariables entry call.suppliedVars = .ok accepted := by
  obtain ⟨entry, checked, state, hentry, -, hvet, -, hstart⟩ := launch_stages rt h
  obtain ⟨rfl, -, -⟩ := start_eq_ok hstart
  exact ⟨entry, state.commit, hentry, rfl, (vet_eq_ok hvet).2⟩

/-! ## Whole histories -/

section

variable {ι : Type*} (clock : ι → Instant) (t : ι) (q : LaunchRequest)

/-- What `reconcile` is about to save of this run is made of the request. -/
def Service.Carries (i : RunId) (q : LaunchRequest) : Service → Prop
  | .closing _ r _ _ => r.id = i → r.request = q
  | .stopped | .reconciling _ _ | .unlocking _ | .serving => True

/-- The request is launched, and its run is made of it wherever it stands. -/
structure World.Carries (w : World ι) : Prop where
  launched : w.locals t ≠ .idle
  phase : (w.locals t).Carries q
  record : ∀ r, w.shared.disk.record (newRunId (clock t)) = some r → r.request = q
  service : w.shared.service.Carries (newRunId (clock t)) q

variable {clock t q}

/-- A step of a request saves its own record, and what it saves is made of the request. -/
theorem request_carries [DecidableEq ι] (hids : Function.Injective fun t => newRunId (clock t))
    {w w' : World ι} {u : ι} {a : Action} (hinv : w.Invariant clock)
    (hw : w.Carries clock t q) (h : w.advance (threadStep clock) u a = some w') :
    w'.Carries clock t q := by
  obtain ⟨n, l, hact, rfl⟩ := Config.advance_eq_some.mp h
  obtain ⟨-, d, hreq, rfl⟩ := threadStep_eq_some.mp hact
  rcases eq_or_ne t u with rfl | hne
  · obtain ⟨hidle, hphase⟩ := requestStep_carries hw.launched hw.phase hreq
    refine ⟨by simpa using hidle, by simpa using hphase, fun r hr => ?_, trivial⟩
    rcases requestStep_record hreq with hsame | ⟨now, stage, s, hl, rfl, -⟩
    · exact hw.record r ((hsame _).symm.trans hr)
    · have hholds := hinv.requests t
      rw [hl] at hholds
      obtain ⟨hid, -, -, -, -, htemporary⟩ := hholds
      have hwritten : w.shared.disk.temporary s.id = some s := by
        rw [hid]
        exact htemporary rfl
      have hsaved := Disk.record_replaceRecord_self hwritten
      rw [← hid] at hr
      obtain rfl := Option.some.inj (hr.symm.trans hsaved)
      exact hw.phase r (by rw [hl]; rfl)
  · have hids' : newRunId (clock u) ≠ newRunId (clock t) := fun heq => hne (hids heq).symm
    refine ⟨?_, ?_, fun r hr => ?_, trivial⟩
    · simpa [Function.update_of_ne hne] using hw.launched
    · simpa [Function.update_of_ne hne] using hw.phase
    · exact hw.record r ((requestStep_frame (hinv.requests u) hreq hids').symm.trans hr)

/-- What `reconcile` saves is a record that it read, closed. -/
theorem reconcile_carries {w : World ι} {now : Instant} {n : Node} (hinv : w.Invariant clock)
    (hw : w.Carries clock t q) (h : reconcileStep now w.shared = some n) :
    World.Carries clock t q ⟨n, w.locals⟩ := by
  have hrecord : ∀ r, n.disk.record (newRunId (clock t)) = some r → r.request = q := by
    intro r hr
    rcases reconcileStep_record h with hsame | ⟨s, todo, recovered, hs, hd⟩
    · exact hw.record r ((hsame _).symm.trans hr)
    · have hholds : (Service.closing .replace s todo recovered).Holds w.shared.disk :=
        hs ▸ hinv.service
      have hcarries : (Service.closing .replace s todo recovered).Carries (newRunId (clock t)) q :=
        hs ▸ hw.service
      obtain ⟨-, -, -, -, -, htemporary⟩ := hholds
      rw [hd] at hr
      rcases eq_or_ne s.id (newRunId (clock t)) with hid | hne
      · have hsaved := Disk.record_replaceRecord_self (htemporary rfl)
        rw [hid] at hsaved
        rw [hid, hsaved] at hr
        exact Option.some.inj hr ▸ hcarries hid
      · rw [Disk.record_replaceRecord_of_ne _ hne] at hr
        exact hw.record r hr
  refine ⟨hw.launched, hw.phase, hrecord, ?_⟩
  obtain ⟨shared, locals⟩ := w
  cases ReconcileStep.of_eq_some h with
  | serve | unlock | skip | replace | unlink => trivial
  | write => exact hw.service
  | @close d r todo recovered hu =>
      intro hid
      have hread : d.record r.id = some r := hinv.service.1 r List.mem_cons_self
      rw [RunStore.interrupt_id] at hid
      rw [interrupt_request]
      exact hw.record r (hid ▸ hread)

/-- Step lemma. -/
theorem worldStep_carries [DecidableEq ι] (hids : Function.Injective fun t => newRunId (clock t))
    {w w' : World ι} {label : Label ι} (hinv : w.Invariant clock) (hw : w.Carries clock t q)
    (h : worldStep clock w label = some w') : w'.Carries clock t q := by
  rcases worldStep_cases h with ⟨u, a, rfl, hstep⟩ | ⟨rfl, _, rfl⟩ | ⟨_, rfl, hs, rfl⟩ |
    ⟨now, n, rfl, hn, rfl⟩ | ⟨rfl, hs, rfl⟩
  · exact request_carries hids hinv hw hstep
  · rcases Phase.kill_eq (w.locals t) with ⟨-, hidle⟩ | hkilled
    · exact absurd hidle hw.launched
    · exact ⟨by simp [hkilled], by simpa [hkilled] using .of_none rfl, hw.record, trivial⟩
  · exact ⟨hw.launched, hw.phase, hw.record, trivial⟩
  · exact reconcile_carries hinv hw hn
  · exact ⟨hw.launched, hw.phase, hw.record, trivial⟩

/-- When it is launched, a request has no record yet. -/
theorem launch_carries [DecidableEq ι] {w w' : World ι} {inventory : String}
    (hfresh : w.Fresh clock)
    (h : worldStep clock w (.request t (.launch q inventory)) = some w') :
    w'.Carries clock t q := by
  obtain ⟨n, l, hact, rfl⟩ := Config.advance_eq_some.mp h
  obtain ⟨-, d, hreq, rfl⟩ := threadStep_eq_some.mp hact
  have hidle : w.locals t = .idle := by
    cases hl : w.locals t <;> simp only [hl, requestStep, reduceCtorEq] at hreq
    rfl
  rw [hidle] at hreq
  obtain ⟨rfl, rfl⟩ := Prod.mk.inj (Option.some.inj hreq)
  refine ⟨by simp, by simpa using .of_some rfl rfl, fun r hr => ?_, trivial⟩
  rw [hfresh t (by rw [hidle]; rfl)] at hr
  cases hr

/-- Run lemma: in every history, whatever record there is of a run is made of the request it
was launched with. -/
theorem request_of_record [DecidableEq ι] (hids : Function.Injective fun t => newRunId (clock t))
    {before after : List (Label ι)} {inventory : String} {w : World ι}
    (h : Reaches clock {} (before ++ .request t (.launch q inventory) :: after) w)
    {record : RunRecord} (hrecord : w.shared.disk.record (newRunId (clock t)) = some record) :
    record.request = q := by
  obtain ⟨u, hbefore, hlater⟩ := execute_append_eq_some.mp h
  obtain ⟨v, hlaunch, hafter⟩ := execute_cons_eq_some.mp hlater
  have hinv := invariant_of_reaches hbefore
  have hv : v.Invariant clock ∧ v.Carries clock t q :=
    ⟨worldStep_invariant hinv hlaunch, launch_carries (fresh_of_reaches hids hbefore) hlaunch⟩
  have hw := invariant_run (I := fun v : World ι => v.Invariant clock ∧ v.Carries clock t q)
    (fun _ _ _ hI hstep =>
      ⟨worldStep_invariant hI.1 hstep, worldStep_carries hids hI.1 hI.2 hstep⟩) hv hafter
  exact hw.2.record record hrecord

end

/-! ## Relaunching -/

/-- What `confirmRelaunch` posts for this record is what was posted for the call: the same body,
so that a flag not to reboot is there again, and the variables are accepted again. -/
structure Repeats (call : LaunchCall) (record : RunRecord) : Prop where
  body : confirmRelaunch record = call.body
  skipsReboot : ∀ flag, call.suppliedVars.get? "skip_reboot_setup" = some flag →
    (confirmRelaunch record).suppliedVars.get? "skip_reboot_setup" = some flag
  accepted : ∀ entry, Catalogue.get (confirmRelaunch record).playbook = some entry →
    Returns (acceptedVariables entry (confirmRelaunch record).suppliedVars)

/-- A run of an entry with a required variable is refused when it is relaunched. -/
theorem relaunch_refused {record : RunRecord} {entry : PlaybookEntry}
    (hentry : Catalogue.get (confirmRelaunch record).playbook = some entry) {spec : VariableSpec}
    (hspec : spec ∈ entry.variableSpecs) (hrequired : spec.required = true) :
    ¬ Returns (acceptedVariables entry (confirmRelaunch record).suppliedVars) := by
  have hnames := nodup_variableSpecs (List.mem_of_find?_eq_some hentry)
  intro haccepted
  have hmissing : ¬ Missing entry (confirmRelaunch record).suppliedVars spec.name :=
    ((returns_acceptedVariables hnames).mp haccepted spec.name).2
  exact hmissing ⟨List.not_mem_nil, spec, hspec, rfl, hrequired⟩

section

variable {ι : Type*} {clock : ι → Instant} {t : ι} {rt : Runtime} {node : Machine}
  {call : LaunchCall} {g : Schedule} {s : Repo} {d d' : Disk} {launched record : RunRecord}
  {accepted : Dict String Value} {before after : List (Label ι)} {inventory : String}
  {w : World ι}

/-- The playbook and the flag are posted again, the variables never. -/
theorem confirmRelaunch_of_launch [DecidableEq ι]
    (hids : Function.Injective fun t => newRunId (clock t))
    (hlaunch : launch rt node call g s d = .ok (d', launched, accepted))
    (hreach : Reaches clock {} (before ++ .request t (.launch launched.request inventory) :: after)
      w)
    (hrecord : w.shared.disk.record (newRunId (clock t)) = some record) :
    confirmRelaunch record = { playbook := call.playbookId, check := call.check } := by
  obtain ⟨entry, commit, hentry, hrequest, -⟩ := request_of_launch rt hlaunch
  have hkept : record.request = launchedRequest node call entry commit :=
    (request_of_record hids hreach hrecord).trans hrequest
  have hid : entry.id = call.playbookId := by simpa using List.find?_some hentry
  have hplaybook : record.playbookId = call.playbookId :=
    (congrArg LaunchRequest.playbookId hkept).trans hid
  have hcheck : record.check = call.check := congrArg LaunchRequest.check hkept
  rw [confirmRelaunch, hplaybook, hcheck]

/-- **For every launch that succeeds, and every history of the service and of any other requests
in which it is launched, relaunching its record repeats the call exactly if the call has no
variables.** -/
theorem relaunch_repeats_iff [DecidableEq ι]
    (hids : Function.Injective fun t => newRunId (clock t))
    (hlaunch : launch rt node call g s d = .ok (d', launched, accepted))
    (hreach : Reaches clock {} (before ++ .request t (.launch launched.request inventory) :: after)
      w)
    (hrecord : w.shared.disk.record (newRunId (clock t)) = some record) :
    Repeats call record ↔ call.suppliedVars = ∅ := by
  have hposted := confirmRelaunch_of_launch hids hlaunch hreach hrecord
  constructor
  · intro h
    have hbody := h.body
    rw [hposted] at hbody
    exact (congrArg LaunchBody.suppliedVars hbody).symm
  · intro hempty
    obtain ⟨entry, -, hentry, -, haccepted⟩ := request_of_launch rt hlaunch
    refine ⟨?_, fun flag hflag => ?_, fun other hother => ?_⟩
    · rw [hposted, LaunchCall.body, hempty]
    · rwa [hposted, ← hempty]
    · rw [hposted] at hother ⊢
      obtain rfl := Option.some.inj (hentry.symm.trans hother)
      exact ⟨accepted, hempty ▸ haccepted⟩

end

/-! ### A convergence, relaunched -/

/-- What a convergence of the first repository puts into its record. -/
def convergeRequest : LaunchRequest :=
  launchedRequest { selfTrusted := true } converge setupMain firstRepo.head

/-- With variables that are accepted, the convergence is launched on the first repository. -/
theorem launch_firstRepo {supplied accepted : Dict String Value}
    (hvars : acceptedVariables setupMain supplied = .ok accepted) :
    ∃ d launched, launched.request = convergeRequest ∧
      launch behindRuntime { selfTrusted := true } { converge with suppliedVars := supplied } {}
        firstRepo {} = .ok (d, launched, accepted) := by
  have hhead : ({} : Schedule).atRecordHead behindRuntime firstRepo = firstRepo := by
    rw [Schedule.atRecordHead, Schedule.atRecordFile, Schedule.atCheckHead, Schedule.atCheckFile,
      land_nil, land_nil, land_nil, land_nil]
  have hcheck : (({} : Schedule).atCheckFile behindRuntime firstRepo).file =
      some (behindFile "192.168.200.1") := by
    rw [Schedule.atCheckFile, land_nil, file_firstRepo]
  have hrecord : (({} : Schedule).atRecordFile behindRuntime firstRepo).file =
      some (behindFile "192.168.200.1") := by
    rw [Schedule.atRecordFile, Schedule.atCheckHead, land_nil, land_nil, hcheck]
  obtain ⟨d, launched, hlaunch⟩ :=
    launch_converge_with first_mem_gateways first_mem_gateways hcheck hrecord hvars
  obtain ⟨entry, commit, hentry, hrequest, -⟩ := request_of_launch behindRuntime hlaunch
  obtain rfl : entry = setupMain := (Option.some.inj hentry).symm
  have hcommit : commit = firstRepo.head := by
    rw [← hhead, ← (launch_eq_ok behindRuntime hlaunch).2.1]
    exact (congrArg LaunchRequest.inventoryCommit hrequest).symm
  exact ⟨d, launched, by rw [hrequest, hcommit]; rfl, hlaunch⟩

/-- A convergence by the first of two requests, from its launch to its end. -/
def convergence : List (Label Bool) :=
  [.start [], .reconcile default] ++
  .request false (.launch convergeRequest "all: {}\n") ::
    (List.replicate 12 (.request false (.proceed default)) ++
    [.request false (.finish default default)] ++
    List.replicate 4 (.request false (.proceed default)))

/-- It leaves a record that is finished. -/
theorem reaches_convergence :
    ∃ (w : World Bool) (record : RunRecord), Reaches twoRequests {} convergence w ∧
      w.shared.disk.record (newRunId (twoRequests false)) = some record ∧
      record.unfinished = false :=
  have hreach : Reaches twoRequests {} convergence _ := rfl
  ⟨_, _, hreach, rfl, rfl⟩

theorem relaunch_repeats_iff_converge :
    ∃ d launched accepted w record,
      launch behindRuntime { selfTrusted := true } converge {} firstRepo {} =
        .ok (d, launched, accepted) ∧ launched.request = convergeRequest ∧
      Reaches twoRequests {} convergence w ∧
      w.shared.disk.record (newRunId (twoRequests false)) = some record ∧
      (Repeats converge record ↔ converge.suppliedVars = ∅) := by
  have hvars : acceptedVariables setupMain ∅ = .ok ∅ := rfl
  obtain ⟨d, launched, hrequest, hlaunch⟩ := launch_firstRepo hvars
  obtain ⟨w, record, hreach, hrecord, -⟩ := reaches_convergence
  refine ⟨d, launched, ∅, w, record, hlaunch, hrequest, hreach, hrecord, ?_⟩
  rw [convergence, ← hrequest] at hreach
  exact relaunch_repeats_iff twoRequests_injective hlaunch hreach hrecord

/-- The flag not to reboot is lost. -/
theorem relaunch_reboots :
    ¬ ∀ (call : LaunchCall) (d : Disk) (launched record : RunRecord)
        (accepted : Dict String Value) (w : World Bool),
      launch behindRuntime { selfTrusted := true } call {} firstRepo {} =
        .ok (d, launched, accepted) → launched.request = convergeRequest →
      Reaches twoRequests {} convergence w →
      w.shared.disk.record (newRunId (twoRequests false)) = some record →
      record.unfinished = false → Repeats call record := by
  intro hclaim
  have hvars : acceptedVariables setupMain
      (Dict.ofList [("skip_reboot_setup", .scalar (.bool true))]) =
        .ok (Dict.ofList [("skip_reboot_setup", .scalar (.bool true))]) := rfl
  obtain ⟨d, launched, hrequest, hlaunch⟩ := launch_firstRepo hvars
  obtain ⟨w, record, hreach, hrecord, hfinished⟩ := reaches_convergence
  have hrepeats := hclaim _ d launched record _ w hlaunch hrequest hreach hrecord hfinished
  cases hrepeats.skipsReboot (.scalar (.bool true)) rfl

end SeapathWebui.Runs
