/-
  Runs/Trace.lean --- whether a run's record and its inventory belong together.

  The commit a record names is HEAD as `state()` reads it; the inventory in the run
  directory is the file as `raw()` reads it, later.  `truthful_iff_undisturbed` says
  that the one is the content of the other, whatever saves land in between and
  afterwards, exactly if the file was not given another text between the two reads,
  and has no line ends that reading it as text would change.
-/
import SeapathWebui.Inventory.FailedWrites
import SeapathWebui.Inventory.Validity
import SeapathWebui.Runs.Launch

set_option autoImplicit false

namespace SeapathWebui.Runs

open SeapathWebui.Foundation SeapathWebui.Inventory

variable (rt : Runtime)

/-! ## What saves do to the repository -/

/-- Every file starts with a comment. -/
theorem toList_header : ∃ rest, header.toList = '#' :: rest := by
  have hfirst : "# SEAPATH inventory, managed by seapath-webui.\n".toList = '#' :: _ :=
    String.toList_ofList
  unfold header
  repeat rw [String.toList_append]
  simp only [hfirst, List.cons_append]
  exact ⟨_, rfl⟩

/-- What is rendered is not blank. -/
theorem render_not_blank {candidate : Inventory} {text : String}
    (h : render rt candidate = .ok text) :
    Text.strip (Text.universalNewlines text) ≠ "" := by
  obtain ⟨rest, hrest⟩ := toList_header
  unfold render at h
  split at h
  · obtain rfl := Except.ok.inj h
    have hchars : (Text.universalNewlines (documentText rt (standaloneDocument candidate))).toList =
        '#' :: Text.newlines
          (rest ++ "---\n".toList ++ (rt.dump (standaloneDocument candidate)).toList) := by
      rw [Text.universalNewlines, String.toList_ofList, documentText, String.toList_append,
        String.toList_append, hrest]
      rfl
    exact Text.strip_ne_empty hchars (by decide)
  · cases h

/-- What lies between two states of the repository if only saves landed: the log has
grown, a file that was the one of HEAD still is, and one that was not blank still is
not. -/
structure Landed (s t : Repo) : Prop where
  grown : ∃ newer, t.log = newer ++ s.log
  inStep : s.file = s.headContent → t.file = t.headContent
  notBlank : Text.strip s.read ≠ "" → Text.strip t.read ≠ ""

namespace Landed

variable {rt} {s t u : Repo}

theorem of_same (hlog : t.log = s.log) (hfile : t.file = s.file) : Landed s t where
  grown := ⟨[], hlog⟩
  inStep h := by rw [hfile, h, Repo.headContent, Repo.headContent, hlog]
  notBlank h := by
    rw [Repo.read, hfile]
    exact h

protected theorem trans (h : Landed s t) (h' : Landed t u) : Landed s u where
  grown := by
    obtain ⟨newer, hlog⟩ := h.grown
    obtain ⟨newer', hlog'⟩ := h'.grown
    exact ⟨newer' ++ newer, by rw [hlog', hlog, List.append_assoc]⟩
  inStep hs := h'.inStep (h.inStep hs)
  notBlank hs := h'.notBlank (h.notBlank hs)

/-- One call of `commit` that meets no failure. -/
theorem commit {q : WriteRequest} {hash : Hash} (hfresh : s.Fresh hash)
    (hq : Text.strip (Text.universalNewlines q.content) ≠ "") :
    Landed s (Inventory.commit s q hash {}).1 := by
  by_cases hp : Operation.PassesChecks s q {}
  · obtain ⟨t, hlog, hfile, -, hcommit⟩ := Operation.commit_of_passes hash hp
    rw [hcommit]
    split
    · exact of_same hlog hfile
    · -- the file has the given text; what is left to see is HEAD
      have hnotBlank : ∀ u : Repo, u.file = some q.content → Text.strip u.read ≠ "" := by
        intro u hu
        rwa [Repo.read, hu, Option.getD_some]
      by_cases hnothing : t.headContent = some q.content
      · obtain ⟨-, hlog', hfile'⟩ :=
          Operation.writeAndCommit_of_fails t q hash (f := {}) (Or.inr hnothing)
        refine ⟨⟨[], hlog'.trans hlog⟩, fun _ => ?_, fun _ => hnotBlank _ hfile'⟩
        rw [hfile', ← hnothing, Repo.headContent, Repo.headContent, hlog']
      · have hfresh' : t.Fresh hash := by simpa only [Repo.Fresh, hlog] using hfresh
        obtain ⟨u, c, hlog', -, hcontent, hfile', hresult⟩ :=
          Operation.writeAndCommit_of_succeeds (f := {}) rfl hnothing hfresh'
        rw [hresult]
        refine ⟨⟨[c], by rw [hlog', hlog, List.singleton_append]⟩, fun _ => ?_,
          fun _ => hnotBlank _ hfile'⟩
        rw [hfile', Repo.headContent, hlog']
        exact hcontent.symm
  · obtain ⟨-, hlog, hfile⟩ := Operation.commit_of_not_passes hash hp
    exact of_same hlog hfile

/-- Step lemma: one save. -/
theorem landOne (s : Repo) (sv : Save) : Landed s (landOne rt s sv) := by
  unfold Runs.landOne
  split
  · rename_i hfresh
    rcases save_cases rt s sv.candidate sv.author sv.expectedHead sv.message sv.hash {} with
      hsame | ⟨q, -, hrender, hcommit⟩
    · rw [hsame]
      exact of_same rfl rfl
    · rw [hcommit]
      exact commit hfresh (render_not_blank rt hrender)
  · exact of_same rfl rfl

/-- Run lemma: any saves, one after the other. -/
theorem land (saves : List Save) : ∀ s : Repo, Landed s (land rt s saves) := by
  induction saves with
  | nil => exact fun s => of_same rfl rfl
  | cons sv rest ih => exact fun s => (landOne s sv).trans (ih _)

/-- HEAD stays in the log, with its content. -/
theorem contentAt_head (h : Landed s t) {text : String} (hs : s.headContent = some text) :
    ∃ commit, s.head = some commit ∧ t.contentAt commit = some text := by
  obtain ⟨c, hc, hcontent⟩ := Option.bind_eq_some_iff.mp hs
  obtain ⟨newer, hlog⟩ := h.grown
  have hmem : c ∈ t.log := hlog ▸ List.mem_append_right _ (List.mem_of_mem_head? hc)
  exact ⟨c.hash, by rw [Repo.head, hc, Option.map_some],
    (Repo.contentAt_of_mem hmem).trans hcontent⟩

end Landed

/-! ## What a launch that succeeds went through -/

/-- An inventory that is not there blocks every entry of the catalogue. -/
theorem blocking_of_not_seeded {entry : PlaybookEntry} {state : InventoryState} {node : Machine}
    (hrequires : .inventoryValid ∈ entry.requires) (hstate : state.seeded = false) :
    blocking entry (unmetPreconditions state node.selfTrusted) node ≠ [] := by
  have hlookup : List.lookup .inventoryValid (unmetPreconditions state node.selfTrusted) =
      some "There is no inventory yet. Fill in the machine's form first." := by
    simp only [unmetPreconditions, hstate, true_or, if_true]
    rfl
  have hunmet : (entry.requires.filterMap fun c =>
      List.lookup c (unmetPreconditions state node.selfTrusted)) ≠ [] :=
    List.ne_nil_of_mem (List.mem_filterMap.mpr ⟨_, hrequires, hlookup⟩)
  unfold blocking
  split
  · exact List.cons_ne_nil _ _
  · exact hunmet

/-- The state of a blank file, and the commit of any other. -/
theorem stateOf_eq_ok {document : String} {head : Option Hash} {state : InventoryState}
    (h : stateOf rt document head = .ok state) :
    (Text.strip document = "" → state.seeded = false) ∧
      (Text.strip document ≠ "" → state.commit = head) := by
  unfold stateOf at h
  split at h
  · rename_i hblank
    obtain rfl := Except.ok.inj h
    exact ⟨fun _ => rfl, fun hnot => (hnot hblank).elim⟩
  · rename_i hnot
    refine ⟨fun hblank => (hnot hblank).elim, fun _ => ?_⟩
    split at h
    · obtain rfl := Except.ok.inj h
      rfl
    · cases h
    · split at h
      · cases h
      · obtain rfl := Except.ok.inj h
        rfl

/-- A call that is vetted meets the preconditions, and its entry accepts its variables. -/
theorem vet_eq_ok {node : Machine} {call : LaunchCall} {entry : PlaybookEntry}
    {state : InventoryState} {extraVars : Dict String Value}
    (h : vet node call entry state = .ok extraVars) :
    blocking entry (unmetPreconditions state node.selfTrusted) node = [] ∧
      acceptedVariables entry call.suppliedVars = .ok extraVars := by
  unfold vet at h
  split at h
  · cases h
  · rename_i hblocking
    split at h
    · cases h
    · exact ⟨hblocking, h⟩

/-- Nothing is launched on a blank inventory. -/
theorem not_blank_of_vet {node : Machine} {call : LaunchCall} {entry : PlaybookEntry}
    {document : String} {head : Option Hash} {state : InventoryState}
    {extraVars : Dict String Value} (hentry : Catalogue.get call.playbookId = some entry)
    (hstate : stateOf rt document head = .ok state)
    (h : vet node call entry state = .ok extraVars) : Text.strip document ≠ "" := by
  intro hblank
  exact blocking_of_not_seeded (inventoryValid_mem_requires hentry)
    ((stateOf_eq_ok rt hstate).1 hblank) (vet_eq_ok h).1

/-- Past `acquire`, the run directory has the record and the inventory. -/
theorem start_eq_ok {call : LaunchCall} {record record' : RunRecord} {inventory : String}
    {d d' : Disk} (h : start call record inventory d = .ok (d', record')) :
    record' = markRunning call.startedAt record ∧ d'.record record.id = some record' ∧
      d'.inventoryOf record.id = some inventory := by
  unfold start at h
  split at h
  · cases h
  · rename_i locked _
    obtain ⟨rfl, rfl⟩ := Prod.mk.inj (Except.ok.inj h)
    have hdirectory := RunStore.hasDirectory_create locked record inventory
    refine ⟨rfl, RunStore.record_save (r := markRunning call.startedAt record) hdirectory, ?_⟩
    rw [RunStore.inventoryOf_save]
    exact RunStore.inventoryOf_create locked record inventory

/-- Where `launch` returns, each of its stages did. -/
theorem launch_stages {node : Machine} {call : LaunchCall} {g : Schedule} {s : Repo} {d d' : Disk}
    {record : RunRecord} {extraVars : Dict String Value}
    (h : launch rt node call g s d = .ok (d', record, extraVars)) :
    ∃ entry checked state, Catalogue.get call.playbookId = some entry ∧
      stateOf rt (g.atCheckFile rt s).read (g.atCheckHead rt s).head = .ok checked ∧
      vet node call entry checked = .ok extraVars ∧
      stateOf rt (g.atRecordFile rt s).read (g.atRecordHead rt s).head = .ok state ∧
      start call (launchRecord node call entry state.commit) (g.atCopy rt s).read d =
        .ok (d', record) := by
  unfold launch at h
  split at h
  · cases h
  rename_i entry hentry
  split at h
  · cases h
  rename_i checked hchecked
  split at h
  · cases h
  rename_i vars hvet
  split at h
  · cases h
  rename_i state hstate
  simp only at h
  split at h
  · cases h
  rename_i disk started hstart
  obtain ⟨rfl, rfl, rfl⟩ : disk = d' ∧ started = record ∧ vars = extraVars := by
    simpa using h
  exact ⟨entry, checked, state, hentry, hchecked, hvet, hstate, hstart⟩

/-- A launch that succeeds recorded HEAD as it was read after a file that is not blank,
and copied the file as it was read last. -/
theorem launch_eq_ok {node : Machine} {call : LaunchCall} {g : Schedule} {s : Repo} {d d' : Disk}
    {record : RunRecord} {extraVars : Dict String Value}
    (h : launch rt node call g s d = .ok (d', record, extraVars)) :
    Text.strip (g.atRecordHead rt s).read ≠ "" ∧
      record.inventoryCommit = (g.atRecordHead rt s).head ∧
      d'.record record.id = some record ∧
      d'.inventoryOf record.id = some (g.atCopy rt s).read := by
  obtain ⟨entry, checked, state, hentry, hchecked, hvet, hstate, hstart⟩ := launch_stages rt h
  obtain ⟨rfl, hrecord, hinventory⟩ := start_eq_ok hstart
  have hcheck := not_blank_of_vet rt hentry hchecked hvet
  -- the file was not blank when it was checked, and saves do not make it so
  have hfile : Text.strip (g.atRecordFile rt s).read ≠ "" :=
    (Landed.land g.beforeRecordFile _).notBlank
      ((Landed.land g.beforeCheckHead _).notBlank hcheck)
  exact ⟨(Landed.land g.beforeRecordHead _).notBlank hfile, (stateOf_eq_ok rt hstate).2 hfile,
    hrecord, hinventory⟩

/-! ## The trace -/

/-- The run's record names a commit, and the inventory in the run's directory is what that
commit has. -/
def Truthful (s : Repo) (d : Disk) (i : RunId) : Prop :=
  ∃ record commit text, d.record i = some record ∧ record.inventoryCommit = some commit ∧
    d.inventoryOf i = some text ∧ s.contentAt commit = some text

/-- As HEAD is read for the record the file has newlines only, and as the file is copied it
reads the same. -/
def Schedule.Undisturbed (g : Schedule) (s : Repo) : Prop :=
  Text.NewlinesOnly ((g.atRecordHead rt s).file.getD "") ∧
    (g.atCopy rt s).read = (g.atRecordHead rt s).read

instance (g : Schedule) (s : Repo) : Decidable (g.Undisturbed rt s) :=
  inferInstanceAs (Decidable (_ ∧ _))

/-- The trace of a launch is truthful, now and after any later saves, exactly if what was
copied is the file as it was when HEAD was read. -/
theorem truthful_iff_copied {node : Machine} {call : LaunchCall} {g : Schedule} {s : Repo}
    {d d' : Disk} {record : RunRecord} {extraVars : Dict String Value}
    (hs : s.file = s.headContent)
    (h : launch rt node call g s d = .ok (d', record, extraVars)) (later : List Save) :
    Truthful (land rt (g.atCopy rt s) later) d' record.id ↔
      (g.atRecordHead rt s).file = some (g.atCopy rt s).read := by
  obtain ⟨hnotBlank, hcommit, hrecord, hinventory⟩ := launch_eq_ok rt h
  have hstep : (g.atRecordHead rt s).file = (g.atRecordHead rt s).headContent :=
    (Landed.land g.beforeRecordHead _).inStep <| (Landed.land g.beforeRecordFile _).inStep <|
      (Landed.land g.beforeCheckHead _).inStep <| (Landed.land g.beforeCheckFile _).inStep hs
  obtain ⟨text, htext⟩ : ∃ text, (g.atRecordHead rt s).file = some text := by
    refine Option.ne_none_iff_exists'.mp fun hnone => hnotBlank ?_
    rw [Repo.read, hnone]
    rfl
  have hlater : Landed (g.atRecordHead rt s) (land rt (g.atCopy rt s) later) :=
    (Landed.land g.beforeCopy _).trans (Landed.land later _)
  obtain ⟨commit, hhead, hcontent⟩ := hlater.contentAt_head (hstep.symm.trans htext)
  rw [htext]
  constructor
  · rintro ⟨record', commit', text', hrecord', hcommit', hinventory', hcontent'⟩
    obtain rfl := Option.some.inj (hrecord.symm.trans hrecord')
    obtain rfl : commit = commit' :=
      Option.some.inj (hhead.symm.trans (hcommit.symm.trans hcommit'))
    rw [← hcontent, hcontent', ← hinventory', hinventory]
  · intro heq
    exact ⟨record, commit, text, hrecord, hcommit.trans hhead, hinventory.trans heq.symm, hcontent⟩

/-- For every launch, on every repository whose file is the one of HEAD, whatever saves land
during it and after it: the inventory in the run's directory is the content of the commit the
record names if and only if between the read of HEAD for the record and the copy of the file
no save gave the file another text, and the file had newlines only. -/
theorem truthful_iff_undisturbed {node : Machine} {call : LaunchCall} {g : Schedule} {s : Repo}
    {d d' : Disk} {record : RunRecord} {extraVars : Dict String Value}
    (hs : s.file = s.headContent)
    (h : launch rt node call g s d = .ok (d', record, extraVars)) (later : List Save) :
    Truthful (land rt (g.atCopy rt s) later) d' record.id ↔ g.Undisturbed rt s := by
  rw [truthful_iff_copied rt hs h later]
  unfold Schedule.Undisturbed
  constructor
  · intro hfile
    have hplain : Text.NewlinesOnly (g.atCopy rt s).read := Text.newlinesOnly_universalNewlines _
    have hread : (g.atRecordHead rt s).read = (g.atCopy rt s).read := by
      rw [Repo.read, hfile, Option.getD_some, Text.universalNewlines_eq_self_iff.mpr hplain]
    rw [hfile, Option.getD_some]
    exact ⟨hplain, hread.symm⟩
  · rintro ⟨hplain, hread⟩
    obtain ⟨hnotBlank, -⟩ := launch_eq_ok rt h
    cases hfile : (g.atRecordHead rt s).file with
    | none =>
        rw [Repo.read, hfile] at hnotBlank
        exact (hnotBlank rfl).elim
    | some text =>
        rw [hfile, Option.getD_some] at hplain
        rw [hread, Repo.read, hfile, Option.getD_some,
          Text.universalNewlines_eq_self_iff.mpr hplain]

/-! ### A save before the record, and one after it -/

/-- A machine, by its gateway. -/
def behind (gateway : String) : NodeConfig where
  ansibleHost := "192.168.200.125"
  networkInterface := "eno1"
  gatewayAddr := some gateway

/-- Its inventory. -/
def behindInventory (gateway : String) : Inventory := singleHost "node1" (behind gateway)

/-- Its file, without the comments. -/
def behindText (gateway : String) : String :=
  "all:\n" ++
  "  hosts:\n" ++
  "    node1:\n" ++
  "      ansible_host: 192.168.200.125\n" ++
  "      network_interface: eno1\n" ++
  "      subnet: 24\n" ++
  "      gateway_addr: " ++ gateway ++ "\n" ++
  fixedLines ++
  "standalone_machine:\n" ++
  "  hosts:\n" ++
  "    node1: null\n" ++
  "hypervisors:\n" ++
  "  hosts:\n" ++
  "    node1: null\n" ++
  "cluster_machines: null\n" ++
  "observers: null\n"

/-- The two gateways. -/
def gateways : List String := ["192.168.200.1", "192.168.200.254"]

theorem first_mem_gateways : "192.168.200.1" ∈ gateways := List.mem_cons_self

theorem second_mem_gateways : "192.168.200.254" ∈ gateways :=
  List.mem_cons_of_mem _ List.mem_cons_self

/-- The library, knowing the machine behind either. -/
def behindRuntime : Runtime :=
  knowing (gateways.map fun gateway =>
    (standaloneDocument (behindInventory gateway), behindText gateway))

/-- The file of the machine. -/
def behindFile (gateway : String) : String :=
  documentText behindRuntime (standaloneDocument (behindInventory gateway))

theorem dump_behind : ∀ gateway ∈ gateways,
    behindRuntime.dump (standaloneDocument (behindInventory gateway)) = behindText gateway := by
  decide +kernel

theorem beginsWithAll_behindText (gateway : String) : BeginsWithAll (behindText gateway) := by
  unfold behindText
  simp only [String.append_assoc]
  exact ⟨_, rfl⟩

theorem readsBack_behind : ∀ gateway ∈ gateways,
    ReadsBack behindRuntime (standaloneDocument (behindInventory gateway)) := by
  have hload : ∀ gateway ∈ gateways, behindRuntime.safeLoad (behindText gateway) =
      .ok (standaloneDocument (behindInventory gateway)) := by decide +kernel
  have htexts : ∀ e ∈ gateways.map fun gateway =>
      (standaloneDocument (behindInventory gateway), behindText gateway), BeginsWithAll e.2 :=
    List.forall_mem_map.mpr fun gateway _ => beginsWithAll_behindText gateway
  intro gateway h
  exact readsBack_knowing_of_dump rfl (dump_behind gateway h) (hload gateway h)
    (beginsWithAll_behindText gateway) htexts

/-- The two machines have different files. -/
theorem behindFile_ne : behindFile "192.168.200.1" ≠ behindFile "192.168.200.254" := by
  intro heq
  have hdocument := document_eq_of_text behindRuntime
    (readsBack_behind _ second_mem_gateways) (readsBack_behind _ first_mem_gateways) heq
  exact absurd hdocument (by decide +kernel)

theorem newlinesOnly_header : Text.NewlinesOnly header := by
  unfold header
  repeat rw [Text.newlinesOnly_append]
  repeat' refine And.intro ?_ ?_
  all_goals exact Text.newlinesOnly_ofList (by decide +kernel)

theorem newlinesOnly_behindFile {gateway : String} (h : gateway ∈ gateways) :
    Text.NewlinesOnly (behindFile gateway) := by
  have hgateway : Text.NewlinesOnly gateway := by
    simp only [gateways, List.mem_cons, List.not_mem_nil, or_false] at h
    rcases h with rfl | rfl
    all_goals exact Text.newlinesOnly_ofList (by decide +kernel)
  rw [behindFile, documentText, dump_behind gateway h]
  have hhead : Text.NewlinesOnly (header ++ "---\n") :=
    Text.newlinesOnly_append.mpr ⟨newlinesOnly_header, Text.newlinesOnly_ofList (by decide +kernel)⟩
  refine Text.newlinesOnly_append.mpr ⟨hhead, ?_⟩
  unfold behindText fixedLines
  repeat rw [Text.newlinesOnly_append]
  repeat' refine And.intro ?_ ?_
  all_goals first | exact hgateway | exact Text.newlinesOnly_ofList (by decide +kernel)

theorem read_of_behindFile {s : Repo} {gateway : String} (h : gateway ∈ gateways)
    (hs : s.file = some (behindFile gateway)) : s.read = behindFile gateway := by
  rw [Repo.read, hs, Option.getD_some,
    Text.universalNewlines_eq_self_iff.mpr (newlinesOnly_behindFile h)]

/-- A repository with the file of the machine behind the first gateway at HEAD. -/
def firstRepo : Repo :=
  { initialised := true
    file := some (behindFile "192.168.200.1")
    index := some (behindFile "192.168.200.1")
    log := [{ hash := "c0", parent := none, content := some (behindFile "192.168.200.1"),
              author := "alice", email := "alice@seapath-webui",
              message := "inventory: describe node1" }]
    distinct := by decide }

/-- Another operator moves the machine behind the second. -/
def move : Save where
  candidate := behindInventory "192.168.200.254"
  author := "bob"
  expectedHead := some "c0"
  message := some "network: set gateway_addr on node1"
  hash := "c1"

/-- What it asks of the repository. -/
def moveRequest : WriteRequest where
  content := behindFile "192.168.200.254"
  message := "network: set gateway_addr on node1"
  author := move.author
  expectedHead := move.expectedHead

/-- The save gives the file the other text. -/
theorem file_landOne_move :
    (landOne behindRuntime firstRepo move).file = some (behindFile "192.168.200.254") := by
  have hfresh : firstRepo.Fresh move.hash := by decide
  have hreturns : validateRaises behindRuntime move.candidate = false := rfl
  have hvalid : (validate behindRuntime move.candidate).valid = true := by decide +kernel
  have hrender : render behindRuntime move.candidate = .ok moveRequest.content :=
    render_standalone behindRuntime rfl
  have hmessage : move.message = some moveRequest.message := rfl
  have hrequest : (⟨moveRequest.content, moveRequest.message, move.author, move.expectedHead⟩ :
      WriteRequest) = moveRequest := rfl
  have hsave : landOne behindRuntime firstRepo move =
      (commit firstRepo moveRequest move.hash {}).1 := by
    rw [landOne, if_pos hfresh, save]
    simp only [hreturns, hvalid, Bool.false_eq_true, Bool.true_eq_false, if_false, hmessage,
      Option.elim_some, hrender, hrequest]
    rw [committing_fst]
  have hreads : ¬ firstRepo.reads moveRequest.content := fun hreads =>
    behindFile_ne ((read_of_behindFile (s := firstRepo) first_mem_gateways rfl).symm.trans
      (Repo.read_of_reads hreads))
  have hpasses : Operation.PassesChecks firstRepo moveRequest {} := by decide
  obtain ⟨t, hlog, hfile, -, hcommit⟩ := Operation.commit_of_passes move.hash hpasses
  have hhead : t.headContent ≠ some moveRequest.content := by
    rw [Repo.headContent, hlog]
    exact fun heq => behindFile_ne (Option.some.inj heq)
  have hfresh' : t.Fresh move.hash := by
    rw [Repo.Fresh, hlog]
    exact hfresh
  obtain ⟨u, _, -, -, -, hresult, hwrite⟩ :=
    Operation.writeAndCommit_of_succeeds (f := {}) rfl hhead hfresh'
  rw [hsave, hcommit, if_neg (by rwa [Repo.reads, hfile]), hwrite]
  exact hresult

/-! ### Launching on it -/

/-- A convergence of that machine. -/
def converge : LaunchCall where
  playbookId := "seapath_setup_main"
  launchedBy := "alice"
  createdAt := ⟨2026, 3, 1, 12, 0, 0, 0⟩
  startedAt := ⟨2026, 3, 1, 12, 0, 1, 0⟩

/-- The state of the inventory, by the gateway and HEAD. -/
theorem stateOf_behindFile {gateway : String} (h : gateway ∈ gateways) (head : Option Hash) :
    stateOf behindRuntime (behindFile gateway) head =
      .ok { inventory := some (behindInventory gateway)
            commit := head
            validation := validate behindRuntime (behindInventory gateway)
            seeded := true } := by
  have hsayable : ∀ gateway ∈ gateways, (behind gateway).Sayable := by
    intro gateway h
    simp only [gateways, List.mem_cons, List.not_mem_nil, or_false] at h
    rcases h with rfl | rfl
    all_goals exact ⟨rfl, by decide, by decide, by decide, by decide, by decide, by decide⟩
  have hparse : parse behindRuntime (behindFile gateway) = .ok (behindInventory gateway) :=
    parse_documentText_of_sayable behindRuntime rfl rfl (hsayable gateway h)
      (readsBack_behind gateway h)
  have hnotBlank : Text.strip (behindFile gateway) ≠ "" := by
    have hrender : render behindRuntime (behindInventory gateway) = .ok (behindFile gateway) :=
      render_standalone behindRuntime rfl
    have hstrip := render_not_blank behindRuntime hrender
    rwa [Text.universalNewlines_eq_self_iff.mpr (newlinesOnly_behindFile h)] at hstrip
  have hreturns : validateRaises behindRuntime (behindInventory gateway) = false := rfl
  simp only [stateOf, if_neg hnotBlank, hparse, hreturns, Bool.false_eq_true, if_false]

/-- With variables that are accepted, the launch succeeds wherever it finds either file. -/
theorem launch_converge_with {g : Schedule} {gateway gateway' : String}
    {supplied accepted : Dict String Value} (h : gateway ∈ gateways) (h' : gateway' ∈ gateways)
    (hcheck : (g.atCheckFile behindRuntime firstRepo).file = some (behindFile gateway))
    (hrecord : (g.atRecordFile behindRuntime firstRepo).file = some (behindFile gateway'))
    (hvars : acceptedVariables
      (collectionEntry "seapath_setup_main" "Configure this machine" .partially machineRequires
        [skipReboot]) supplied = .ok accepted) :
    ∃ d record,
      launch behindRuntime { selfTrusted := true } { converge with suppliedVars := supplied } g
        firstRepo {} = .ok (d, record, accepted) := by
  have hentry : Catalogue.get converge.playbookId =
      some (collectionEntry "seapath_setup_main" "Configure this machine" .partially
        machineRequires [skipReboot]) := rfl
  have hvalid : ∀ gateway ∈ gateways,
      (validate behindRuntime (behindInventory gateway)).valid = true := by decide +kernel
  have hvet : ∀ head, vet { selfTrusted := true } { converge with suppliedVars := supplied }
      (collectionEntry "seapath_setup_main" "Configure this machine" .partially machineRequires
        [skipReboot])
      { inventory := some (behindInventory gateway)
        commit := head
        validation := validate behindRuntime (behindInventory gateway)
        seeded := true } = .ok accepted := by
    intro head
    simp only [vet, unmetPreconditions, hvalid gateway h]
    exact hvars
  simp only [launch, hentry, read_of_behindFile h hcheck, stateOf_behindFile h, hvet,
    read_of_behindFile h' hrecord, stateOf_behindFile h']
  exact ⟨_, _, rfl⟩

/-- The launch succeeds wherever it finds either file. -/
theorem launch_converge {g : Schedule} {gateway gateway' : String} (h : gateway ∈ gateways)
    (h' : gateway' ∈ gateways)
    (hcheck : (g.atCheckFile behindRuntime firstRepo).file = some (behindFile gateway))
    (hrecord : (g.atRecordFile behindRuntime firstRepo).file = some (behindFile gateway')) :
    ∃ d record extraVars,
      launch behindRuntime { selfTrusted := true } converge g firstRepo {} =
        .ok (d, record, extraVars) := by
  have hvars : acceptedVariables
      (collectionEntry "seapath_setup_main" "Configure this machine" .partially machineRequires
        [skipReboot]) ∅ = .ok ∅ := rfl
  obtain ⟨d, record, hlaunch⟩ := launch_converge_with h h' hcheck hrecord hvars
  exact ⟨d, record, ∅, hlaunch⟩

/-- The save lands before the file is read for the record. -/
def movedBefore : Schedule := { beforeRecordFile := [move] }

/-- The save lands before the file is copied. -/
def movedAfter : Schedule := { beforeCopy := [move] }

theorem file_firstRepo : firstRepo.file = some (behindFile "192.168.200.1") := rfl

theorem headContent_firstRepo : firstRepo.file = firstRepo.headContent := rfl

theorem truthful_iff_undisturbed_moved :
    ∃ d record extraVars,
      launch behindRuntime { selfTrusted := true } converge movedBefore firstRepo {} =
        .ok (d, record, extraVars) ∧
      Truthful (land behindRuntime (movedBefore.atCopy behindRuntime firstRepo) []) d
        record.id := by
  have hcheck : (movedBefore.atCheckFile behindRuntime firstRepo).file =
      some (behindFile "192.168.200.1") := by
    rw [Schedule.atCheckFile, movedBefore, land_nil, file_firstRepo]
  have hrecord : (movedBefore.atRecordFile behindRuntime firstRepo).file =
      some (behindFile "192.168.200.254") := by
    rw [Schedule.atRecordFile, Schedule.atCheckHead, Schedule.atCheckFile, movedBefore, land_cons,
      land_nil, land_nil, land_nil, file_landOne_move]
  obtain ⟨d, record, extraVars, h⟩ :=
    launch_converge first_mem_gateways second_mem_gateways hcheck hrecord
  have hundisturbed : movedBefore.Undisturbed behindRuntime firstRepo := by
    have hhead : movedBefore.atRecordHead behindRuntime firstRepo =
        movedBefore.atRecordFile behindRuntime firstRepo := land_nil behindRuntime _
    have hcopy : movedBefore.atCopy behindRuntime firstRepo =
        movedBefore.atRecordHead behindRuntime firstRepo := land_nil behindRuntime _
    have hplain : Text.NewlinesOnly
        ((movedBefore.atRecordHead behindRuntime firstRepo).file.getD "") := by
      rw [hhead, hrecord, Option.getD_some]
      exact newlinesOnly_behindFile second_mem_gateways
    exact ⟨hplain, by rw [hcopy]⟩
  exact ⟨d, record, extraVars, h,
    (truthful_iff_undisturbed behindRuntime headContent_firstRepo h []).mpr hundisturbed⟩

/-- A save that lands after HEAD was read for the record makes the trace a lie. -/
theorem trace_can_lie :
    ¬ ∀ (node : Machine) (call : LaunchCall) (g : Schedule) (s : Repo) (d d' : Disk)
        (record : RunRecord) (extraVars : Dict String Value), s.file = s.headContent →
      launch behindRuntime node call g s d = .ok (d', record, extraVars) →
        Truthful (land behindRuntime (g.atCopy behindRuntime s) []) d' record.id := by
  intro hclaim
  have hcheck : (movedAfter.atCheckFile behindRuntime firstRepo).file =
      some (behindFile "192.168.200.1") := by
    rw [Schedule.atCheckFile, movedAfter, land_nil, file_firstRepo]
  have hrecord : movedAfter.atRecordHead behindRuntime firstRepo =
      movedAfter.atCheckFile behindRuntime firstRepo := by
    rw [Schedule.atRecordHead, Schedule.atRecordFile, Schedule.atCheckHead, movedAfter, land_nil,
      land_nil, land_nil]
  obtain ⟨d, record, extraVars, h⟩ :=
    launch_converge first_mem_gateways first_mem_gateways hcheck hcheck
  have hcopied := (truthful_iff_copied behindRuntime headContent_firstRepo h []).mp
    (hclaim _ _ _ _ _ _ _ _ headContent_firstRepo h)
  have hcopy : (movedAfter.atCopy behindRuntime firstRepo).file =
      some (behindFile "192.168.200.254") := by
    rw [Schedule.atCopy, hrecord, Schedule.atCheckFile, movedAfter, land_nil, land_cons, land_nil,
      file_landOne_move]
  rw [hrecord, hcheck, read_of_behindFile second_mem_gateways hcopy] at hcopied
  exact behindFile_ne (Option.some.inj hcopied)

end SeapathWebui.Runs
