/-
  Ui/Saving.lean --- what a save of a configuration page does.

  A page asks for a change to the commit that it shows, and the server changes the file.  That
  these are of one inventory is an invariant of every run of requests that are answered one at a
  time (`Site.Invariant`): what a page shows is the content of a commit, and the file is that of
  HEAD.  So a save that is accepted makes of the machine that was shown the one that the form
  reads (`accepted_save`), and a page that loads it has nothing more to save
  (`saved_page_settles`).
-/
import SeapathWebui.Runs.Trace
import SeapathWebui.Ui.Submission

set_option autoImplicit false

namespace SeapathWebui.Ui

open SeapathWebui.Foundation SeapathWebui.Inventory

/-! ## The repository -/

section Repository

variable {repo : Repo} {op : Operation}

theorem revert_fst (author : String) (outcome : RevertOutcome) (logFails : Bool) :
    (revert repo author outcome logFails).1 = (gitRevert repo author outcome).1 := by
  unfold revert
  rcases gitRevert repo author outcome with ⟨t, done⟩
  cases done with
  | false => rfl
  | true =>
      dsimp only
      split <;> rfl

/-- No operation takes a commit away. -/
theorem mem_log_run {c : Commit} (h : c ∈ repo.log) : c ∈ (op.run repo).1.log := by
  cases op with
  | commit q hash f =>
      rcases log_commit repo q hash f with hlog | ⟨new, hlog, -⟩
      · exact hlog ▸ h
      · exact hlog ▸ List.mem_cons_of_mem new h
  | revert author outcome logFails =>
      change c ∈ (revert repo author outcome logFails).1.log
      rw [revert_fst]
      unfold gitRevert
      split
      · cases outcome with
        | refused => exact h
        | conflict markers => exact h
        | reverted hash content message =>
            dsimp only
            split
            · exact List.mem_cons_of_mem _ h
            · exact h
      · exact h

/-- What an accepted call of `commit` says of HEAD and of the file. -/
theorem of_accepted {q : WriteRequest} {hash : Hash} {f : Faults} {expected : Hash}
    {c : Option Commit} (hfresh : repo.Fresh hash) (hexpected : q.expectedHead = some expected)
    (hplain : Text.NewlinesOnly q.content) (h : (commit repo q hash f).2 = .ok c) :
    repo.head = some expected ∧ (commit repo q hash f).1.read = q.content := by
  by_cases hp : Operation.PassesChecks repo q f
  · obtain ⟨t, hlog, hfile, hindex, hcommit⟩ := Operation.commit_of_passes hash hp
    have hhead : repo.head = some expected := by
      have hcurrent := staleCheck_eq_none.mp hp.2 expected hexpected
      split at hcurrent
      · cases hcurrent
      · exact hcurrent
    refine ⟨hhead, ?_⟩
    rw [hcommit] at h ⊢
    split
    · rename_i hreads
      exact Repo.read_of_reads hreads
    · rename_i hother
      rw [if_neg hother] at h
      by_cases hfails : (f.add || f.commit) = true ∨ t.headContent = some q.content
      · rw [(Operation.writeAndCommit_of_fails t q hash hfails).1] at h
        cases h
      · obtain ⟨hsucceeds, hne⟩ := not_or.mp hfails
        have hfresh' : t.Fresh hash := by
          rw [Repo.Fresh, hlog]
          exact hfresh
        obtain ⟨u, new, -, -, -, hfile', hwrite⟩ :=
          Operation.writeAndCommit_of_succeeds (Bool.not_eq_true _ ▸ hsucceeds) hne hfresh'
        rw [hwrite, Repo.read, hfile', Option.getD_some]
        exact Text.universalNewlines_eq_self_iff.mpr hplain
  · obtain ⟨⟨e, he⟩, -⟩ := Operation.commit_of_not_passes hash hp
    rw [he] at h
    cases h

end Repository

/-! ## Runs -/

section Runs

variable (rt : Runtime) (seen : Nat → List InterfaceCandidate)

theorem inventory_of_state {repo : Repo} {revParseFails : Bool} {answer : InventoryState}
    {inventory : Inventory} (h : state rt repo revParseFails = .ok answer)
    (hinventory : answer.inventory = some inventory) :
    parse rt repo.read = .ok inventory ∧
      answer.commit = if revParseFails then none else repo.head := by
  unfold state stateOf at h
  split at h
  · obtain rfl := Except.ok.inj h
    cases hinventory
  · split at h
    · obtain rfl := Except.ok.inj h
      cases hinventory
    · cases h
    · rename_i parsed hparse
      split at h
      · cases h
      · obtain rfl := Except.ok.inj h
        obtain rfl := Option.some.inj hinventory
        exact ⟨hparse, rfl⟩

/-- The inventory is the content of the commit. -/
def IsOf (repo : Repo) (inventory : Inventory) (commit : Hash) : Prop :=
  ∃ c ∈ repo.log, c.hash = commit ∧
    parse rt (Text.universalNewlines (c.content.getD "")) = .ok inventory

/-- A page shows an inventory with the commit that it is of, and its elements read what they
can. -/
structure Page.Sound (interfaces : List InterfaceCandidate) (repo : Repo) (page : Page) :
    Prop where
  shown : ∀ shown commit, page.shown = some shown → shown.commit = some commit →
    IsOf rt repo shown.inventory commit
  elements : ∀ field, (element interfaces field).reads (page.form field) = page.form field

/-- What holds in every state of a run: the file reads as the one of HEAD, and the pages are
sound. -/
structure Site.Invariant (s : Site) : Prop where
  inStep : s.repo.InStep
  pages : ∀ p, (s.pages p).Sound rt (seen p) s.repo

theorem reads_reads (e : Element) (value : String) : e.reads (e.reads value) = e.reads value := by
  cases e with
  | input => rfl
  | select options =>
      by_cases hmem : value ∈ options
      · simp [Element.reads, hmem]
      · simp [Element.reads, hmem]

theorem boot_invariant {repo : Repo} (h : repo.file = repo.headContent) :
    (Site.boot repo).Invariant rt seen where
  inStep := Repo.inStep_of_file h
  pages p := by
    refine ⟨nofun, fun field => ?_⟩
    have hempty : ∀ e : Element, e.reads "" = "" := fun e => by
      cases e <;> simp [Element.reads]
    exact hempty _

variable {rt seen}

/-- What a load shows is the content of HEAD. -/
theorem isOf_head {repo : Repo} {inventory : Inventory} {commit : Hash} (hstep : repo.InStep)
    (hparse : parse rt repo.read = .ok inventory) (hhead : repo.head = some commit) :
    IsOf rt repo inventory commit := by
  obtain ⟨c, hc, hhash⟩ := Option.map_eq_some_iff.mp hhead
  refine ⟨c, List.mem_of_mem_head? hc, hhash, ?_⟩
  have hcontent : repo.headContent = c.content := by rw [Repo.headContent, hc, Option.bind_some]
  rwa [hstep, hcontent] at hparse

/-- And what is the content of HEAD is what the file reads as. -/
theorem parse_of_isOf {repo : Repo} {inventory : Inventory} {commit : Hash} (hstep : repo.InStep)
    (hof : IsOf rt repo inventory commit) (hhead : repo.head = some commit) :
    parse rt repo.read = .ok inventory := by
  obtain ⟨c, hc, rfl, hparse⟩ := hof
  obtain ⟨newest, hnewest, hhash⟩ := Option.map_eq_some_iff.mp hhead
  have hsame : newest.content = c.content := by
    rw [← Repo.contentAt_of_mem (List.mem_of_mem_head? hnewest), ← Repo.contentAt_of_mem hc, hhash]
  have hcontent : repo.headContent = c.content := by
    rw [Repo.headContent, hnewest, Option.bind_some, hsame]
  rwa [hstep, hcontent]

theorem IsOf.run {repo : Repo} {inventory : Inventory} {commit : Hash} (op : Operation)
    (h : IsOf rt repo inventory commit) : IsOf rt (op.run repo).1 inventory commit := by
  obtain ⟨c, hc, hhash, hparse⟩ := h
  exact ⟨c, mem_log_run hc, hhash, hparse⟩

/-- The repository takes a step. -/
theorem Page.Sound.run {interfaces : List InterfaceCandidate} {repo : Repo} {page : Page}
    (op : Operation) (h : page.Sound rt interfaces repo) :
    page.Sound rt interfaces (op.run repo).1 where
  shown shown commit hshown hcommit := (h.shown shown commit hshown hcommit).run op
  elements := h.elements

/-- A page that loads shows the content of HEAD. -/
theorem Page.Sound.load {interfaces : List InterfaceCandidate} {repo : Repo} {page loaded : Page}
    {revParseFails : Bool} {answer : InventoryState} {host : Option String}
    (h : page.Sound rt interfaces repo) (hstep : repo.InStep)
    (hstate : state rt repo revParseFails = .ok answer)
    (hload : page.load interfaces answer host = some loaded) : loaded.Sound rt interfaces repo := by
  unfold Page.load at hload
  cases hinventory : answer.inventory with
  | none =>
      rw [hinventory] at hload
      exact Option.some.inj hload ▸ h
  | some inventory =>
      rw [hinventory] at hload
      obtain ⟨hparse, hcommit⟩ := inventory_of_state rt hstate hinventory
      cases host with
      | none =>
          dsimp only at hload
          split at hload
          · obtain rfl := Option.some.inj hload
            exact ⟨nofun, h.elements⟩
          · cases hload
      | some host =>
          obtain ⟨node, -, rfl⟩ := Option.map_eq_some_iff.mp hload
          refine ⟨fun shown commit hshown hof => ?_, fun field => reads_reads _ _⟩
          obtain rfl := Option.some.inj hshown
          rw [hcommit] at hof
          cases revParseFails with
          | true => cases hof
          | false => exact isOf_head hstep hparse hof

theorem Page.Sound.answered {interfaces : List InterfaceCandidate} {repo : Repo} {page : Page}
    (h : page.Sound rt interfaces repo) (result : Except RepoError (Option Commit)) :
    (page.answered result).Sound rt interfaces repo := by
  cases result with
  | ok c => exact ⟨h.shown, h.elements⟩
  | error e => exact h

namespace Site.Invariant

variable {s : Site}

/-- One page is another. -/
theorem setPage (hs : s.Invariant rt seen) (p : Nat) {page : Page}
    (hpage : page.Sound rt (seen p) s.repo) : (s.setPage p page).Invariant rt seen where
  inStep := hs.inStep
  pages := (Function.forall_update_iff s.pages
    (fun q page => page.Sound rt (seen q) s.repo)).mpr ⟨hpage, fun q _ => hs.pages q⟩

/-- The repository takes a step that does no harm. -/
theorem run (hs : s.Invariant rt seen) {op : Operation} (hfresh : op.Fresh s.repo)
    (hbreaks : ¬ op.Breaks s.repo) :
    ({ s with repo := (op.run s.repo).1 } : Site).Invariant rt seen where
  inStep := (Operation.decided_by_breaks hs.inStep hfresh).2 hbreaks
  pages p := (hs.pages p).run op

/-- Step lemma. -/
theorem step (hs : s.Invariant rt seen) {label : SiteLabel} {t : Site}
    (hharmless : Harmless rt s label) (hstep : siteStep rt seen s label = some t) :
    t.Invariant rt seen := by
  cases label with
  | load p host revParseFails =>
      simp only [siteStep] at hstep
      split at hstep
      · exact Option.some.inj hstep ▸ hs
      · rename_i answer hstate
        obtain ⟨page, hload, rfl⟩ := Option.map_eq_some_iff.mp hstep
        exact hs.setPage p ((hs.pages p).load hs.inStep hstate hload)
  | edit p field value =>
      obtain rfl := Option.some.inj hstep
      refine hs.setPage p ⟨(hs.pages p).shown, ?_⟩
      refine (Function.forall_update_iff (s.pages p).form
        (fun field value => (element (seen p) field).reads value = value)).mpr ⟨?_, ?_⟩
      · exact reads_reads _ _
      · exact fun other _ => (hs.pages p).elements other
  | password p text =>
      obtain rfl := Option.some.inj hstep
      exact hs.setPage p ⟨(hs.pages p).shown, (hs.pages p).elements⟩
  | save p call =>
      simp only [siteStep] at hstep
      split at hstep
      · exact Option.some.inj hstep ▸ hs
      · rename_i op hop
        obtain ⟨repo, hrun, rfl⟩ := Option.map_eq_some_iff.mp hstep
        obtain ⟨hfresh, hrepo⟩ := Option.ite_none_right_eq_some.mp hrun
        obtain rfl := Option.some.inj hrepo
        exact (hs.setPage p ((hs.pages p).answered _)).run hfresh (hharmless op hop)
  | write op =>
      obtain ⟨repo, hrun, rfl⟩ := Option.map_eq_some_iff.mp hstep
      obtain ⟨hfresh, hrepo⟩ := Option.ite_none_right_eq_some.mp hrun
      obtain rfl := Option.some.inj hrepo
      exact hs.run hfresh (hharmless op rfl)

end Site.Invariant

/-! ## A save that is accepted -/

/-- The document of a change that the server takes is that of the machine it has read. -/
theorem document_of_readAs {stored : Inventory} {name hashed password : String}
    {node read : NodeConfig} {form : Form} {patch : HostPatch} {document : Value}
    (hsave : save node form password = .ok patch) (hread : ReadAs hashed form password node read)
    (hnode : stored.hosts.get? name = some node)
    (hdocument : patchHost rt stored name (patch.values hashed) = some document) :
    Takes rt name read ∧ document = standaloneDocument (singleHost name read) := by
  have hreads := readNode_values hashed hsave hread
  obtain ⟨-, hpasses, vars, hvars, rfl⟩ :=
    (patchHost_eq_some_iff rt hnode (keys_values hashed hsave)).mp hdocument
  have hsubnet : patchedSubnet node (patch.values hashed) = .scalar (.int read.subnet) :=
    patchedSubnet_of_int hreads fun v hv => by
      obtain rfl := eq_of_get?_values hashed hsave hread.reads .subnet hv
      exact ⟨_, rfl⟩
  have hdomain : patchedDomain node (patch.values hashed) = ofDomain read.ptpDomainNumber :=
    patchedDomain_of_int hreads fun v hv => by
      obtain rfl := eq_of_get?_values hashed hsave hread.reads .ptpDomainNumber hv
      rw [valueOf_ptpDomainNumber]
      cases read.ptpDomainNumber with
      | none => exact .inl rfl
      | some n => exact .inr ⟨_, rfl⟩
  refine ⟨(passes_iff_takes hreads hsubnet).mp hpasses, ?_⟩
  obtain ⟨vars', hvars', hwritten⟩ := @document_of_read integersOnly name _ _ _ hreads
  obtain rfl := Option.some.inj (hvars.symm.trans hvars')
  have hsingle : (singleHost name read).hosts.entries = [(name, read)] := rfl
  rw [standaloneDocument_single hsingle, hwritten]
  exact (documentOf_eq_iff hreads).mpr ⟨.inl hsubnet, .inl hdomain⟩

/-- `GET /inventory` answers with this machine alone, at HEAD, and it is valid. -/
def Serves (rt : Runtime) (repo : Repo) (name : String) (node : NodeConfig) : Prop :=
  state rt repo false =
      .ok { inventory := some (singleHost name node)
            commit := repo.head
            validation := validate rt (singleHost name node)
            seeded := true } ∧
    (validate rt (singleHost name node)).valid = true

/-- A file that was written is served. -/
theorem serves_of_written {repo : Repo} {name : String} {node : NodeConfig}
    (hread : repo.read = documentText rt (standaloneDocument (singleHost name node)))
    (hyaml : Inventory.ReadsBack rt (standaloneDocument (singleHost name node)))
    (hclear : node.Clear) (htakes : Takes rt name node) :
    Serves rt repo name (normalise node) := by
  have hsingle : (singleHost name node).hosts.entries = [(name, node)] := rfl
  have hmode : (singleHost name node).mode = .standalone := rfl
  have hparse : parse rt repo.read = .ok (singleHost name (normalise node)) := by
    rw [hread, parse_documentText rt hsingle hyaml, effective_of_clear rt hclear]
    rfl
  have hnotBlank : Text.strip repo.read ≠ "" := by
    have hplain : Text.NewlinesOnly repo.read := Text.newlinesOnly_universalNewlines _
    have hstrip := Runs.render_not_blank rt (render_standalone rt hmode)
    rwa [← hread, Text.universalNewlines_eq_self_iff.mpr hplain] at hstrip
  have htakes' : Takes rt name (normalise node) := (takes_normalise rt).mpr htakes
  have hsingle' : (singleHost name (normalise node)).hosts.entries = [(name, normalise node)] :=
    rfl
  obtain ⟨hreturns, hvalid⟩ := (accepts_singleton rt hsingle').mpr htakes'
  refine ⟨?_, hvalid⟩
  simp only [state, stateOf, if_neg hnotBlank, hparse, hreturns, Bool.false_eq_true, if_false]

/-- What the machine is afterwards: it is what the form reads, and the rest is as it was. -/
structure SavedAs (form : Form) (password hashed : String) (stored saved : NodeConfig) : Prop where
  reads : Reads form saved
  grubPassword : saved.grubPassword =
    (if password = "" then stored.grubPassword else some hashed).filter (· ≠ "")
  extra : saved.extra = stored.extra

/-- A form reads no empty text. -/
theorem read_filter {form : Form} {field : Field} {text : Option String}
    (h : (NodeValue.ofText? text).read = readForm form field) (hlist : field ∉ listFields)
    (hnumber : field ∉ numberFields) :
    (NodeValue.ofText? (text.filter (· ≠ ""))).read = (NodeValue.ofText? text).read := by
  have hne : text ≠ some "" := by
    rintro rfl
    exact (plain_of_reads h hlist hnumber "" rfl).1 rfl
  rw [filter_ne_empty hne]

theorem reads_normalise {form : Form} {node : NodeConfig} (h : Reads form node) :
    Reads form (normalise node) := by
  intro field
  rw [← h field]
  cases field with
  | ansibleHost => rfl
  | networkInterface => rfl
  | subnet => rfl
  | dnsServers => rfl
  | ptpDomainNumber => rfl
  | ntpServers => rfl
  | gatewayAddr => exact read_filter (h .gatewayAddr) (by decide) (by decide)
  | ptpInterface => exact read_filter (h .ptpInterface) (by decide) (by decide)
  | adminUser => exact read_filter (h .adminUser) (by decide) (by decide)
  | isolcpus => exact read_filter (h .isolcpus) (by decide) (by decide)

theorem ReadAs.normalise {form : Form} {password hashed : String} {stored read : NodeConfig}
    (h : ReadAs hashed form password stored read) :
    SavedAs form password hashed stored (normalise read) where
  reads := reads_normalise h.reads
  grubPassword := by rw [← h.grubPassword]; rfl
  extra := h.extra

theorem toOption_eq_some {ε α : Type} {x : Except ε α} {a : α} :
    x.toOption = some a ↔ x = .ok a := by
  cases x <;> simp [Except.toOption]

/-- What a page asks for. -/
theorem request_eq_some_iff {page : Page} {shown : Shown} {patch : HostPatch} :
    page.request = some (shown, patch) ↔
      page.shown = some shown ∧ submittable page.form = true ∧
        ∃ node, shown.inventory.hosts.get? shown.host = some node ∧
          save node page.form page.password = .ok patch := by
  unfold Page.request
  simp only [Option.bind_eq_bind, Option.bind_eq_some_iff, Option.ite_none_right_eq_some,
    Option.some.injEq, Prod.mk.injEq, toOption_eq_some]
  constructor
  · rintro ⟨found, hshown, node, hnode, hsubmit, sent, hsave, rfl, rfl⟩
    exact ⟨hshown, hsubmit, node, hnode, hsave⟩
  · rintro ⟨hshown, hsubmit, node, hnode, hsave⟩
    exact ⟨shown, hshown, node, hnode, hsubmit, patch, hsave, rfl, rfl⟩

/-- What the server writes. -/
theorem document_eq_some_iff {page : Page} {repo : Repo} {call : SaveCall} {document : Value} :
    page.document rt repo call = some document ↔
      ∃ shown patch answer stored, page.request = some (shown, patch) ∧
        state rt repo call.faults.revParse = .ok answer ∧ answer.inventory = some stored ∧
        stored.mode = .standalone ∧
        patchHost rt stored shown.host (patch.values call.hashed) = some document := by
  unfold Page.document patchedDocument
  simp only [Option.bind_eq_bind, Option.bind_eq_some_iff, Option.ite_none_right_eq_some,
    toOption_eq_some]
  constructor
  · rintro ⟨⟨shown, patch⟩, hrequest, answer, hanswer, stored, hstored, hmode, hpatched⟩
    exact ⟨shown, patch, answer, stored, hrequest, hanswer, hstored, hmode, hpatched⟩
  · rintro ⟨shown, patch, answer, stored, hrequest, hanswer, hstored, hmode, hpatched⟩
    exact ⟨⟨shown, patch⟩, hrequest, answer, hanswer, stored, hstored, hmode, hpatched⟩

/-- What it calls the repository with. -/
theorem operation_eq_some_iff {page : Page} {repo : Repo} {call : SaveCall} {op : Operation} :
    page.operation rt repo call = some op ↔
      ∃ shown document, page.shown = some shown ∧ page.document rt repo call = some document ∧
        op = .commit
          { content := documentText rt document
            message := call.message
            author := call.author
            expectedHead := some (shown.commit.getD "") } call.hash call.faults := by
  unfold Page.operation Page.writeRequest
  simp only [Option.bind_eq_bind, Option.map_eq_some_iff, Option.bind_eq_some_iff,
    Option.some.injEq]
  constructor
  · rintro ⟨q, ⟨shown, hshown, document, hdocument, rfl⟩, rfl⟩
    exact ⟨shown, document, hshown, hdocument, rfl⟩
  · rintro ⟨shown, document, hshown, hdocument, rfl⟩
    exact ⟨_, ⟨shown, hshown, document, hdocument, rfl⟩, rfl⟩

/-- What the site relies on of the YAML library, at a document that it writes: the document is
read back, and the lines of its text end with newlines. -/
structure Written (rt : Runtime) (document : Value) : Prop where
  readsBack : Inventory.ReadsBack rt document
  newlinesOnly : Text.NewlinesOnly (rt.dump document)

/-- The save of a page is answered with a commit, or with that nothing changes. -/
def Accepted (rt : Runtime) (s : Site) (p : Nat) (call : SaveCall) : Prop :=
  ∃ op c, s.operation rt (.save p call) = some op ∧ (op.run s.repo).2 = .ok c

/-- A page that loads. -/
theorem step_load {rt : Runtime} {seen : Nat → List InterfaceCandidate} {s : Site} (p : Nat)
    {answer : InventoryState} {inventory : Inventory} {host : String} {node : NodeConfig}
    (hstate : state rt s.repo false = .ok answer) (hinventory : answer.inventory = some inventory)
    (hnode : inventory.hosts.get? host = some node) :
    siteStep rt seen s (.load p (some host) false) =
      some (s.setPage p
        { s.pages p with
          shown := some ⟨inventory, answer.commit, host⟩
          form := writeForm (seen p) node }) := by
  simp only [siteStep, hstate, Page.load, hinventory, hnode, Option.map_some]

theorem exists_step_save {s : Site} (p : Nat) {call : SaveCall} {op : Operation}
    (hop : (s.pages p).operation rt s.repo call = some op) (hfresh : op.Fresh s.repo) :
    ∃ t, siteStep rt seen s (.save p call) = some t := by
  simp only [siteStep, hop, Operation.step, if_pos hfresh]
  exact ⟨_, rfl⟩

theorem of_save_step {s t : Site} {p : Nat} {call : SaveCall} {op : Operation}
    (hstep : siteStep rt seen s (.save p call) = some t)
    (hop : s.operation rt (.save p call) = some op) :
    op.Fresh s.repo ∧ t.repo = (op.run s.repo).1 ∧
      t.pages p = (s.pages p).answered (op.run s.repo).2 := by
  change (s.pages p).operation rt s.repo call = some op at hop
  simp only [siteStep, hop] at hstep
  obtain ⟨repo, hrun, rfl⟩ := Option.map_eq_some_iff.mp hstep
  obtain ⟨hfresh, hrepo⟩ := Option.ite_none_right_eq_some.mp hrun
  exact ⟨hfresh, (Option.some.inj hrepo).symm, Site.pages_setPage ..⟩

/-- A save of a sound page that is accepted, in a repository in step. -/
theorem Site.Invariant.accepted {s t : Site} (hs : s.Invariant rt seen) {p : Nat}
    {call : SaveCall} {shown : Shown} {commit : Hash} (hshown : (s.pages p).shown = some shown)
    (hcommit : shown.commit = some commit)
    (hstep : siteStep rt seen s (.save p call) = some t) (haccepted : Accepted rt s p call)
    (hyaml : ∀ document, (s.pages p).document rt s.repo call = some document →
      Written rt document)
    (hclear : ∀ e ∈ shown.inventory.hosts.entries, e.2.Clear) :
    s.repo.head = some commit ∧ parse rt s.repo.read = .ok shown.inventory ∧
      ∃ stored saved, shown.inventory.hosts.entries = [(shown.host, stored)] ∧
        SavedAs (s.pages p).form (s.pages p).password call.hashed stored saved ∧
        Serves rt t.repo shown.host saved := by
  obtain ⟨op, c, hop, hresult⟩ := haccepted
  -- the request, and what the server makes of it
  obtain ⟨shown', document, hshown', hdocument, rfl⟩ := operation_eq_some_iff.mp hop
  obtain rfl := Option.some.inj (hshown.symm.trans hshown')
  obtain ⟨shown', patch, answer, parsed, hrequest, hanswer, hparsed, -, hpatched⟩ :=
    document_eq_some_iff.mp hdocument
  obtain ⟨hshown', hsubmit, node, hnode, hsave⟩ := request_eq_some_iff.mp hrequest
  obtain rfl := Option.some.inj (hshown.symm.trans hshown')
  obtain ⟨hfresh, htrepo, -⟩ := of_save_step hstep hop
  -- HEAD is the commit of the page, so the file is the inventory of the page
  have hwritten := hyaml document hdocument
  have hplain : Text.NewlinesOnly (documentText rt document) := by
    rw [documentText, Text.newlinesOnly_append, Text.newlinesOnly_append]
    exact ⟨⟨Runs.newlinesOnly_header, Text.newlinesOnly_ofList (by decide)⟩, hwritten.newlinesOnly⟩
  have hexpected : some (shown.commit.getD "") = some commit := by rw [hcommit, Option.getD_some]
  obtain ⟨hhead, hread⟩ := of_accepted
    (q := ⟨documentText rt document, call.message, call.author, some (shown.commit.getD "")⟩)
    hfresh hexpected hplain hresult
  have hparse := parse_of_isOf hs.inStep ((hs.pages p).shown _ _ hshown hcommit) hhead
  obtain rfl := Except.ok.inj ((inventory_of_state rt hanswer hparsed).1.symm.trans hparse)
  refine ⟨hhead, hparse, node, ?_⟩
  -- and what is written is the machine that the form reads
  obtain ⟨hone, hpasses, -⟩ :=
    (patchHost_eq_some_iff rt hnode (keys_values call.hashed hsave)).mp hpatched
  obtain ⟨read, hreadAs⟩ := exists_readAs call.hashed hsave hsubmit hpasses
  obtain ⟨htakes, rfl⟩ := document_of_readAs hsave hreadAs hnode hpatched
  have hclear' : read.Clear := by
    have hnodeClear := hclear (shown.host, node) (by rw [hone]; exact List.mem_cons_self)
    unfold NodeConfig.Clear
    rw [hreadAs.extra]
    exact hnodeClear
  have hread' : t.repo.read = documentText rt (standaloneDocument (singleHost shown.host read)) :=
    (congrArg Repo.read htrepo).trans hread
  exact ⟨normalise read, hone, hreadAs.normalise,
    serves_of_written hread' hwritten.readsBack hclear' htakes⟩

/-- **A save that is accepted is of the commit and of the inventory that the page shows, and makes
of its machine the one that the form reads**, whatever other pages and other clients have done
before.  The requests are answered one at a time, from a repository where the file is that of
HEAD; no variable that the machine keeps has a name that a file has for its own (`hclear`). -/
theorem accepted_save {repo : Repo} (hstart : repo.file = repo.headContent)
    {labels : List SiteLabel} {s t : Site}
    (hrun : execute (siteStep rt seen) (Site.boot repo) labels = some s)
    (hharmless : Along (siteStep rt seen) (Harmless rt) (Site.boot repo) labels)
    {p : Nat} {call : SaveCall} {shown : Shown} {commit : Hash}
    (hshown : (s.pages p).shown = some shown) (hcommit : shown.commit = some commit)
    (hstep : siteStep rt seen s (.save p call) = some t) (haccepted : Accepted rt s p call)
    (hyaml : ∀ document, (s.pages p).document rt s.repo call = some document →
      Written rt document)
    (hclear : ∀ e ∈ shown.inventory.hosts.entries, e.2.Clear) :
    s.repo.head = some commit ∧ parse rt s.repo.read = .ok shown.inventory ∧
      ∃ stored saved, shown.inventory.hosts.entries = [(shown.host, stored)] ∧
        SavedAs (s.pages p).form (s.pages p).password call.hashed stored saved ∧
        Serves rt t.repo shown.host saved := by
  have hinvariant : s.Invariant rt seen :=
    invariant_along (fun _ _ _ hs hok hstep => hs.step hok hstep) (boot_invariant rt seen hstart)
      hharmless hrun
  exact hinvariant.accepted hshown hcommit hstep haccepted hyaml hclear

end Runs

/-! ### A page on which another gateway is typed -/

section Typed

open SeapathWebui.Runs

/-- A page loads the machine behind the first gateway, and the second is typed. -/
def typing : List SiteLabel :=
  [.load 0 (some "node1") false, .edit 0 .gatewayAddr "192.168.200.254"]

/-- The page then. -/
def typedPage : Page where
  shown := some ⟨behindInventory "192.168.200.1", some "c0", "node1"⟩
  form := Function.update (writeForm seen (behind "192.168.200.1")) .gatewayAddr "192.168.200.254"

/-- The site then. -/
def typedSite : Site := (Site.boot firstRepo).setPage 0 typedPage

theorem state_firstRepo : state behindRuntime firstRepo false =
    .ok { inventory := some (behindInventory "192.168.200.1")
          commit := some "c0"
          validation := validate behindRuntime (behindInventory "192.168.200.1")
          seeded := true } := by
  rw [state, read_of_behindFile first_mem_gateways rfl]
  exact stateOf_behindFile first_mem_gateways _

theorem execute_typing :
    execute (siteStep behindRuntime fun _ => seen) (Site.boot firstRepo) typing =
      some typedSite := by
  have hload : siteStep behindRuntime (fun _ => seen) (Site.boot firstRepo)
      (.load 0 (some "node1") false) =
        some ((Site.boot firstRepo).setPage 0
          { shown := some ⟨behindInventory "192.168.200.1", some "c0", "node1"⟩
            form := writeForm seen (behind "192.168.200.1") }) := by
    have hnode : (behindInventory "192.168.200.1").hosts.get? "node1" =
        some (behind "192.168.200.1") := rfl
    exact step_load (s := Site.boot firstRepo) 0 state_firstRepo rfl hnode
  have hedit : ∀ s : Site, siteStep behindRuntime (fun _ => seen)
      (s.setPage 0
        { shown := some ⟨behindInventory "192.168.200.1", some "c0", "node1"⟩
          form := writeForm seen (behind "192.168.200.1") })
      (.edit 0 .gatewayAddr "192.168.200.254") = some (s.setPage 0 typedPage) := by
    intro s
    simp only [siteStep, Site.pages_setPage, Site.setPage_setPage]
    rfl
  exact execute_cons_eq_some.mpr ⟨_, hload, execute_cons_eq_some.mpr ⟨_, hedit _, rfl⟩⟩

/-- Its save. -/
def gatewayCall : SaveCall where
  author := "alice"
  message := "network: set gateway_addr on node1"
  hashed := ""
  hash := "c1"

/-- What it asks of the repository. -/
def gatewayRequest : WriteRequest where
  content := behindFile "192.168.200.254"
  message := "network: set gateway_addr on node1"
  author := "alice"
  expectedHead := some "c0"

theorem request_typedPage : typedPage.request =
    some (⟨behindInventory "192.168.200.1", some "c0", "node1"⟩,
      { changes := [(.gatewayAddr, .text "192.168.200.254")] }) := by
  have hnode : (behindInventory "192.168.200.1").hosts.get? "node1" =
      some (behind "192.168.200.1") := rfl
  have hsubmit : submittable typedPage.form = true := by decide +kernel
  have hchanged : (fields.filter fun field => (readForm typedPage.form field).json ≠
      (valueOf (behind "192.168.200.1") field).read.json) = [.gatewayAddr] := by decide +kernel
  have hvalue : (readForm typedPage.form .gatewayAddr).json = .text "192.168.200.254" := by
    decide +kernel
  have hsave : save (behind "192.168.200.1") typedPage.form "" =
      .ok { changes := [(.gatewayAddr, .text "192.168.200.254")] } := by
    unfold save
    simp only
    rw [hchanged]
    simp [hvalue]
  exact request_eq_some_iff.mpr ⟨rfl, hsubmit, _, hnode, hsave⟩

theorem document_typedPage : typedPage.document behindRuntime firstRepo gatewayCall =
    some (standaloneDocument (behindInventory "192.168.200.254")) := by
  have hpatched : patchHost behindRuntime (behindInventory "192.168.200.1") "node1"
      (Dict.ofList [("gateway_addr", .str "192.168.200.254")]) =
        some (standaloneDocument (behindInventory "192.168.200.254")) := by decide +kernel
  exact document_eq_some_iff.mpr
    ⟨_, _, _, _, request_typedPage, state_firstRepo, rfl, rfl, hpatched⟩

theorem operation_typedPage : typedPage.operation behindRuntime firstRepo gatewayCall =
    some (.commit gatewayRequest "c1" {}) :=
  operation_eq_some_iff.mpr ⟨_, _, rfl, document_typedPage, rfl⟩

/-- The server commits it. -/
theorem accepted_typedPage : Accepted behindRuntime typedSite 0 gatewayCall := by
  have hfresh : firstRepo.Fresh "c1" := by decide
  have hreads : ¬ firstRepo.reads gatewayRequest.content := fun hreads =>
    behindFile_ne ((read_of_behindFile (s := firstRepo) first_mem_gateways rfl).symm.trans
      (Repo.read_of_reads hreads))
  have hpasses : Operation.PassesChecks firstRepo gatewayRequest {} := by decide
  obtain ⟨t, hlog, hfile, -, hcommit⟩ := Operation.commit_of_passes "c1" hpasses
  have hhead : t.headContent ≠ some gatewayRequest.content := by
    rw [Repo.headContent, hlog]
    exact fun heq => behindFile_ne (Option.some.inj heq)
  have hfresh' : t.Fresh "c1" := by
    rw [Repo.Fresh, hlog]
    exact hfresh
  obtain ⟨u, c, -, -, -, -, hwrite⟩ :=
    Operation.writeAndCommit_of_succeeds (f := {}) rfl hhead hfresh'
  refine ⟨_, some c, operation_typedPage, ?_⟩
  change (Inventory.commit firstRepo gatewayRequest "c1" {}).2 = _
  rw [hcommit, if_neg (by rwa [Repo.reads, hfile]), hwrite]
  rfl

theorem written_behind {gateway : String} (h : gateway ∈ gateways) :
    Written behindRuntime (standaloneDocument (behindInventory gateway)) where
  readsBack := readsBack_behind gateway h
  newlinesOnly := by
    have hplain := newlinesOnly_behindFile h
    rw [behindFile, documentText, Text.newlinesOnly_append] at hplain
    exact hplain.2

theorem harmless_typing : Along (siteStep behindRuntime fun _ => seen) (Harmless behindRuntime)
    (Site.boot firstRepo) typing := by
  unfold typing
  exact ⟨fun _ h => (nomatch h), fun _ _ => ⟨fun _ h => (nomatch h), fun _ _ => trivial⟩⟩

theorem written_typedPage (document : Value)
    (h : typedPage.document behindRuntime firstRepo gatewayCall = some document) :
    Written behindRuntime document := by
  rw [document_typedPage] at h
  exact Option.some.inj h ▸ written_behind second_mem_gateways

theorem accepted_save_gateway :
    ∃ t, siteStep behindRuntime (fun _ => seen) typedSite (.save 0 gatewayCall) = some t ∧
      ∃ stored saved, (behindInventory "192.168.200.1").hosts.entries = [("node1", stored)] ∧
        SavedAs typedPage.form "" "" stored saved ∧ Serves behindRuntime t.repo "node1" saved := by
  obtain ⟨t, hstep⟩ := exists_step_save (s := typedSite) 0 operation_typedPage (by decide)
  obtain ⟨-, -, stored, saved, hone, hsaved, hserves⟩ :=
    accepted_save rfl execute_typing harmless_typing (p := 0) rfl rfl hstep accepted_typedPage
      written_typedPage (by decide)
  exact ⟨t, hstep, stored, saved, hone, hsaved, hserves⟩

end Typed

/-! ## The page afterwards -/

section Afterwards

variable {rt : Runtime} {seen : Nat → List InterfaceCandidate}

section Settling

variable {form : Form} {node : NodeConfig} {interfaces : List InterfaceCandidate}

/-- What a select reads is one of its options. -/
theorem mem_of_select {options : List String} {value s : String}
    (hvalue : (Element.select options).reads value = value)
    (hoptions : ∀ o ∈ options, o = "" ∨ Plain o) (h : readText value = .text s) :
    s ∈ options := by
  have hne : value ≠ "" := by
    rintro rfl
    rw [readText_empty] at h
    cases h
  have hmem : value ∈ options := by
    by_contra hnot
    rw [Element.reads, if_neg hnot] at hvalue
    exact hne hvalue.symm
  have hread := readText_eq_text_iff.mpr ((hoptions value hmem).resolve_left hne)
  rw [hread] at h
  exact FieldValue.text.inj h ▸ hmem

/-- What a form reads can be displayed. -/
theorem displayable_of_reads (hreads : Reads form node)
    (helements : ∀ field, (element interfaces field).reads (form field) = form field)
    (hnames : ∀ i ∈ interfaces, Plain i.name) : Displayable interfaces node := by
  have hoptions : ∀ o ∈ "" :: interfaces.map (·.name), o = "" ∨ Plain o := by
    intro o ho
    rcases List.mem_cons.mp ho with rfl | ho
    · exact .inl rfl
    · obtain ⟨i, hi, rfl⟩ := List.mem_map.mp ho
      exact .inr (hnames i hi)
  have hhost : (NodeValue.ofText? (some node.ansibleHost)).read = readForm form .ansibleHost :=
    hreads .ansibleHost
  have hinterface : (NodeValue.ofText? (some node.networkInterface)).read =
      readForm form .networkInterface := hreads .networkInterface
  have hptp : ∀ s ∈ node.ptpInterface, Plain s :=
    plain_of_reads (hreads .ptpInterface) (by decide) (by decide)
  refine
    { ansibleHost := plain_of_reads hhost (by decide) (by decide) _ rfl
      networkInterface := ⟨?_, plain_of_reads hinterface (by decide) (by decide) _ rfl⟩
      gatewayAddr := plain_of_reads (hreads .gatewayAddr) (by decide) (by decide)
      dnsServers := plainItems_of_readList ((readForm_of_list (by decide) form).symm.trans
        (hreads .dnsServers).symm)
      ptpInterface := fun s hs => ⟨?_, hptp s hs⟩
      ntpServers := plainItems_of_readList ((readForm_of_list (by decide) form).symm.trans
        (hreads .ntpServers).symm)
      adminUser := plain_of_reads (hreads .adminUser) (by decide) (by decide)
      isolcpus := plain_of_reads (hreads .isolcpus) (by decide) (by decide) }
  · refine mem_of_select (helements .networkInterface)
      (fun o ho => hoptions o (List.mem_cons_of_mem _ ho)) ?_
    rw [← readForm_of_text (by decide) (by decide) form]
    exact hinterface.symm
  · have hread : readText (form .ptpInterface) = .text s := by
      rw [← readForm_of_text (by decide) (by decide) form, ← hreads .ptpInterface, valueOf,
        Option.mem_def.mp hs]
      rfl
    have hmem := mem_of_select (helements .ptpInterface) hoptions hread
    exact (List.mem_cons.mp hmem).resolve_left (hptp s hs).1

end Settling

/-- What a page holds once it has loaded a machine that is served alone. -/
theorem load_of_serves {t u : Site} {p : Nat} {name : String} {saved : NodeConfig}
    {host : Option String} (hserves : Serves rt t.repo name saved)
    (hload : siteStep rt seen t (.load p host false) = some u) :
    u.pages p =
      { t.pages p with
        shown := some ⟨singleHost name saved, t.repo.head, name⟩
        form := writeForm (seen p) saved } := by
  simp only [siteStep, hserves.1] at hload
  obtain ⟨page, hpage, rfl⟩ := Option.map_eq_some_iff.mp hload
  rw [Site.pages_setPage]
  cases host with
  | none => cases hpage
  | some host =>
      obtain ⟨node, hnode, rfl⟩ := Option.map_eq_some_iff.mp hpage
      have hmem : (host, node) ∈ (singleHost name saved).hosts.entries :=
        Dict.mem_entries_iff.mpr hnode
      obtain ⟨rfl, rfl⟩ := Prod.mk.inj (List.mem_singleton.mp hmem)
      rfl

/-- **A page whose save was accepted, and that loads before anything else happens, shows what was
typed, and has nothing more to save**, where the interfaces that it lists have plain names.  The
runs are those of `accepted_save`. -/
theorem saved_page_settles {repo : Repo} (hstart : repo.file = repo.headContent)
    {labels : List SiteLabel} {s t u : Site}
    (hrun : execute (siteStep rt seen) (Site.boot repo) labels = some s)
    (hharmless : Along (siteStep rt seen) (Harmless rt) (Site.boot repo) labels)
    {p : Nat} {call : SaveCall} {shown : Shown} {commit : Hash} {host : Option String}
    (hshown : (s.pages p).shown = some shown) (hcommit : shown.commit = some commit)
    (hstep : siteStep rt seen s (.save p call) = some t) (haccepted : Accepted rt s p call)
    (hload : siteStep rt seen t (.load p host false) = some u)
    (hyaml : ∀ document, (s.pages p).document rt s.repo call = some document →
      Written rt document)
    (hclear : ∀ e ∈ shown.inventory.hosts.entries, e.2.Clear)
    (hnames : ∀ i ∈ seen p, Plain i.name) :
    ∃ saved, (u.pages p).shown = some ⟨singleHost shown.host saved, t.repo.head, shown.host⟩ ∧
      (∀ field, readForm (u.pages p).form field = readForm (s.pages p).form field) ∧
      save saved (u.pages p).form (u.pages p).password = .error "Nothing changed." := by
  have hinvariant : s.Invariant rt seen :=
    invariant_along (fun _ _ _ hs hok hstep => hs.step hok hstep) (boot_invariant rt seen hstart)
      hharmless hrun
  obtain ⟨-, -, stored, saved, -, hsaved, hserves⟩ :=
    hinvariant.accepted hshown hcommit hstep haccepted hyaml hclear
  have hdisplayable : Displayable (seen p) saved :=
    displayable_of_reads hsaved.reads (hinvariant.pages p).elements hnames
  have hpage := load_of_serves hserves hload
  have hpassword : (t.pages p).password = "" := by
    obtain ⟨op, c, hop, hresult⟩ := haccepted
    obtain ⟨-, -, htpage⟩ := of_save_step hstep hop
    rw [htpage, hresult]
    rfl
  refine ⟨saved, by rw [hpage], fun field => ?_, ?_⟩
  · rw [hpage, ← hsaved.reads field]
    exact readsBack_iff.mpr hdisplayable field
  · rw [hpage]
    dsimp only
    rw [hpassword]
    exact save_unedited hdisplayable

end Afterwards

section Typed

open SeapathWebui.Runs

theorem saved_page_settles_gateway :
    ∃ t u saved, siteStep behindRuntime (fun _ => seen) typedSite (.save 0 gatewayCall) = some t ∧
      siteStep behindRuntime (fun _ => seen) t (.load 0 (some "node1") false) = some u ∧
      (∀ field, readForm (u.pages 0).form field = readForm typedPage.form field) ∧
      save saved (u.pages 0).form (u.pages 0).password = .error "Nothing changed." := by
  obtain ⟨t, hstep⟩ := exists_step_save (s := typedSite) 0 operation_typedPage (by decide)
  obtain ⟨-, -, -, saved, -, -, hserves⟩ :=
    (invariant_along (fun _ _ _ hs hok hstep => hs.step hok hstep)
      (boot_invariant behindRuntime (fun _ => seen) rfl) harmless_typing execute_typing).accepted
        (p := 0) rfl rfl hstep accepted_typedPage written_typedPage (by decide)
  have hmem : ("node1", saved) ∈ (singleHost "node1" saved).hosts.entries :=
    List.mem_singleton_self _
  have hload := @step_load behindRuntime (fun _ => seen) t 0 _ _ _ _ hserves.1 rfl
    (Dict.mem_entries_iff.mp hmem)
  obtain ⟨saved', -, hform, hnothing⟩ :=
    saved_page_settles rfl execute_typing harmless_typing (p := 0) rfl rfl hstep accepted_typedPage
      hload written_typedPage (by decide) (by decide)
  exact ⟨t, _, saved', hstep, hload, hform, hnothing⟩

end Typed

end SeapathWebui.Ui
