/-
  Inventory/Validity.lean --- whether a commit of the service is a valid inventory.

  What validation looks at is the candidate; what git gets is its rendering, in
  which `extra` wins over the fields of the model.  And the seed is written
  without a look.  `commits_valid_iff` says, for either way into the repository,
  when every commit it can make holds a document that is read back as a valid
  inventory.
-/
import SeapathWebui.Inventory.Service
import SeapathWebui.Inventory.Stability

set_option autoImplicit false

namespace SeapathWebui.Inventory

open SeapathWebui.Foundation SeapathWebui.Hosts

/-! ## The commit a call makes -/

/-- A call of `commit` leaves the log as it is, or puts one commit of the given text on
top. -/
theorem log_commit (s : Repo) (q : WriteRequest) (hash : Hash) (f : Faults) :
    (commit s q hash f).1.log = s.log ∨
      ∃ c, (commit s q hash f).1.log = c :: s.log ∧ c.content = some q.content := by
  have hwrite : ∀ t : Repo, (writeAndCommit t q hash f).1.log = t.log ∨
      ∃ c, (writeAndCommit t q hash f).1.log = c :: t.log ∧ c.content = some q.content := by
    intro t
    unfold writeAndCommit
    simp only
    split
    · exact Or.inl rfl
    · split
      · exact Or.inl rfl
      · cases hgit : (t.writeFile q.content).gitAdd.gitCommit hash q.author q.message with
        | none => exact Or.inl rfl
        | some u =>
            obtain ⟨-, hfresh, rfl⟩ := Repo.gitCommit_eq_some.mp hgit
            let ready := (t.writeFile q.content).gitAdd
            refine Or.inr ⟨ready.newCommit hash ready.index q.author q.message, ?_, rfl⟩
            simp only
            split <;> rfl
  unfold commit
  cases hinit : initialise s f.init with
  | error e => exact Or.inl rfl
  | ok t =>
      obtain ⟨hlog, -, -, -⟩ := initialise_ok hinit
      simp only
      split
      · exact Or.inl hlog
      · split
        · exact Or.inl hlog
        · rw [← hlog]
          exact hwrite t

/-- A commit that is there only after the call is of the given text. -/
theorem content_of_new_commit {s : Repo} {q : WriteRequest} {hash : Hash} {f : Faults}
    {new : Commit} (hnew : new ∈ (commit s q hash f).1.log) (hold : new ∉ s.log) :
    new.content = some q.content := by
  rcases log_commit s q hash f with hsame | ⟨c, hmore, hcontent⟩
  · exact (hold (hsame ▸ hnew)).elim
  · rw [hmore] at hnew
    rcases List.mem_cons.mp hnew with rfl | hnew
    · exact hcontent
    · exact (hold hnew).elim

variable (rt : Runtime)

/-- `save` ends in a call of `commit` with the text of a valid candidate, or leaves the
repository alone. -/
theorem save_cases (s : Repo) (candidate : Inventory) (author : String)
    (expectedHead : Option Hash) (message : Option String) (hash : Hash) (f : Faults) :
    (save rt s candidate author expectedHead message hash f).1 = s ∨
      ∃ q, Accepts rt candidate ∧ render rt candidate = .ok q.content ∧
        (save rt s candidate author expectedHead message hash f).1 = (commit s q hash f).1 := by
  unfold save
  simp only
  split
  · exact Or.inl rfl
  · rename_i hreturns
    split
    · exact Or.inl rfl
    · rename_i hvalid
      have haccepts : Accepts rt candidate :=
        ⟨Bool.not_eq_true _ ▸ hreturns, Bool.not_eq_false _ ▸ hvalid⟩
      cases message.elim (messageFor rt s candidate f.revParse) .ok with
      | error e => exact Or.inl rfl
      | ok message =>
          cases hrender : render rt candidate with
          | error e => exact Or.inl rfl
          | ok content =>
              exact Or.inr ⟨⟨content, message, author, expectedHead⟩, haccepts, rfl, rfl⟩

/-- `ensureSeed` ends in a call of `commit` with the text of the seed, or leaves the log
alone. -/
theorem ensureSeed_cases (s : Repo) (reader : HostReading) (hash : Hash) (f : Faults) :
    (ensureSeed rt s reader hash f).1.log = s.log ∨
      ∃ t q discovery candidate, t.log = s.log ∧ discover reader = .ok discovery ∧
        seedInventory discovery = some candidate ∧ render rt candidate = .ok q.content ∧
        (ensureSeed rt s reader hash f).1 = (commit t q hash f).1 := by
  unfold ensureSeed
  cases hinit : initialise s f.init with
  | error e => exact Or.inl rfl
  | ok t =>
      obtain ⟨hlog, -, -, -⟩ := initialise_ok hinit
      simp only
      split
      · exact Or.inl hlog
      · cases hdiscover : discover reader with
        | error e => exact Or.inl hlog
        | ok discovery =>
            cases hseed : seedInventory discovery with
            | none =>
                simp only [hseed]
                exact Or.inl hlog
            | some candidate =>
                simp only [hseed]
                cases hrender : render rt candidate with
                | error e => exact Or.inl hlog
                | ok content =>
                    exact Or.inr ⟨t, ⟨content, _, _, none⟩, discovery, candidate, hlog, rfl, hseed,
                      hrender, rfl⟩

/-! ## The two ways into the repository -/

/-- A call that may make a commit. -/
inductive Write
  | seed (reader : HostReading)
  | save (candidate : Inventory)

/-- The circumstances of a call. -/
structure Circumstances where
  repo : Repo := {}
  author : String := "operator"
  expectedHead : Option Hash := none
  message : Option String := none
  hash : Hash
  faults : Faults := {}

namespace Write

/-- The repository after the call. -/
def run (w : Write) (c : Circumstances) : Repo :=
  match w with
  | .seed reader => (ensureSeed rt c.repo reader c.hash c.faults).1
  | .save candidate =>
      (Inventory.save rt c.repo candidate c.author c.expectedHead c.message c.hash c.faults).1

/-- What a call renders, when it comes to that. -/
def written : Write → Option Inventory
  | .seed reader =>
      match discover reader with
      | .error _ => none
      | .ok discovery => seedInventory discovery
  | .save candidate =>
      if Accepts rt candidate ∧ candidate.mode = .standalone then some candidate else none

theorem written_seed {reader : HostReading} {inventory : Inventory} :
    (seed reader).written rt = some inventory ↔
      ∃ discovery, discover reader = .ok discovery ∧ seedInventory discovery = some inventory := by
  simp only [written]
  cases discover reader with
  | error e => simp
  | ok discovery => simp

theorem written_save {candidate inventory : Inventory} :
    (save candidate).written rt = some inventory ↔
      (Accepts rt candidate ∧ candidate.mode = .standalone) ∧ candidate = inventory :=
  Option.ite_none_right_eq_some.trans (and_congr_right fun _ => Option.some_inj)

theorem mode_of_written {w : Write} {inventory : Inventory} (h : w.written rt = some inventory) :
    inventory.mode = .standalone := by
  cases w with
  | seed reader =>
      obtain ⟨discovery, -, hseed⟩ := (written_seed rt).mp h
      obtain ⟨node, -, rfl⟩ := Option.map_eq_some_iff.mp hseed
      rfl
  | save candidate =>
      obtain ⟨⟨-, hmode⟩, rfl⟩ := (written_save rt).mp h
      exact hmode

/-- A call writes an inventory of one machine. -/
theorem single_of_written {w : Write} {inventory : Inventory}
    (h : w.written rt = some inventory) :
    ∃ name node, inventory.hosts.entries = [(name, node)] := by
  cases w with
  | seed reader =>
      obtain ⟨discovery, -, hseed⟩ := (written_seed rt).mp h
      obtain ⟨node, -, rfl⟩ := Option.map_eq_some_iff.mp hseed
      exact ⟨_, node, rfl⟩
  | save candidate =>
      obtain ⟨⟨haccepts, hmode⟩, rfl⟩ := (written_save rt).mp h
      exact single_of_valid rt hmode haccepts.2

/-- A commit a call makes is of the text of the inventory it writes. -/
theorem content_of_new {w : Write} {c : Circumstances} {new : Commit}
    (hnew : new ∈ (w.run rt c).log) (hold : new ∉ c.repo.log) :
    ∃ inventory, w.written rt = some inventory ∧
      new.content = some (documentText rt (standaloneDocument inventory)) := by
  cases w with
  | seed reader =>
      rcases ensureSeed_cases rt c.repo reader c.hash c.faults with
        hsame | ⟨t, q, discovery, candidate, hlog, hdiscover, hseed, hrender, hcommit⟩
      · exact (hold (hsame ▸ hnew)).elim
      · have hwritten : (Write.seed reader).written rt = some candidate :=
          (written_seed rt).mpr ⟨discovery, hdiscover, hseed⟩
        refine ⟨candidate, hwritten, ?_⟩
        rw [render_standalone rt (mode_of_written rt hwritten)] at hrender
        rw [Except.ok.inj hrender]
        rw [run, hcommit] at hnew
        exact content_of_new_commit hnew (hlog ▸ hold)
  | save candidate =>
      rcases save_cases rt c.repo candidate c.author c.expectedHead c.message c.hash c.faults with
        hsame | ⟨q, hvalid, hrender, hcommit⟩
      · exact (hold (hsame ▸ hnew)).elim
      · have hmode : candidate.mode = .standalone := by
          cases hmode : candidate.mode with
          | standalone => rfl
          | cluster =>
              simp only [render, hmode] at hrender
              cases hrender
        have hwritten : (Write.save candidate).written rt = some candidate :=
          (written_save rt).mpr ⟨⟨hvalid, hmode⟩, rfl⟩
        refine ⟨candidate, hwritten, ?_⟩
        rw [render_standalone rt hmode] at hrender
        rw [Except.ok.inj hrender]
        rw [run, hcommit] at hnew
        exact content_of_new_commit hnew hold

/-- On a repository that has none yet, a call makes the commit of what it writes. -/
theorem exists_new {w : Write} {inventory : Inventory} (h : w.written rt = some inventory) :
    ∃ (c : Circumstances) (new : Commit), new ∈ (w.run rt c).log ∧ new ∉ c.repo.log ∧
      new.content = some (documentText rt (standaloneDocument inventory)) := by
  have hrender := render_standalone rt (mode_of_written rt h)
  -- what the first commit of a repository is
  have hfirst : ∀ (s : Repo) (content message author : String), s = {} ∨ s = Repo.gitInit {} →
      ∃ new ∈ (commit s ⟨content, message, author, none⟩ "c0" {}).1.log,
        new.content = some content := by
    rintro s content message author (rfl | rfl)
    · exact ⟨_, List.mem_singleton_self _, rfl⟩
    · exact ⟨_, List.mem_singleton_self _, rfl⟩
  cases w with
  | seed reader =>
      obtain ⟨discovery, hdiscover, hseed⟩ := (written_seed rt).mp h
      obtain ⟨new, hnew, hcontent⟩ := hfirst (Repo.gitInit {}) _
        "discovery: seed this machine's own entry at first boot" committerName (Or.inr rfl)
      refine ⟨{ hash := "c0" }, new, ?_, List.not_mem_nil, hcontent⟩
      have hblank : Text.strip (Repo.gitInit {}).read = "" := by decide
      simp only [run, ensureSeed, initialise_of_not_fails, hblank, ne_eq, not_true, if_false,
        hdiscover, hseed, hrender]
      exact hnew
  | save candidate =>
      obtain ⟨⟨haccepts, -⟩, rfl⟩ := (written_save rt).mp h
      obtain ⟨new, hnew, hcontent⟩ := hfirst {} _ "describe" "operator" (Or.inl rfl)
      refine ⟨{ hash := "c0", message := some "describe" }, new, ?_, List.not_mem_nil, hcontent⟩
      simp only [run, Inventory.save, haccepts.1, haccepts.2, Bool.true_eq_false,
        Bool.false_eq_true, if_false, Option.elim_some, hrender]
      exact hnew

/-- Every commit the call makes, in whatever circumstances, holds a document that is read
back as an inventory of which `validate` returns, without an error. -/
def Sound (w : Write) : Prop :=
  ∀ (c : Circumstances) (new : Commit), new ∈ (w.run rt c).log → new ∉ c.repo.log →
    ∃ text inventory, new.content = some text ∧ parse rt text = .ok inventory ∧
      Accepts rt inventory

/-- The seed is taken by `validate`; the candidate is also where `extra` has the word. -/
def Admissible : Write → Prop
  | .seed reader => ∀ discovery candidate, discover reader = .ok discovery →
      seedInventory discovery = some candidate → Accepts rt candidate
  | .save candidate => Accepts rt candidate → candidate.mode = .standalone →
      ∀ name node, candidate.hosts.entries = [(name, node)] →
        ∃ node', effective rt node = .ok node' ∧ Takes rt name node'

/-- What is read back of a rendered inventory is valid. -/
def ReadsValid (inventory : Inventory) : Prop :=
  ∀ name node, inventory.hosts.entries = [(name, node)] →
    ∃ node', effective rt node = .ok node' ∧ Takes rt name node'

/-- Where `extra` is clear, what is read back is valid if what was written is. -/
theorem readsValid_of_clear {inventory : Inventory} {name : String} {node : NodeConfig}
    (hentries : inventory.hosts.entries = [(name, node)]) (hclear : node.Clear) :
    ReadsValid rt inventory ↔ Accepts rt inventory := by
  rw [accepts_singleton rt hentries]
  constructor
  · intro h
    obtain ⟨node', hnode', htakes⟩ := h name node hentries
    rw [effective_of_clear rt hclear] at hnode'
    obtain rfl := Except.ok.inj hnode'
    exact (takes_normalise rt).mp htakes
  · intro htakes name' node' hentries'
    rw [hentries] at hentries'
    obtain ⟨rfl, rfl⟩ := Prod.mk.inj (List.cons.inj hentries').1
    exact ⟨_, effective_of_clear rt hclear, (takes_normalise rt).mpr htakes⟩

/-- The seed has no variable of its own. -/
theorem clear_of_seed {reader : HostReading} {discovery : Discovery} {candidate : Inventory}
    (hdiscover : discover reader = .ok discovery)
    (hseed : seedInventory discovery = some candidate) :
    ∃ name node, candidate.hosts.entries = [(name, node)] ∧ node.Clear := by
  obtain ⟨proposed, hpropose, hproposed⟩ := seedInventory_discover hdiscover
  rw [hseed] at hproposed
  obtain ⟨node, rfl, rfl⟩ := Option.map_eq_some_iff.mp hproposed.symm
  refine ⟨_, node, rfl, fun k hk => ?_⟩
  rw [extra_of_propose hpropose] at hk
  cases hk

theorem admissible_iff {w : Write} :
    w.Admissible rt ↔ ∀ inventory, w.written rt = some inventory → ReadsValid rt inventory := by
  cases w with
  | seed reader =>
      constructor
      · intro h inventory hwritten
        obtain ⟨discovery, hdiscover, hseed⟩ := (written_seed rt).mp hwritten
        obtain ⟨name, node, hentries, hclear⟩ := clear_of_seed hdiscover hseed
        exact (readsValid_of_clear rt hentries hclear).mpr (h _ _ hdiscover hseed)
      · intro h discovery candidate hdiscover hseed
        obtain ⟨name, node, hentries, hclear⟩ := clear_of_seed hdiscover hseed
        exact (readsValid_of_clear rt hentries hclear).mp
          (h candidate ((written_seed rt).mpr ⟨discovery, hdiscover, hseed⟩))
  | save candidate =>
      constructor
      · intro h inventory hwritten name node hentries
        obtain ⟨⟨haccepts, hmode⟩, rfl⟩ := (written_save rt).mp hwritten
        exact h haccepts hmode name node hentries
      · intro h haccepts hmode
        exact h candidate ((written_save rt).mpr ⟨⟨haccepts, hmode⟩, rfl⟩)

/-- A save whose `extra` has no name of the renderer's is admissible. -/
theorem admissible_of_clear {candidate : Inventory}
    (h : ∀ e ∈ candidate.hosts.entries, e.2.Clear) : (Write.save candidate).Admissible rt := by
  intro haccepts hmode name node hentries
  have hclear : node.Clear := h (name, node) (by simp [hentries])
  exact (readsValid_of_clear rt hentries hclear).mpr haccepts name node hentries

/-- A call that makes only valid commits writes what is read back valid. -/
theorem readsValid_of_sound {w : Write} {inventory : Inventory}
    (hwritten : w.written rt = some inventory)
    (hyaml : ReadsBack rt (standaloneDocument inventory)) (hsound : w.Sound rt) :
    ReadsValid rt inventory := by
  intro name node hentries
  obtain ⟨c, new, hnew, hold, hcontent⟩ := exists_new rt hwritten
  obtain ⟨text, parsed, htext, hparse, haccepts⟩ := hsound c new hnew hold
  obtain rfl := Option.some.inj (hcontent.symm.trans htext)
  rw [parse_documentText rt hentries hyaml] at hparse
  cases heffective : effective rt node with
  | error e =>
      rw [heffective] at hparse
      cases hparse
  | ok node' =>
      rw [heffective] at hparse
      obtain rfl := Except.ok.inj hparse
      exact ⟨node', rfl, (accepts_singleton rt rfl).mp haccepts⟩

/-- Every commit `ensureSeed` or `save` can make of its input holds a document that parses,
and that `validate` takes, exactly if the input is admissible. -/
theorem commits_valid_iff (w : Write)
    (hyaml : ∀ inventory, w.written rt = some inventory →
      ReadsBack rt (standaloneDocument inventory)) : w.Sound rt ↔ w.Admissible rt := by
  rw [admissible_iff]
  constructor
  · intro hsound inventory hwritten
    exact readsValid_of_sound rt hwritten (hyaml inventory hwritten) hsound
  · intro h c new hnew hold
    obtain ⟨inventory, hwritten, hcontent⟩ := content_of_new rt hnew hold
    obtain ⟨name, node, hentries⟩ := single_of_written rt hwritten
    obtain ⟨node', heffective, htakes⟩ := h inventory hwritten name node hentries
    have hparse := parse_documentText rt hentries (hyaml inventory hwritten)
    rw [heffective] at hparse
    exact ⟨_, _, hcontent, hparse, (accepts_singleton rt rfl).mpr htakes⟩

end Write

/-! ### The reference inventory, and a seed under a qualified name -/

theorem commits_valid_iff_reference :
    (Write.save (singleHost "seapath-machine" reference)).Sound referenceRuntime ↔
      (Write.save (singleHost "seapath-machine" reference)).Admissible referenceRuntime := by
  refine Write.commits_valid_iff referenceRuntime _ fun inventory h => ?_
  obtain ⟨-, rfl⟩ := (Write.written_save _).mp h
  exact readsBack_knowing _ _

/-- A machine whose host name is a qualified one. -/
def qualified : HostReading where
  nodeIdentity := { hostname := "node1.example.org" }
  network :=
    { interfaces :=
        [{ name := "eno1"
           kind := some "physical"
           addresses :=
             [{ address := "192.168.200.125", prefixLength := some 24, family := "inet" }] }]
      defaultRouteInterface := some "eno1"
      defaultGateway := some "192.168.200.1" }
  cpu := { online := some 8 }

/-- What it proposes. -/
def qualifiedNode : NodeConfig where
  ansibleHost := "192.168.200.125"
  networkInterface := "eno1"
  gatewayAddr := some "192.168.200.1"
  isolcpus := some "4-7"

/-- The seed, without its comments. -/
def qualifiedText : String :=
  "all:\n" ++
  "  hosts:\n" ++
  "    node1.example.org:\n" ++
  "      ansible_host: 192.168.200.125\n" ++
  "      network_interface: eno1\n" ++
  "      subnet: 24\n" ++
  "      gateway_addr: 192.168.200.1\n" ++
  fixedLines ++
  "standalone_machine:\n" ++
  "  hosts:\n" ++
  "    node1.example.org: null\n" ++
  "hypervisors:\n" ++
  "  hosts:\n" ++
  "    node1.example.org: null\n" ++
  "  vars:\n" ++
  "    isolcpus: 4-7\n" ++
  "cluster_machines: null\n" ++
  "observers: null\n"

/-- The library, knowing the seed. -/
def qualifiedRuntime : Runtime :=
  knowing [(standaloneDocument (singleHost "node1.example.org" qualifiedNode), qualifiedText)]

/-- The seed of that machine is committed, and is not valid. -/
theorem seed_can_be_invalid :
    (Write.seed qualified).written qualifiedRuntime =
        some (singleHost "node1.example.org" qualifiedNode) ∧
      ReadsBack qualifiedRuntime
        (standaloneDocument (singleHost "node1.example.org" qualifiedNode)) ∧
      ¬ (Write.seed qualified).Sound qualifiedRuntime := by
  have hwritten : (Write.seed qualified).written qualifiedRuntime =
      some (singleHost "node1.example.org" qualifiedNode) := by decide +kernel
  have hyaml : ReadsBack qualifiedRuntime
      (standaloneDocument (singleHost "node1.example.org" qualifiedNode)) := readsBack_knowing _ _
  refine ⟨hwritten, hyaml, fun hsound => ?_⟩
  have hvalid := Write.readsValid_of_sound qualifiedRuntime hwritten hyaml hsound
  have hclear : qualifiedNode.Clear := by decide
  rw [Write.readsValid_of_clear qualifiedRuntime rfl hclear,
    accepts_singleton qualifiedRuntime rfl] at hvalid
  exact absurd hvalid.1.hostname (by decide)

end SeapathWebui.Inventory
