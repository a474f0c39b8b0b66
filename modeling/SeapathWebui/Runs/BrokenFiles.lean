/-
  Runs/BrokenFiles.lean --- what the service answers about a broken inventory file.

  Sources: `InventoryService.state` of app/inventory/service.py, `inventory` of
  app/api/v1/inventory.py, `playbooks` and `launch` of app/runs/service.py.

  All of them look at the file through `state()`, which expects of `parse` an inventory
  or `InvalidInventory`, and of `validate` that it returns.  `GET /inventory` answers with
  the state as the web framework writes it (`Serialiser`).  `Answers` is what they owe
  the operator about a text; `answers_iff` says for which texts they give it.
-/
import SeapathWebui.Inventory.Readable
import SeapathWebui.Inventory.RoundTrip
import SeapathWebui.Runs.Launch

set_option autoImplicit false

namespace SeapathWebui.Runs

open SeapathWebui.Foundation SeapathWebui.Inventory

section Answers

/-- The web framework and its models, which make the answer of what an endpoint returns. -/
structure Serialiser where
  /-- a value under a name the model leaves open (`Any`) can be written -/
  writes : Value → Bool
  /-- the state can be written -/
  answers : InventoryState → Bool
  /-- its typed fields always can -/
  answers_iff : ∀ state, answers state = true ↔
    ∀ inventory, state.inventory = some inventory →
      ∀ e ∈ inventory.hosts.entries, ∀ x ∈ e.2.extra.entries, writes x.2 = true

variable (rt : Runtime) (web : Serialiser)

/-- `GET /inventory` answers with the state. -/
def viewAnswers (document : String) (head : Option Hash) : Bool :=
  match stateOf rt document head with
  | .ok state => web.answers state
  | .error _ => false

/-- `parse` returns or refuses, `state` returns with what was wrong, and those that ask
for the state answer too. -/
structure Answers (document : String) : Prop where
  parse : ParsesOrRefuses rt document
  state : ∀ head, ∃ state, stateOf rt document head = .ok state ∧
    ∀ message, Inventory.parse rt document = .error (.invalidInventory message) →
      Text.strip document ≠ "" → state.parseError = some message
  inventory : ∀ head, viewAnswers rt web document head = true
  playbooks : ∀ node head, Returns (playbooks rt node document head)
  launch : ∀ (node : Machine) (call : LaunchCall) (s : Repo) (d : Disk), s.read = document →
    ∀ e, launch rt node call {} s d ≠ .error (.inventory e)

/-- The file can be read or refused, and where it is read its CPU lists can be counted and the
variables that are not modelled can be written. -/
structure Answerable (document : String) : Prop where
  readable : DocumentReadable rt document
  countable : Text.strip document ≠ "" → CpusCountable rt document
  writable : Text.strip document ≠ "" → ExtrasAre rt web.writes document

/-- `state` returns for an answerable file, and what it returns can be written. -/
theorem state_of_answerable {document : String} (h : Answerable rt web document)
    (head : Option Hash) : ∃ state, stateOf rt document head = .ok state ∧
      web.answers state = true ∧
      ∀ message, Inventory.parse rt document = .error (.invalidInventory message) →
        Text.strip document ≠ "" → state.parseError = some message := by
  unfold stateOf
  split
  · rename_i hblank
    exact ⟨_, rfl, (web.answers_iff _).mpr (by rintro _ ⟨⟩),
      fun message _ hnot => (hnot hblank).elim⟩
  · rename_i hnot
    rcases (parses_or_refuses_iff rt document).mpr h.readable with
      ⟨inventory, hparse⟩ | ⟨message, hparse⟩
    · have hreturns := (validateRaises_of_parse rt hparse).mpr (h.countable hnot)
      have hwritable := (extras_of_parse rt hparse).mpr (h.writable hnot)
      simp only [hparse, hreturns, Bool.false_eq_true, if_false, reduceCtorEq, false_implies,
        implies_true, and_true]
      refine ⟨_, rfl, (web.answers_iff _).mpr ?_⟩
      rintro _ ⟨⟩
      exact hwritable
    · simp only [hparse]
      refine ⟨_, rfl, (web.answers_iff _).mpr (by rintro _ ⟨⟩), fun message' heq _ => ?_⟩
      simpa using heq

/-- The file is answerable if `state` returns what can be written. -/
theorem answerable_of_view {document : String} (hparse : ParsesOrRefuses rt document)
    {head : Option Hash} (hview : viewAnswers rt web document head = true) :
    Answerable rt web document := by
  have hreadable := (parses_or_refuses_iff rt document).mp hparse
  rcases hparse with ⟨inventory, hparse⟩ | ⟨message, hparse⟩
  · by_cases hblank : Text.strip document = ""
    · exact ⟨hreadable, fun hnot => (hnot hblank).elim, fun hnot => (hnot hblank).elim⟩
    · rw [viewAnswers, stateOf, if_neg hblank, hparse] at hview
      cases hraises : validateRaises rt inventory with
      | true =>
          simp only [hraises, if_true] at hview
          cases hview
      | false =>
          simp only [hraises, Bool.false_eq_true, if_false] at hview
          exact ⟨hreadable, fun _ => (validateRaises_of_parse rt hparse).mp hraises,
            fun _ => (extras_of_parse rt hparse).mp ((web.answers_iff _).mp hview _ rfl)⟩
  · refine ⟨hreadable, fun _ => ?_, fun _ => ?_⟩
    · intro loaded groups hload hgroups e he
      rw [machineCpus, machinesOf, no_host_of_refusal rt hparse hload hgroups] at he
      cases he
    · intro loaded groups hload hgroups e he
      rw [machinesOf, no_host_of_refusal rt hparse hload hgroups] at he
      cases he

/-- `launch` with nothing else going on gets the state of the file twice. -/
theorem launch_ne_inventory_error {node : Machine} {call : LaunchCall} {s : Repo} {d : Disk}
    (h : Returns (stateOf rt s.read s.head)) (e : ServiceError) :
    launch rt node call {} s d ≠ .error (.inventory e) := by
  obtain ⟨state, hstate⟩ := h
  have hsame : stateOf rt (({} : Schedule).atCheckFile rt s).read
      (({} : Schedule).atCheckHead rt s).head = .ok state := hstate
  have hagain : stateOf rt (({} : Schedule).atRecordFile rt s).read
      (({} : Schedule).atRecordHead rt s).head = .ok state := hstate
  unfold launch
  simp only [hsame, hagain]
  cases Catalogue.get call.playbookId with
  | none => simp
  | some entry =>
      simp only
      cases vet node call entry state with
      | error refused => simp
      | ok extraVars =>
          unfold start
          simp only
          cases RunStore.acquire d (launchRecord node call entry state.commit).id with
          | error locked =>
              cases locked
              simp
          | ok d => simp

/-- **A text of the inventory file is answered about, by `parse`, `state`, `GET /inventory`,
`GET /playbooks` and `launch`, exactly if it is answerable.** -/
theorem answers_iff (document : String) :
    Answers rt web document ↔ Answerable rt web document := by
  constructor
  · exact fun h => answerable_of_view rt web h.parse (h.inventory none)
  · intro h
    have hstate := state_of_answerable rt web h
    have hreturns : ∀ head, Returns (stateOf rt document head) := fun head =>
      (hstate head).imp fun _ => And.left
    refine ⟨(parses_or_refuses_iff rt document).mpr h.readable, fun head => ?_, fun head => ?_,
      ?_, ?_⟩
    · obtain ⟨state, hok, -, hmessage⟩ := hstate head
      exact ⟨state, hok, hmessage⟩
    · obtain ⟨state, hok, hwritten, -⟩ := hstate head
      rw [viewAnswers, hok]
      exact hwritten
    · intro node head
      obtain ⟨state, hok⟩ := hreturns head
      exact ⟨_, bind_eq_ok.mpr ⟨state, hok, rfl⟩⟩
    · rintro node call s d rfl
      exact launch_ne_inventory_error rt (hreturns s.head)

end Answers

/-! ### A file that takes the view down -/

/-- A machine whose name server stands there as a number. -/
def numberedServer : Value :=
  .map [(.str "all", .map [(.str "hosts", .map [(.str "node",
    .map [(.str "dns_servers", .scalar (.int 5))])])])]

/-- Its file. -/
def numberedServerText : String :=
  "all:\n" ++
  "  hosts:\n" ++
  "    node:\n" ++
  "      dns_servers: 5\n"

/-- The library, knowing the file. -/
def numberedServerRuntime : Runtime := knowing [(numberedServer, numberedServerText)]

/-- `parse` raises `TypeError`, and with it `state`. -/
theorem file_can_take_view_down :
    parse numberedServerRuntime numberedServerText = .error (.raised .typeError) ∧
      ∀ web, ¬ Answers numberedServerRuntime web numberedServerText := by
  have hparse : parse numberedServerRuntime numberedServerText = .error (.raised .typeError) := by
    decide +kernel
  refine ⟨hparse, fun web h => ?_⟩
  rcases h.parse with ⟨inventory, hok⟩ | ⟨message, hrefused⟩
  · cases hparse.symm.trans hok
  · cases hparse.symm.trans hrefused

/-- A framework that writes bytes as the text they encode. -/
def textSerialiser : Serialiser :=
  let writes : Value → Bool
    | .scalar (.bytes b) => (Utf8.decode b).isSome
    | _ => true
  { writes := writes
    answers := fun state => state.inventory.all fun inventory =>
      inventory.hosts.entries.all fun e => e.2.extra.entries.all fun x => writes x.2
    answers_iff := by simp [Option.all_eq_true, List.all_eq_true] }

/-- A machine with a variable of two bytes that encode no text. -/
def blob : Value :=
  .map [(.str "all", .map [(.str "hosts", .map [(.str "node",
    .map [(.str "blob", .scalar (.bytes [255, 255]))])])])]

/-- Its file. -/
def blobText : String :=
  "all:\n" ++
  "  hosts:\n" ++
  "    node:\n" ++
  "      blob: !!binary //8=\n"

/-- `state` returns for it, and `GET /inventory` cannot answer. -/
example : (stateOf (knowing [(blob, blobText)]) blobText none).toOption.isSome = true ∧
    viewAnswers (knowing [(blob, blobText)]) textSerialiser blobText none = false := by
  decide +kernel

end SeapathWebui.Runs
