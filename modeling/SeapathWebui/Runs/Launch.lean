/-
  Runs/Launch.lean --- launching a run, while others save the inventory.

  Source: `RunService.launch` of app/runs/service.py and what it calls there, with
  `ApiError` of app/core/errors.py.

  `launch` looks at the inventory repository five times: `state()` for the
  preconditions reads the file and then HEAD, `state()` for the record does the same,
  and `raw()` reads the file that is copied into the run directory.  Nothing else it
  does touches the repository.  So the saves of other operators that interleave with
  it are, for each of the five, the ones that land between the previous one and it
  (`Schedule`).  A save is one atomic call of `InventoryService.save`.

  The thread that `launch` starts is Runs/Lifecycle.lean.
-/
import SeapathWebui.Inventory.Service
import SeapathWebui.Runs.Catalogue
import SeapathWebui.Runs.Service

set_option autoImplicit false

namespace SeapathWebui.Runs

open SeapathWebui.Foundation SeapathWebui.Inventory

/-! ## Errors -/

/-- `ApiError` -/
structure ApiError where
  code : String
  message : String
  statusCode : Nat := 400
  detail : Dict String (List String) := ∅
  deriving DecidableEq

/-- What `launch` raises. -/
inductive LaunchError
  | api (e : ApiError)
  | inventory (e : ServiceError)
  deriving DecidableEq

/-! ## Preconditions -/

/-- What a launch finds on the node, the inventory apart. -/
structure Machine where
  /-- the first trust relation is there and installed -/
  selfTrusted : Bool
  /-- `missing_from` -/
  missing : List String := []
  collectionVersion : String := "unknown"

/-- `_unmet_preconditions`, from the state of the inventory on. -/
def unmetPreconditions (state : InventoryState) (selfTrusted : Bool) :
    List (Precondition × String) :=
  let mode := state.inventory.map (·.mode)
  (if state.seeded = false ∨ state.inventory = none then
      [(.inventoryValid, "There is no inventory yet. Fill in the machine's form first.")]
    else if state.validation.valid = false then
      [(.inventoryValid, "The inventory does not validate: " ++
        ", ".intercalate (state.validation.errors.map (·.rule)) ++ ".")]
    else []) ++
  (if selfTrusted then []
    else [(.selfTrust, "This node has no SSH trust with itself, so it cannot converge " ++
      "even its own configuration.")]) ++
  (if mode ≠ some .cluster then
      [(.cluster, "This machine is not part of a cluster. Add a node first.")]
    else []) ++
  (if mode ≠ some .standalone then [(.standalone, "This machine is not standalone.")] else [])

/-- `_blocking` -/
def blocking (entry : PlaybookEntry) (unmet : List (Precondition × String)) (node : Machine) :
    List String :=
  let reasons := entry.requires.filterMap fun c => List.lookup c unmet
  if entry.id ∈ node.missing then
    (entry.playbook ++ " is not in the SEAPATH collection this image ships (version " ++
      node.collectionVersion ++ "). The catalogue and the collection are released separately.")
      :: reasons
  else reasons

/-- `PlaybookAvailability` -/
structure PlaybookAvailability where
  entry : PlaybookEntry
  available : Bool
  unmet : List String := []
  deriving DecidableEq

/-- `RunService.playbooks`, which `GET /playbooks` answers, from the text of the file and
from HEAD. -/
def playbooks (rt : Runtime) (node : Machine) (document : String) (head : Option Hash) :
    Except ServiceError (List PlaybookAvailability) := do
  let state ← stateOf rt document head
  let unmet := unmetPreconditions state node.selfTrusted
  .ok (catalogue.map fun entry =>
    { entry := entry
      available := blocking entry unmet node = []
      unmet := blocking entry unmet node })

/-- `_accepted_variables` -/
def acceptedVariables (entry : PlaybookEntry) (supplied : Dict String Value) :
    Except ApiError (Dict String Value) :=
  let declared := Dict.ofList (entry.variableSpecs.map fun spec => (spec.name, spec))
  let unknown := Text.sortedSet (supplied.keys.filter fun name => !declared.contains name)
  let accepted := Text.sortedSet declared.keys
  let missing := (declared.entries.filter fun e =>
    e.2.required && !supplied.contains e.1).map (·.1)
  if unknown ≠ [] then
    .error
      { code := "unknown_variable"
        message := entry.title ++ " accepts " ++
          (if accepted = [] then "no variables" else ", ".intercalate accepted) ++
          ", not " ++ ", ".intercalate unknown ++ "."
        detail := Dict.ofList [("accepted", accepted)] }
  else if missing ≠ [] then
    .error
      { code := "missing_variable"
        message := entry.title ++ " requires " ++ ", ".intercalate missing ++ "." }
  else .ok supplied

/-! ## Launching -/

/-- The arguments of `launch`, and the two instants it looks at the clock. -/
structure LaunchCall where
  playbookId : String
  launchedBy : String
  suppliedVars : Dict String Value := ∅
  check : Bool := false
  /-- gives the run its identifier -/
  createdAt : Instant
  startedAt : Instant

/-- What is checked once the inventory's state is known; the variables for the run. -/
def vet (node : Machine) (call : LaunchCall) (entry : PlaybookEntry) (state : InventoryState) :
    Except ApiError (Dict String Value) :=
  match blocking entry (unmetPreconditions state node.selfTrusted) node with
  | reason :: more =>
      .error
        { code := "precondition_failed"
          message := reason
          statusCode := 409
          detail := Dict.ofList [("unmet", reason :: more)] }
  | [] =>
      if call.check && !entry.previewable then
        .error
          { code := "not_previewable"
            message := entry.title ++ " is driven by commands rather than by file templates, " ++
              "so check mode would report nothing meaningful."
            statusCode := 409 }
      else acceptedVariables entry call.suppliedVars

/-- The record `launch` constructs. -/
def launchRecord (node : Machine) (call : LaunchCall) (entry : PlaybookEntry)
    (commit : Option Hash) : RunRecord :=
  newRecord (newRunId call.createdAt)
    { playbook := entry.playbook
      playbookId := entry.id
      check := call.check
      launchedBy := call.launchedBy
      inventoryCommit := commit
      collectionVersion := node.collectionVersion }

/-- A save of another operator. -/
structure Save where
  candidate : Inventory
  author : String
  expectedHead : Option Hash := none
  message : Option String := none
  /-- of the commit it makes -/
  hash : Hash

variable (rt : Runtime)

/-- One save lands; git never gives a hash twice. -/
def landOne (s : Repo) (sv : Save) : Repo :=
  if s.Fresh sv.hash then
    (save rt s sv.candidate sv.author sv.expectedHead sv.message sv.hash {}).1
  else s

/-- Saves land, one after the other. -/
def land (s : Repo) (saves : List Save) : Repo := saves.foldl (landOne rt) s

@[simp] theorem land_nil (s : Repo) : land rt s [] = s := rfl

@[simp] theorem land_cons (s : Repo) (sv : Save) (rest : List Save) :
    land rt s (sv :: rest) = land rt (landOne rt s sv) rest := rfl

/-- The saves that land before each look of `launch` at the repository. -/
structure Schedule where
  /-- `state()` of `_unmet_preconditions` reads the file -/
  beforeCheckFile : List Save := []
  /-- and then HEAD -/
  beforeCheckHead : List Save := []
  /-- `state()` for the record reads the file -/
  beforeRecordFile : List Save := []
  /-- and then HEAD -/
  beforeRecordHead : List Save := []
  /-- `raw()` reads the file for the run directory -/
  beforeCopy : List Save := []

namespace Schedule

variable (g : Schedule) (s : Repo)

/-- The repository as `_unmet_preconditions` reads the file. -/
def atCheckFile : Repo := land rt s g.beforeCheckFile

/-- The repository as `_unmet_preconditions` reads HEAD. -/
def atCheckHead : Repo := land rt (g.atCheckFile rt s) g.beforeCheckHead

/-- The repository as the file is read for the record. -/
def atRecordFile : Repo := land rt (g.atCheckHead rt s) g.beforeRecordFile

/-- The repository as HEAD is read for the record. -/
def atRecordHead : Repo := land rt (g.atRecordFile rt s) g.beforeRecordHead

/-- The repository as the file is copied. -/
def atCopy : Repo := land rt (g.atRecordHead rt s) g.beforeCopy

end Schedule

/-- `launch` from the call of `acquire` on: the run directory is there, or nothing is. -/
def start (call : LaunchCall) (record : RunRecord) (inventory : String) (d : Disk) :
    Except LaunchError (Disk × RunRecord) :=
  match RunStore.acquire d record.id with
  | .error (.runLocked message) =>
      .error (.api { code := "run_in_progress", message := message, statusCode := 409 })
  | .ok d =>
      let d := RunStore.create d record inventory
      let record := markRunning call.startedAt record
      .ok (RunStore.save d record, record)

/-- `launch`, started on a repository and a run store: the run store afterwards, the
record it returns, and the variables the run's thread gets. -/
def launch (node : Machine) (call : LaunchCall) (g : Schedule) (s : Repo) (d : Disk) :
    Except LaunchError (Disk × RunRecord × Dict String Value) :=
  match Catalogue.get call.playbookId with
  | none =>
      .error (.api
        { code := "unknown_playbook"
          message := call.playbookId ++ " is not in the catalogue."
          statusCode := 404
          detail := Dict.ofList [("available", Text.sortedSet (catalogue.map (·.id)))] })
  | some entry =>
      match stateOf rt (g.atCheckFile rt s).read (g.atCheckHead rt s).head with
      | .error e => .error (.inventory e)
      | .ok state =>
          match vet node call entry state with
          | .error e => .error (.api e)
          | .ok extraVars =>
              match stateOf rt (g.atRecordFile rt s).read (g.atRecordHead rt s).head with
              | .error e => .error (.inventory e)
              | .ok state =>
                  let record := launchRecord node call entry state.commit
                  match start call record (g.atCopy rt s).read d with
                  | .error e => .error e
                  | .ok (d, record) => .ok (d, record, extraVars)

end SeapathWebui.Runs
