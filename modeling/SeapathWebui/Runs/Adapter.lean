/-
  Runs/Adapter.lean --- what executes a playbook.

  Source: app/runs/adapter.py, `FakeRunAdapter` of app/runs/fake.py, and the request that
  `_execute` of app/runs/service.py makes.

  Seen from the service an adapter is a program that asks `should_cancel`, calls back with
  events and output, and ends with an outcome or an exception (`Call`).  What it relies on
  is that an adapter says it was cancelled only after `should_cancel` said so
  (`RunAdapter.Honest`): ansible-runner reports "canceled" exactly then, and the fake is
  read here.
-/
import SeapathWebui.Runs.Progress

set_option autoImplicit false

namespace SeapathWebui.Runs

open SeapathWebui.Foundation

/-! ## Requests -/

/-- `RunRequest` -/
structure RunRequest where
  runId : RunId
  playbook : String
  inventoryFile : String
  privateDataDir : String
  collectionsPath : String
  privateKeyFile : String
  knownHostsFile : String
  extraVars : Dict String Value := ∅
  check : Bool := false

/-- `RunPaths` -/
structure RunPaths where
  collectionsPath : String
  privateKeyFile : String
  knownHostsFile : String
  deriving DecidableEq, Repr

/-- The request that `_execute` gives to the adapter. -/
def RunPaths.request (paths : RunPaths) (directory : String) (extraVars : Dict String Value)
    (r : RunRecord) : RunRequest where
  runId := r.id
  playbook := r.playbook
  inventoryFile := directory ++ "/inventory.yaml"
  privateDataDir := directory
  collectionsPath := paths.collectionsPath
  privateKeyFile := paths.privateKeyFile
  knownHostsFile := paths.knownHostsFile
  extraVars := extraVars
  check := r.check

/-! ## Preparation -/

/-- `" ".join(_SSH_OPTIONS).format(known_hosts=...)` -/
def sshArgs (knownHosts : String) : String :=
  " ".intercalate
    ["-o UserKnownHostsFile=" ++ knownHosts, "-o IdentitiesOnly=yes", "-o ControlMaster=auto",
      "-o ControlPersist=60s"]

/-- `_CONFIG_TEMPLATE.format(...)`, by lines. -/
def configLines (request : RunRequest) : List String :=
  [ "# Generated by seapath-webui for run " ++ request.runId ++ ".",
    "#",
    "# seapath-ansible ships its ansible.cfg under galaxy.yml build_ignore, so the",
    "# installed collection carries none of it. These are the settings that change",
    "# what a run does, reproduced from the upstream file.",
    "",
    "[defaults]",
    "forks = 20",
    "gathering = explicit",
    "any_errors_fatal = True",
    "force_valid_group_names = ignore",
    "timeout = 60",
    "host_key_checking = True",
    "collections_path = " ++ request.collectionsPath,
    "private_key_file = " ++ request.privateKeyFile,
    "",
    "[tags]",
    "skip = package-install",
    "",
    "[ssh_connection]",
    "# The host key comes from the machine's own filesystem, never from an",
    "# unverified first connection. IdentitiesOnly stops the agent, if there somehow",
    "# is one, from offering a key nobody authorised. This must stay on one line:",
    "# a continuation would put a newline inside the value Ansible hands to ssh.",
    "ssh_args = " ++ sshArgs request.knownHostsFile ]

/-- `_as_ansible_literal`; the integers of a JSON text are not too long to be written. -/
def asAnsibleLiteral (rt : Runtime) : Value → String
  | .scalar (.bool b) => if b then "true" else "false"
  | value => value.text rt.repr

/-- `Preparation`, with the text written to its configuration file. -/
structure Preparation where
  configFile : String
  config : String
  environment : List (String × String)
  command : List String
  deriving DecidableEq

/-- The arguments of one variable. -/
def extraVarsArguments (rt : Runtime) (e : String × Value) : List String :=
  ["--extra-vars", e.1 ++ "=" ++ asAnsibleLiteral rt e.2]

/-- The process of the service: where its interpreter is, and the search path that it was given,
empty where it was given none. -/
structure Process where
  directory : String
  inherited : String := ""

/-- `_path_with_this_interpreter_first` -/
def pathWithThisInterpreterFirst (process : Process) : String :=
  if process.inherited = "" then process.directory
  else process.directory ++ ":" ++ process.inherited

/-- `prepare` -/
def prepare (rt : Runtime) (process : Process) (request : RunRequest) : Preparation :=
  let configFile := request.privateDataDir ++ "/ansible.cfg"
  -- no two names are the same, so the values are not compared
  let items := request.extraVars.entries.insertionSort fun e f => e.1 ≤ f.1
  { configFile := configFile
    config := String.join ((configLines request).map (· ++ "\n"))
    environment :=
      [("ANSIBLE_CONFIG", configFile), ("ANSIBLE_COLLECTIONS_PATH", request.collectionsPath),
        ("ANSIBLE_PRIVATE_KEY_FILE", request.privateKeyFile),
        ("ANSIBLE_HOST_KEY_CHECKING", "True"),
        ("PATH", pathWithThisInterpreterFirst process)]
    command := ["ansible-playbook", "-i", request.inventoryFile] ++
      (if request.check then ["--check"] else []) ++
      items.flatMap (extraVarsArguments rt) ++ [request.playbook] }

/-! ## Adapters -/

/-- What an adapter does next, and where it stands afterwards. -/
inductive Call (σ : Type*)
  /-- a file operation of its own, which may raise -/
  | operate (next raised : σ)
  /-- `should_cancel()` -/
  | poll (next : Bool → σ)
  /-- `on_event(event)`, which may raise -/
  | event (e : Event) (next raised : σ)
  /-- `on_output(text)`, which may raise -/
  | output (text : String) (next raised : σ)
  | finish (outcome : RunOutcome)
  | raise (message : String)

/-- `RunAdapter` -/
structure RunAdapter (σ : Type*) where
  start : RunRequest → σ
  call : σ → Call σ

namespace RunAdapter

variable {σ : Type*} (A : RunAdapter σ)

/-- Where the adapter goes on after a call back that returned. -/
def resumed (s : σ) : σ :=
  match A.call s with
  | .operate next _ | .event _ next _ | .output _ next _ => next
  | .poll _ | .finish _ | .raise _ => s

/-- Where it goes on after one that raised. -/
def interrupted (s : σ) : σ :=
  match A.call s with
  | .operate _ raised | .event _ _ raised | .output _ _ raised => raised
  | .poll _ | .finish _ | .raise _ => s

/-- A point that the adapter gets to while `should_cancel` has not said yes. -/
inductive Uncancelled : σ → Prop
  | start (request : RunRequest) : Uncancelled (A.start request)
  | resumed {s : σ} (h : Uncancelled s) : Uncancelled (A.resumed s)
  | interrupted {s : σ} (h : Uncancelled s) : Uncancelled (A.interrupted s)
  | poll {s : σ} {next : Bool → σ} (h : Uncancelled s) (hcall : A.call s = .poll next) :
      Uncancelled (next false)

/-- The adapter says that it was cancelled only after `should_cancel` said so. -/
def Honest : Prop :=
  ∀ s, A.Uncancelled s → ∀ outcome, A.call s = .finish outcome → outcome.cancelled = false

end RunAdapter

/-! ## The fake -/

/-- Where `FakeRunAdapter.execute` stands. -/
inductive FakePoint
  /-- `prepare(request)` -/
  | preparing (request : RunRequest)
  /-- the head of the loop, with the events left; after the last one the output follows -/
  | asking (command : List String) (rest : List Event)
  /-- the body of the loop, after `should_cancel()` said no -/
  | reporting (command : List String) (e : Event) (rest : List Event)
  | returning (outcome : RunOutcome)
  | raising

/-- `FakeRunAdapter`; `exception` is the text of what a call back raised. -/
def fakeRunAdapter (rt : Runtime) (process : Process) (exception : String) (events : List Event)
    (returnCode : Int) (output : String) : RunAdapter FakePoint where
  start := .preparing
  call
    | .preparing request => .operate (.asking (prepare rt process request).command events) .raising
    | .asking command (e :: rest) => .poll fun
        | true => .returning { returnCode := none, command := command, cancelled := true }
        | false => .reporting command e rest
    | .asking command [] => .output output (.returning { returnCode, command }) .raising
    | .reporting command e rest => .event e (.asking command rest) .raising
    | .returning outcome => .finish outcome
    | .raising => .raise exception

/-- The fake says that it was cancelled only where it was told to stop. -/
theorem fakeRunAdapter_honest (rt : Runtime) (process : Process) (exception : String)
    (events : List Event) (returnCode : Int) (output : String) :
    (fakeRunAdapter rt process exception events returnCode output).Honest := by
  intro s hs outcome hcall
  have hpoint : ∀ o, s = .returning o → o.cancelled = false := by
    clear hcall
    induction hs with
    | start request => exact fun o h => by cases h
    | @resumed s h ih =>
        cases s with
        | asking command rest =>
            cases rest with
            | nil => exact fun o h => by cases h; rfl
            | cons e rest => exact fun o h => by cases h
        | returning outcome => exact ih
        | preparing | reporting | raising => exact fun o h => by cases h
    | @interrupted s h ih =>
        cases s with
        | asking command rest => cases rest <;> exact fun o h => by cases h
        | returning outcome => exact ih
        | preparing | reporting | raising => exact fun o h => by cases h
    | @poll s next h hcall ih =>
        cases s with
        | asking command rest =>
            cases rest with
            | nil => cases hcall
            | cons e rest =>
                injection hcall with hnext
                exact fun o h => by rw [← hnext] at h; cases h
        | preparing | reporting | returning | raising => cases hcall
  cases s with
  | returning o =>
      injection hcall with ho
      exact ho ▸ hpoint o rfl
  | asking command rest => cases rest <;> cases hcall
  | preparing | reporting | raising => cases hcall

end SeapathWebui.Runs
