/-
  Inventory/Service.lean --- the inventory as the API and the forms see it.

  Source: app/inventory/service.py.

  `save` and `ensureSeed` are the two ways a rendered inventory reaches git.
  `save` validates the candidate first, and writes a message that names what
  changed; `ensureSeed` writes what the machine proposes about itself, once.
-/
import SeapathWebui.Inventory.Discovery
import SeapathWebui.Inventory.Repository
import SeapathWebui.Inventory.Validation

set_option autoImplicit false

namespace SeapathWebui.Inventory

open SeapathWebui.Foundation SeapathWebui.Hosts

/-- What the service raises. -/
inductive ServiceError
  | repository (e : RepoError)
  | parse (e : ParseError)
  /-- `validate` raised -/
  | validation
  | render (e : RenderError)
  | discovery (e : DiscoveryError)
  deriving DecidableEq, Repr

variable (rt : Runtime)

/-! ## Reading -/

/-- `InventoryState`: what `GET /inventory` answers. -/
structure InventoryState where
  inventory : Option Inventory := none
  commit : Option Hash := none
  validation : ValidationResult := {}
  seeded : Bool := false
  parseError : Option String := none

/-- `InventoryService.state`, from the text of the file and from what `head` answers
after it. -/
def stateOf (document : String) (head : Option Hash) : Except ServiceError InventoryState :=
  if Text.strip document = "" then .ok {}
  else
    match parse rt document with
    | .error (.invalidInventory message) =>
        -- a file that is broken does not make the view fail
        .ok { seeded := true, commit := head, parseError := some message }
    | .error e => .error (.parse e)
    | .ok inventory =>
        if validateRaises rt inventory then .error .validation
        else
          .ok
            { inventory := some inventory
              commit := head
              validation := validate rt inventory
              seeded := true }

/-- `InventoryService.state` -/
def state (s : Repo) (revParseFails : Bool) : Except ServiceError InventoryState :=
  stateOf rt s.read (if revParseFails then none else s.head)

/-! ## Commit messages -/

/-- `_SECTIONS` -/
def sections : List (String × String) :=
  [("ansible_host", "network"), ("network_interface", "network"), ("subnet", "network"),
    ("gateway_addr", "network"), ("dns_servers", "network"), ("ptp_interface", "time"),
    ("ptp_domain_number", "time"), ("ntp_servers", "time"), ("admin_user", "accounts"),
    ("grub_password", "accounts"), ("isolcpus", "realtime"), ("role", "cluster")]

/-- The fields of the model but `extra`, in order, and whether they differ. -/
def fieldsDiffer (before after : NodeConfig) : List (String × Bool) :=
  [("role", before.role != after.role),
    ("ansible_host", before.ansibleHost != after.ansibleHost),
    ("network_interface", before.networkInterface != after.networkInterface),
    ("subnet", before.subnet != after.subnet),
    ("gateway_addr", before.gatewayAddr != after.gatewayAddr),
    ("dns_servers", before.dnsServers != after.dnsServers),
    ("ptp_interface", before.ptpInterface != after.ptpInterface),
    ("ptp_domain_number", before.ptpDomainNumber != after.ptpDomainNumber),
    ("ntp_servers", before.ntpServers != after.ntpServers),
    ("admin_user", before.adminUser != after.adminUser),
    ("grub_password", before.grubPassword != after.grubPassword),
    ("isolcpus", before.isolcpus != after.isolcpus)]

/-- `_changed_fields` -/
def changedFields (before after : NodeConfig) : List (String × String) :=
  ((fieldsDiffer before after).filter (·.2)).map fun e =>
    ((sections.lookup e.1).getD "inventory", e.1)

/-- The message for a change of hosts that stay. -/
def changeMessage (previous candidate : Inventory) : String :=
  let changes := candidate.hosts.entries.flatMap fun e =>
    match previous.hosts.get? e.1 with
    | none => []
    | some before => (changedFields before e.2).map fun (change : String × String) =>
        (change.1, change.2, e.1)
  if changes = [] then "inventory: no change"
  else
    ", ".intercalate (Text.sortedSet (changes.map (·.1))) ++ ": set " ++
      ", ".intercalate (Text.sortedSet (changes.map (·.2.1))) ++ " on " ++
      ", ".intercalate (Text.sortedSet (changes.map (·.2.2)))

/-- `_message_for`, from the previous inventory on. -/
def messageSince (previous : Option Inventory) (candidate : Inventory) : String :=
  match previous with
  | none => "inventory: describe " ++ ", ".intercalate candidate.hostNames
  | some previous =>
      let added := candidate.hostNames.filter fun name => name ∉ previous.hostNames
      let removed := previous.hostNames.filter fun name => name ∉ candidate.hostNames
      if added ≠ [] then "cluster: add " ++ ", ".intercalate (Text.sortedSet added)
      else if removed ≠ [] then "cluster: remove " ++ ", ".intercalate (Text.sortedSet removed)
      else changeMessage previous candidate

/-- `_message_for` -/
def messageFor (s : Repo) (candidate : Inventory) (revParseFails : Bool) :
    Except ServiceError String := do
  let state ← state rt s revParseFails
  .ok (messageSince state.inventory candidate)

/-! ## Writing -/

/-- A call of the repository, as a step of the service. -/
def committing {α : Type} (result : Repo × Except RepoError (Option Commit))
    (answer : Option Commit → α) : Repo × Except ServiceError α :=
  (result.1, match result.2 with
    | .error e => .error (.repository e)
    | .ok commit => .ok (answer commit))

theorem committing_fst {α : Type} (result : Repo × Except RepoError (Option Commit))
    (answer : Option Commit → α) : (committing result answer).1 = result.1 := rfl

/-- `InventoryService.save` -/
def save (s : Repo) (candidate : Inventory) (author : String) (expectedHead : Option Hash)
    (message : Option String) (hash : Hash) (f : Faults) :
    Repo × Except ServiceError (Option Commit × ValidationResult) :=
  if validateRaises rt candidate then (s, .error .validation)
  else
    let result := validate rt candidate
    if result.valid = false then (s, .ok (none, result))
    else
      match message.elim (messageFor rt s candidate f.revParse) .ok with
      | .error e => (s, .error e)
      | .ok message =>
          match render rt candidate with
          | .error e => (s, .error (.render e))
          | .ok content =>
              committing (commit s ⟨content, message, author, expectedHead⟩ hash f) fun c =>
                (c, result)

/-- `ensure_seed` -/
def ensureSeed (s : Repo) (reader : HostReading) (hash : Hash) (f : Faults) :
    Repo × Except ServiceError Bool :=
  match initialise s f.init with
  | .error e => (s, .error (.repository e))
  | .ok s =>
      if Text.strip s.read ≠ "" then (s, .ok false)
      else
        match discover reader with
        | .error e => (s, .error (.discovery e))
        | .ok discovery =>
            match seedInventory discovery with
            | none => (s, .ok false)
            | some candidate =>
                match render rt candidate with
                | .error e => (s, .error (.render e))
                | .ok content =>
                    committing
                      (commit s
                        { content := content
                          message := "discovery: seed this machine's own entry at first boot"
                          author := committerName } hash f)
                      fun _ => true

end SeapathWebui.Inventory
