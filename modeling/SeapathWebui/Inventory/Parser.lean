/-
  Inventory/Parser.lean --- reading an inventory back into the model.

  Source: app/inventory/parser.py, and the coercions of the model it constructs
  (app/inventory/model.py): a key of a `dict[str, ...]` that is bytes is decoded,
  any other key that is no text is refused, and a number outside its field's range
  is refused.
-/
import SeapathWebui.Inventory.Renderer

set_option autoImplicit false

namespace SeapathWebui.Inventory

open SeapathWebui.Foundation

/-- What `parse` raises. -/
inductive ParseError
  /-- `InvalidInventory` -/
  | invalidInventory (message : String)
  /-- the loader raised something else than its own error -/
  | loader
  /-- a conversion raised -/
  | raised (e : Raised)
  /-- the model refused a value -/
  | validationError
  deriving DecidableEq, Repr

/-- A conversion, as a step of `parse`. -/
def raising {α : Type} : Except Raised α → Except ParseError α
  | .ok a => .ok a
  | .error e => .error (.raised e)

theorem raising_eq_ok {α : Type} {x : Except Raised α} {a : α} :
    raising x = .ok a ↔ x = .ok a := by
  cases x <;> simp [raising]

/-! ## The coercions of the model -/

/-- A key of a `dict[str, ...]` as the model reads it. -/
def keyText : Scalar → Option String
  | .str s => some s
  | .bytes b => (Utf8.decode b).map String.ofList
  | .null | .bool _ | .int _ | .float _ | .timestamp _ => none

/-- An entry of a `dict[str, ...]` as the model reads it. -/
def textEntry {V : Type} (e : Scalar × V) : Except ParseError (String × V) :=
  match keyText e.1 with
  | some name => .ok (name, e.2)
  | none => .error .validationError

/-- A `dict[str, ...]` as the model reads it: key by key, a later one wins. -/
def textKeys {V : Type} (entries : List (Scalar × V)) : Except ParseError (Dict String V) := do
  let pairs ← entries.mapM textEntry
  .ok (Dict.ofList pairs)

/-- `subnet`, in its range. -/
def subnetField (n : Int) : Except ParseError Subnet :=
  if h : 1 ≤ n ∧ n ≤ 32 then .ok ⟨n, h⟩ else .error .validationError

/-- `ptp_domain_number`, in its range. -/
def ptpDomainField : Option Int → Except ParseError (Option PtpDomain)
  | none => .ok none
  | some n => if h : 0 ≤ n ∧ n ≤ 255 then .ok (some ⟨n, h⟩) else .error .validationError

/-! ## Reading variables -/

variable (rt : Runtime)

/-- `str(known.get(name) or "")` -/
def textOrEmpty (value : Option Value) : Except Raised String :=
  match value with
  | none => .ok ""
  | some v => if v.truthy then v.toText rt.repr else .ok ""

/-- `int(known.get("subnet") or 24)` -/
def subnetOr24 (value : Option Value) : Except Raised Int :=
  match value with
  | none => .ok 24
  | some v => if v.truthy then v.toInt else .ok 24

/-- `_optional_str` -/
def optionalStr : Option Value → Except Raised (Option String)
  | none => .ok none
  | some (.scalar .null) => .ok none
  | some v => (v.toText rt.repr).map some

/-- `_optional_int` -/
def optionalInt : Option Value → Except Raised (Option Int)
  | none => .ok none
  | some v =>
      match v.toInt with
      | .ok n => .ok (some n)
      | .error .typeError | .error .valueError => .ok none
      | .error .overflowError => .error .overflowError

/-- `_as_list` -/
def asList : Option Value → Except Raised (List String)
  | none => .ok []
  | some (.scalar .null) => .ok []
  | some (.scalar (.str s)) => .ok [s]
  | some v => do
      let items ← v.iterate
      items.mapM (·.toText rt.repr)

/-- A variable `_node` leaves to `extra`. -/
def isExtra : Scalar → Bool
  | .str s => s ∉ reservedNames
  | _ => true

/-- What `_node` converts, in its order, before the model checks any of it. -/
structure Converted where
  ansibleHost : String
  networkInterface : String
  subnet : Int
  gatewayAddr : Option String
  dnsServers : List String
  ptpInterface : Option String
  ptpDomainNumber : Option Int
  ntpServers : List String
  adminUser : Option String
  grubPassword : Option String
  isolcpus : Option String

/-- The conversions of `_node`; `known` looks a variable up. -/
def convert (known : String → Option Value) (groupIsolcpus : Option Value) :
    Except Raised Converted := do
  let ansibleHost ← textOrEmpty rt (known "ansible_host")
  let networkInterface ← textOrEmpty rt (known "network_interface")
  let subnet ← subnetOr24 (known "subnet")
  let gatewayAddr ← optionalStr rt (known "gateway_addr")
  let dnsServers ← asList rt (known "dns_servers")
  let ptpInterface ← optionalStr rt (known "ptp_interface")
  let ptpDomainNumber ← optionalInt (known "ptp_domain_number")
  let ntpServers ← asList rt (known "ntp_servers")
  let adminUser ← optionalStr rt (known "admin_user")
  let grubPassword ← optionalStr rt (known "grub_password")
  let isolcpus ← optionalStr rt ((known "isolcpus").or groupIsolcpus)
  .ok ⟨ansibleHost, networkInterface, subnet, gatewayAddr, dnsServers, ptpInterface,
    ptpDomainNumber, ntpServers, adminUser, grubPassword, isolcpus⟩

/-- The model, constructed of what `_node` converted. -/
def construct (role : Role) (c : Converted) (extra : Dict String Value) :
    Except ParseError NodeConfig := do
  let subnet ← subnetField c.subnet
  let ptpDomainNumber ← ptpDomainField c.ptpDomainNumber
  .ok
    { role := role
      ansibleHost := c.ansibleHost
      networkInterface := c.networkInterface
      subnet := subnet
      gatewayAddr := c.gatewayAddr
      dnsServers := c.dnsServers
      ptpInterface := c.ptpInterface
      ptpDomainNumber := ptpDomainNumber
      ntpServers := c.ntpServers
      adminUser := c.adminUser
      grubPassword := c.grubPassword
      isolcpus := c.isolcpus
      extra := extra }

/-- `_node` -/
def node (vars : Dict Scalar Value) (isObserver : Bool) (groupIsolcpus : Option Value) :
    Except ParseError NodeConfig := do
  let converted ← raising (convert rt (fun name => vars.get? (.str name)) groupIsolcpus)
  let extra ← textKeys (vars.filterKeys isExtra).entries
  construct (if isObserver then .observer else .hypervisor) converted extra

theorem extra_of_construct {role : Role} {c : Converted} {extra : Dict String Value}
    {config : NodeConfig} (h : construct role c extra = .ok config) : config.extra = extra := by
  obtain ⟨subnet, -, h⟩ := bind_eq_ok.mp h
  obtain ⟨ptpDomainNumber, -, h⟩ := bind_eq_ok.mp h
  exact (Except.ok.inj h) ▸ rfl

/-- `extra` is read from the variables `_node` leaves to it. -/
theorem extra_of_node {vars : Dict Scalar Value} {isObserver : Bool}
    {groupIsolcpus : Option Value} {config : NodeConfig}
    (h : node rt vars isObserver groupIsolcpus = .ok config) :
    textKeys (vars.filterKeys isExtra).entries = .ok config.extra := by
  obtain ⟨converted, -, h⟩ := bind_eq_ok.mp h
  obtain ⟨extra, hextra, h⟩ := bind_eq_ok.mp h
  rw [extra_of_construct h, hextra]

/-! ## Reading groups -/

/-- What a group has under `key`, when both are mappings. -/
def groupMapping (key : String) (group : Option Value) : Dict Scalar Value :=
  match group.bind Value.asDict with
  | none => ∅
  | some fields => ((fields.get? (.str key)).bind Value.asDict).getD ∅

/-- `_group_hosts` -/
def groupHosts (group : Option Value) : Dict Scalar Value := groupMapping "hosts" group

/-- `_group_host_names` -/
def groupHostNames (group : Option Value) : List Scalar := (groupHosts group).keys

/-- `_group_vars` -/
def groupVars (group : Option Value) : Dict Scalar Value := groupMapping "vars" group

/-- `dict(raw or {})` -/
def hostVariables (raw : Value) : Except Raised (Dict Scalar Value) :=
  if raw.truthy then raw.toDict else .ok ∅

/-- The hosts of a loaded document, read one after the other. -/
def hostNodes (groups : Dict Scalar Value) : Except ParseError (List (Scalar × NodeConfig)) :=
  let observers := groupHostNames (groups.get? (.str "observers"))
  let groupIsolcpus := (groupVars (groups.get? (.str "hypervisors"))).get? (.str "isolcpus")
  (groupHosts (groups.get? (.str "all"))).entries.mapM fun e => do
    let vars ← raising (hostVariables e.2)
    let config ← node rt vars (e.1 ∈ observers) groupIsolcpus
    .ok (e.1, config)

/-! ## The document -/

/-- `parse`, from the loaded document on. -/
def parseGroups (groups : Dict Scalar Value) : Except ParseError Inventory :=
  if (groupHosts (groups.get? (.str "all"))).entries = [] then
    .error (.invalidInventory "The inventory declares no host under `all`.")
  else do
    let parsed ← hostNodes rt groups
    let hosts ← textKeys parsed
    .ok
      { mode :=
          if groupHostNames (groups.get? (.str "cluster_machines")) = [] then .standalone
          else .cluster
        hosts := hosts }

/-- `parse` of what the loader made of the file. -/
def parseLoaded (loaded : Value) : Except ParseError Inventory :=
  if loaded.truthy then
    match loaded.asDict with
    | none => .error (.invalidInventory "The inventory must be a mapping of groups.")
    | some groups => parseGroups rt groups
  else parseGroups rt ∅

/-- `parse` -/
def parse (document : String) : Except ParseError Inventory :=
  match rt.safeLoad document with
  | .error (.yaml e) => .error (.invalidInventory ("The inventory is not valid YAML: " ++ e))
  | .error .other => .error .loader
  | .ok loaded => parseLoaded rt loaded

/-- What `parse` went through when it accepts. -/
theorem parse_eq_ok {document : String} {inventory : Inventory}
    (h : parse rt document = .ok inventory) :
    ∃ loaded groups parsed, rt.safeLoad document = .ok loaded ∧ loaded.asDict = some groups ∧
      hostNodes rt groups = .ok parsed ∧ textKeys parsed = .ok inventory.hosts ∧
      inventory.mode =
        if groupHostNames (groups.get? (.str "cluster_machines")) = [] then .standalone
        else .cluster := by
  unfold parse at h
  cases hload : rt.safeLoad document with
  | error e =>
      rw [hload] at h
      cases e <;> cases h
  | ok loaded =>
      rw [hload] at h
      simp only [parseLoaded] at h
      have hgroups : ∃ groups, loaded.asDict = some groups ∧
          parseGroups rt groups = .ok inventory := by
        split at h
        · split at h
          · cases h
          · rename_i groups hgroups
            exact ⟨groups, hgroups, h⟩
        · -- an empty document has no host
          cases h
      obtain ⟨groups, hgroups, h⟩ := hgroups
      unfold parseGroups at h
      split at h
      · cases h
      · obtain ⟨parsed, hparsed, h⟩ := bind_eq_ok.mp h
        obtain ⟨hosts, hhosts, h⟩ := bind_eq_ok.mp h
        obtain rfl := Except.ok.inj h
        exact ⟨loaded, groups, parsed, rfl, hgroups, hparsed, hhosts, rfl⟩

/-- What `hostNodes` makes of a host. -/
theorem read_of_hostNode {e : Scalar × Value} {b : Scalar × NodeConfig}
    {observers : List Scalar} {groupIsolcpus : Option Value}
    (h : (do
      let vars ← raising (hostVariables e.2)
      let config ← node rt vars (e.1 ∈ observers) groupIsolcpus
      Except.ok (e.1, config)) = .ok b) :
    b.1 = e.1 ∧ ∃ vars, hostVariables e.2 = .ok vars ∧
      node rt vars (e.1 ∈ observers) groupIsolcpus = .ok b.2 := by
  obtain ⟨vars, hvars, h⟩ := bind_eq_ok.mp h
  obtain ⟨config, hnode, h⟩ := bind_eq_ok.mp h
  obtain rfl := Except.ok.inj h
  exact ⟨rfl, vars, raising_eq_ok.mp hvars, hnode⟩

theorem textEntry_eq_ok {V : Type} {e : Scalar × V} {b : String × V}
    (h : textEntry e = .ok b) : keyText e.1 = some b.1 ∧ b.2 = e.2 := by
  unfold textEntry at h
  split at h
  · rename_i name hname
    obtain rfl := Except.ok.inj h
    exact ⟨hname, rfl⟩
  · cases h

end SeapathWebui.Inventory
