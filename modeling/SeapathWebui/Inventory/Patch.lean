/-
  Inventory/Patch.lean --- the two ways the API changes one machine.

  Source: `replace`, `patch_host` and `_save` of app/api/v1/inventory.py, and what they call
  of app/inventory/validation.py and app/inventory/renderer.py.

  `replace` takes an inventory that the request model has read.  `patch_host` copies the
  stored node and puts the values of the request into it as they come: the copy has the
  attributes of a `NodeConfig`, and any JSON value in each.  `Attributes` is such a copy.
  The rules and the renderer are written here once more, over attributes; where a value is
  not of the type they expect they may raise, which is `none`.  Warnings refuse nothing, and
  are left out.

  A JSON text has no bytes and no dates, and an object in it names a key once; nothing below
  is meant for other values.
-/
import SeapathWebui.Inventory.Validation

set_option autoImplicit false

namespace SeapathWebui.Inventory

open SeapathWebui.Foundation SeapathWebui.Hosts

/-! ## Attributes -/

/-- `NodeConfig.model_fields` -/
def nodeFields : List String :=
  ["role", "ansible_host", "network_interface", "subnet", "gateway_addr", "dns_servers",
    "ptp_interface", "ptp_domain_number", "ntp_servers", "admin_user", "grub_password",
    "isolcpus", "extra"]

/-- The attributes of a copied node. -/
structure Attributes where
  /-- a member of the enumeration, or a value that came with a request -/
  role : Role ⊕ Value
  ansibleHost : Value
  networkInterface : Value
  subnet : Value
  gatewayAddr : Value
  dnsServers : Value
  ptpInterface : Value
  ptpDomainNumber : Value
  ntpServers : Value
  adminUser : Value
  grubPassword : Value
  isolcpus : Value
  extra : Value

/-- An optional text, as a value. -/
def ofText : Option String → Value
  | none => .null
  | some s => .str s

/-- A list of texts, as a value. -/
def ofTexts (texts : List String) : Value := .seq .list (texts.map .str)

/-- An optional number, as a value. -/
def ofDomain : Option PtpDomain → Value
  | none => .null
  | some n => .scalar (.int n)

/-- The attributes of a node of the model. -/
def NodeConfig.attributes (node : NodeConfig) : Attributes where
  role := .inl node.role
  ansibleHost := .str node.ansibleHost
  networkInterface := .str node.networkInterface
  subnet := .scalar (.int node.subnet)
  gatewayAddr := ofText node.gatewayAddr
  dnsServers := ofTexts node.dnsServers
  ptpInterface := ofText node.ptpInterface
  ptpDomainNumber := ofDomain node.ptpDomainNumber
  ntpServers := ofTexts node.ntpServers
  adminUser := ofText node.adminUser
  grubPassword := ofText node.grubPassword
  isolcpus := ofText node.isolcpus
  extra := .ofDict node.extra

/-- `node.model_copy(update=changes)` -/
def Attributes.update (a : Attributes) (changes : Dict String Value) : Attributes where
  role := ((changes.get? "role").map .inr).getD a.role
  ansibleHost := (changes.get? "ansible_host").getD a.ansibleHost
  networkInterface := (changes.get? "network_interface").getD a.networkInterface
  subnet := (changes.get? "subnet").getD a.subnet
  gatewayAddr := (changes.get? "gateway_addr").getD a.gatewayAddr
  dnsServers := (changes.get? "dns_servers").getD a.dnsServers
  ptpInterface := (changes.get? "ptp_interface").getD a.ptpInterface
  ptpDomainNumber := (changes.get? "ptp_domain_number").getD a.ptpDomainNumber
  ntpServers := (changes.get? "ntp_servers").getD a.ntpServers
  adminUser := (changes.get? "admin_user").getD a.adminUser
  grubPassword := (changes.get? "grub_password").getD a.grubPassword
  isolcpus := (changes.get? "isolcpus").getD a.isolcpus
  extra := (changes.get? "extra").getD a.extra

/-- What is iterated over, or nothing if it is not iterable. -/
def items (v : Value) : Option (List Value) := v.iterate.toOption

namespace Attributes

variable (rt : Runtime)

/-! ## The rules -/

/-- `_address` -/
def address (v : Value) : Option IpAddress :=
  if v.truthy then
    match v with
    | .scalar (.int n) => IpAddress.ofInt n
    | .scalar (.bool b) => IpAddress.ofInt (if b then 1 else 0)
    | v => IpAddress.parse (v.text rt.repr)
  else none

/-- The administration address. -/
def addressErrors (name : String) (a : Attributes) : List Finding :=
  match address rt a.ansibleHost with
  | none =>
      [{ level := .error
         rule := "administration_address_is_an_address"
         host := some name
         field := some "ansible_host"
         message := rt.repr a.ansibleHost ++
           " is not an IP address. SEAPATH addresses machines by address, not by name." }]
  | some ip =>
      if ip.isLoopback then
        [{ level := .error
           rule := "administration_address_is_not_loopback"
           host := some name
           field := some "ansible_host"
           message := "The loopback address cannot be the administration address: no other " ++
             "machine could reach this one." }]
      else []

/-- The administration interface. -/
def interfaceErrors (name : String) (a : Attributes) : List Finding :=
  if a.networkInterface.truthy then []
  else
    [{ level := .error
       rule := "administration_interface_is_named"
       host := some name
       field := some "network_interface"
       message := "The administration interface must be named." }]

/-- The gateway, when there is one.  Building the network raises where the text of `subnet`
is no prefix length. -/
def gatewayErrors (name : String) (a : Attributes) : Option (List Finding) :=
  if a.gatewayAddr.truthy then
    match address rt a.gatewayAddr, address rt a.ansibleHost with
    | none, _ =>
        some [{ level := .error
                rule := "gateway_is_an_address"
                host := some name
                field := some "gateway_addr"
                message := rt.repr a.gatewayAddr ++ " is not an IP address." }]
    | some gateway, some ip => do
        let length ← ip.prefixLength (a.subnet.text rt.repr)
        some <|
          if IpAddress.inNetwork length ip gateway then []
          else
            [{ level := .error
               rule := "gateway_is_reachable"
               host := some name
               field := some "gateway_addr"
               message := "The gateway " ++ gateway.text ++ " is outside " ++
                 ip.networkText length ++ ", so this machine could never reach it." }]
    | some _, none => some []
  else some []

/-- The name servers. -/
def dnsErrors (name : String) (a : Attributes) : Option (List Finding) :=
  (items a.dnsServers).map fun servers => servers.flatMap fun server =>
    if address rt server = none then
      [{ level := .error
         rule := "dns_servers_are_addresses"
         host := some name
         field := some "dns_servers"
         message := rt.repr server ++ " is not an IP address." }]
    else []

/-- The GRUB password, when there is one: only a text has a `startswith`. -/
def grubErrors (name : String) (a : Attributes) : Option (List Finding) :=
  if a.grubPassword.truthy then
    match a.grubPassword with
    | .scalar (.str password) =>
        some <|
          if grubHashPrefix.toList <+: password.toList then []
          else
            [{ level := .error
               rule := "grub_password_is_a_hash"
               host := some name
               field := some "grub_password"
               message := "The GRUB password must be a PBKDF2 hash. A password in clear in the " ++
                 "inventory is a password in `git log`." }]
    | _ => none
  else some []

/-- `_validate_isolcpus`: only a text has a `split`, and a list has a limit. -/
def isolcpusErrors (name : String) (a : Attributes) : Option (List Finding) :=
  if a.isolcpus.truthy then
    match a.isolcpus with
    | .scalar (.str cpus) =>
        if rt.listLimit < cpuCount cpus then none
        else
          some <|
            if parseCpuList cpus = [] then
              [{ level := .error
                 rule := "isolcpus_is_a_cpu_list"
                 host := some name
                 field := some "isolcpus"
                 message := rt.repr (.str cpus) ++
                   " is not a CPU list. Use the kernel syntax, for example 4-7 or 4-7,12." }]
            else if 0 ∈ parseCpuList cpus then
              [{ level := .error
                 rule := "cpu_zero_stays_housekeeping"
                 host := some name
                 field := some "isolcpus"
                 message := "CPU 0 cannot be isolated. It carries work the kernel cannot move, " ++
                   "and isolating it strands the machine." }]
            else []
    | _ => none
  else some []

/-- The errors of `_validate_host`. -/
def hostErrors (name : String) (a : Attributes) : Option (List Finding) := do
  let gateway ← gatewayErrors rt name a
  let dns ← dnsErrors rt name a
  let grub ← grubErrors name a
  let isolcpus ← isolcpusErrors rt name a
  some (hostnameFindings rt name ++ addressErrors rt name a ++ interfaceErrors name a ++ gateway ++
    dns ++ grub ++ isolcpus)

/-- `_validate_across_hosts`, from the addresses seen so far on: an address is looked up in a
dictionary. -/
def acrossErrors (seen : Dict Scalar String) : List (String × Attributes) → Option (List Finding)
  | [] => some []
  | (name, a) :: rest =>
      match a.ansibleHost with
      | .scalar address => do
          let later ← acrossErrors (seen.set address name) rest
          some ((match seen.get? address with
            | none => []
            | some owner =>
                [{ level := .error
                   rule := "addresses_are_unique"
                   host := some name
                   field := some "ansible_host"
                   message := a.ansibleHost.text rt.repr ++
                     " is already the administration address of " ++ owner ++ "." }]) ++ later)
      | .seq _ _ | .map _ => none

/-- The errors of `validate`, of a standalone inventory. -/
def errors (hosts : Dict String Attributes) : Option (List Finding) := do
  let each ← hosts.entries.mapM fun e => hostErrors rt e.1 e.2
  let across ← acrossErrors rt ∅ hosts.entries
  some ((if hosts.entries = [] then
      [{ level := .error
         rule := "at_least_one_host"
         message := "An inventory with no machine in it converges nothing." }]
    else []) ++
    (if 1 < hosts.entries.length then
      [{ level := .error
         rule := "standalone_is_one_machine"
         message := "A standalone inventory describes exactly one machine. Add the others by " ++
           "forming a cluster." }]
    else []) ++ each.flatten ++ across)

/-! ## The document -/

/-- `if node.x: variables[name] = node.x` -/
def optionalVar (name : String) (v : Value) : List (Scalar × Value) :=
  if v.truthy then [(.str name, v)] else []

/-- `if node.x: variables[name] = list(node.x)` -/
def listVar (name : String) (v : Value) : Option (List (Scalar × Value)) :=
  if v.truthy then (items v).map fun list => [(.str name, .seq .list list)] else some []

/-- The PTP domain, and the variables that follow it. -/
def ptpVars (v : Value) : List (Scalar × Value) :=
  if v = .null then []
  else (.str "ptp_domain_number", v) ::
    ptpDomainAliases.map fun name => (.str name, .str "\x7b\x7b ptp_domain_number \x7d\x7d")

/-- `_host_vars`.  `variables.update` takes a dictionary, or what makes one. -/
def hostVars (a : Attributes) : Option (Dict Scalar Value) := do
  let dns ← listVar "dns_servers" a.dnsServers
  let ntp ← listVar "ntp_servers" a.ntpServers
  let extra ← a.extra.toDict.toOption
  let modelled := [(.str "ansible_host", a.ansibleHost),
      (.str "network_interface", a.networkInterface), (.str "subnet", a.subnet)] ++
    optionalVar "gateway_addr" a.gatewayAddr ++ dns ++
    optionalVar "ptp_interface" a.ptpInterface ++ ptpVars a.ptpDomainNumber ++ ntp ++
    optionalVar "admin_user" a.adminUser ++ optionalVar "grub_password" a.grubPassword
  some (((Dict.ofList modelled).update extra.entries).update
    (fixedHostVars.map fun e => (.str e.1, e.2)))

/-- `inventory.hypervisors()`: by identity with the member of the enumeration. -/
def hypervisors (hosts : Dict String Attributes) : List String :=
  (hosts.entries.filter fun e => e.2.role matches .inl .hypervisor).map (·.1)

/-- `_group_with_isolcpus`, of hosts whose `isolcpus` are texts or nothing. -/
def groupWithIsolcpus (hosts : Dict String Attributes) : Value :=
  let names := if hypervisors hosts = [] then hosts.keys else hypervisors hosts
  match ((hosts.entries.map fun e => e.2.isolcpus).filter (·.truthy)).dedup with
  | [isolated] =>
      .map [(.str "hosts", hostSet names), (.str "vars", .map [(.str "isolcpus", isolated)])]
  | _ => .map [(.str "hosts", hostSet names)]

/-- The document `render` dumps for a standalone inventory. -/
def document (hosts : Dict String Attributes) : Option Value := do
  let vars ← hosts.entries.mapM fun e => (hostVars e.2).map fun vars => (e.1, vars)
  some (.map [(.str "all", .map [(.str "hosts",
      .map (vars.map fun e => (.str e.1, .map e.2.entries)))]),
    (.str "standalone_machine", .map [(.str "hosts", hostSet hosts.keys)]),
    (.str "hypervisors", groupWithIsolcpus hosts),
    (.str "cluster_machines", .null),
    (.str "observers", .null)])

end Attributes

/-! ## Reading a request -/

/-- What the request model takes from its library: the integer that an `int` field makes of a
value.  A numeric text or a truth value may be one, too. -/
structure RequestModel where
  int : Value → Option Int
  int_int : ∀ n, int (.scalar (.int n)) = some n

/-- A text. -/
def readText : Value → Option String
  | .scalar (.str s) => some s
  | _ => none

/-- `str | None` -/
def readOptionalText : Value → Option (Option String)
  | .scalar .null => some none
  | v => (readText v).map some

/-- `list[str]` -/
def readTexts : Value → Option (List String)
  | .seq .list items => items.mapM readText
  | _ => none

/-- `Role`, by its value. -/
def readRole (v : Value) : Option Role := do
  let s ← readText v
  if s = "hypervisor" then some .hypervisor
  else if s = "observer" then some .observer
  else none

/-- `dict[str, Any]` -/
def readExtra : Value → Option (Dict String Value)
  | .map entries => do
      let pairs ← entries.mapM fun e => (readText (.scalar e.1)).map fun name => (name, e.2)
      if h : (pairs.map Prod.fst).Nodup then some ⟨pairs, h⟩ else none
  | _ => none

namespace RequestModel

variable (m : RequestModel)

/-- `Field(ge=1, le=32)` -/
def readSubnet (v : Value) : Option Subnet := do
  let n ← m.int v
  if h : 1 ≤ n ∧ n ≤ 32 then some ⟨n, h⟩ else none

/-- `int | None`, `Field(ge=0, le=255)` -/
def readPtpDomain : Value → Option (Option PtpDomain)
  | .scalar .null => some none
  | v => do
      let n ← m.int v
      if h : 0 ≤ n ∧ n ≤ 255 then some (some ⟨n, h⟩) else none

/-- A field of the request: a changed one is read, another one is what is stored. -/
def readField {α : Type} (changes : Dict String Value) (field : String)
    (read : Value → Option α) (stored : α) : Option α :=
  match changes.get? field with
  | none => some stored
  | some v => read v

/-- The node of the request: the stored one, with the changed fields replaced. -/
def readNode (node : NodeConfig) (changes : Dict String Value) : Option NodeConfig := do
  let role ← readField changes "role" readRole node.role
  let ansibleHost ← readField changes "ansible_host" readText node.ansibleHost
  let networkInterface ← readField changes "network_interface" readText node.networkInterface
  let subnet ← readField changes "subnet" m.readSubnet node.subnet
  let gatewayAddr ← readField changes "gateway_addr" readOptionalText node.gatewayAddr
  let dnsServers ← readField changes "dns_servers" readTexts node.dnsServers
  let ptpInterface ← readField changes "ptp_interface" readOptionalText node.ptpInterface
  let ptpDomainNumber ←
    readField changes "ptp_domain_number" m.readPtpDomain node.ptpDomainNumber
  let ntpServers ← readField changes "ntp_servers" readTexts node.ntpServers
  let adminUser ← readField changes "admin_user" readOptionalText node.adminUser
  let grubPassword ← readField changes "grub_password" readOptionalText node.grubPassword
  let isolcpus ← readField changes "isolcpus" readOptionalText node.isolcpus
  let extra ← readField changes "extra" readExtra node.extra
  some ⟨role, ansibleHost, networkInterface, subnet, gatewayAddr, dnsServers, ptpInterface,
    ptpDomainNumber, ntpServers, adminUser, grubPassword, isolcpus, extra⟩

end RequestModel

/-! ## The two requests

Each answers with the document that it hands to the repository, and with nothing if it is
refused or raises.  What becomes of a document depends on it and on the repository alone. -/

/-- `replace`, of the stored inventory with the changed fields of one host replaced. -/
def replace (rt : Runtime) (m : RequestModel) (stored : Inventory) (name : String)
    (changes : Dict String Value) : Option Value := do
  let node ← stored.hosts.get? name
  let node ← m.readNode node changes
  let candidate := { stored with hosts := stored.hosts.set name node }
  if Accepts rt candidate ∧ candidate.mode = .standalone then some (standaloneDocument candidate)
  else none

/-- `patch_host`, of a standalone inventory. -/
def patchHost (rt : Runtime) (stored : Inventory) (name : String) (changes : Dict String Value) :
    Option Value := do
  let node ← stored.hosts.get? name
  if changes.keys.all (· ∈ nodeFields) then
    let hosts : Dict String Attributes :=
      Dict.ofList (stored.hosts.entries.map fun e => (e.1, e.2.attributes))
    let hosts := hosts.set name (node.attributes.update changes)
    let errors ← Attributes.errors rt hosts
    if errors = [] then Attributes.document hosts else none
  else none

end SeapathWebui.Inventory
