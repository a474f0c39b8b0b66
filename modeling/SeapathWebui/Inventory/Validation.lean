/-
  Inventory/Validation.lean --- the rules a candidate must satisfy to be committed.

  Source: app/inventory/validation.py.

  `validate` collects findings; an error refuses the commit, a warning does not.
  Each block of `_validate_host` is a definition of its own, in the source's
  order.  `valid_iff_of_single` says what the errors of one machine come to, and
  that they do not look at what a file leaves out (`acceptable_normalise`).
-/
import SeapathWebui.Foundation.IpAddress
import SeapathWebui.Hosts.Reading
import SeapathWebui.Inventory.RoundTrip

set_option autoImplicit false

namespace SeapathWebui.Inventory

open SeapathWebui.Foundation SeapathWebui.Hosts

/-! ## Findings -/

/-- `Level` -/
inductive Level
  | error
  | warning
  deriving DecidableEq, Repr

/-- `Finding` -/
structure Finding where
  level : Level
  rule : String
  message : String
  field : Option String := none
  host : Option String := none
  deriving DecidableEq, Repr

/-- `ValidationResult` -/
structure ValidationResult where
  findings : List Finding := []
  deriving DecidableEq, Repr

/-- `ValidationResult.valid` -/
def ValidationResult.valid (result : ValidationResult) : Bool :=
  !result.findings.any fun f => f.level = .error

/-- `ValidationResult.errors` -/
def ValidationResult.errors (result : ValidationResult) : List Finding :=
  result.findings.filter fun f => f.level = .error

/-! ## Host names -/

/-- A letter or a digit of `_HOSTNAME`.  The pattern ignores case, and case folding
takes four characters outside ASCII to a letter inside. -/
def isHostnameChar (c : Char) : Bool :=
  c.isAlphanum || c.toNat == 0x130 || c.toNat == 0x131 || c.toNat == 0x17F || c.toNat == 0x212A

/-- One to 63 letters, digits and dashes, no dash at either end. -/
def isHostnameBody (l : List Char) : Bool :=
  l.length ≤ 63 && l.all (fun c => isHostnameChar c || c == '-') &&
    l.head?.any isHostnameChar && l.getLast?.any isHostnameChar

/-- `_HOSTNAME.match(name)`.  `$` also matches before a newline at the end. -/
def isHostname (name : String) : Bool :=
  isHostnameBody name.toList ||
    (name.toList.getLast? == some '\n' && isHostnameBody name.toList.dropLast)

/-! ## The rules for one machine -/

/-- `_address` -/
def address (value : Option String) : Option IpAddress := IpAddress.parse (value.getD "")

section Host

variable (rt : Runtime)

/-- The host key is a host name. -/
def hostnameFindings (name : String) : List Finding :=
  if isHostname name then []
  else
    [{ level := .error
       rule := "host_key_is_a_hostname"
       host := some name
       message := rt.repr (.str name) ++
         " is not a usable host name. The key in the inventory becomes the machine's own " ++
         "hostname." }]

/-- The administration address. -/
def addressFindings (name : String) (node : NodeConfig) : List Finding :=
  match address (some node.ansibleHost) with
  | none =>
      [{ level := .error
         rule := "administration_address_is_an_address"
         host := some name
         field := some "ansible_host"
         message := rt.repr (.str node.ansibleHost) ++
           " is not an IP address. SEAPATH addresses machines by address, not by name." }]
  | some ip =>
      if ip.isLoopback then
        [{ level := .error
           rule := "administration_address_is_not_loopback"
           host := some name
           field := some "ansible_host"
           message := "The loopback address cannot be the administration address: no other " ++
             "machine could reach this one." }]
      else []

/-- The administration interface. -/
def interfaceFindings (name : String) (node : NodeConfig) : List Finding :=
  if node.networkInterface = "" then
    [{ level := .error
       rule := "administration_interface_is_named"
       host := some name
       field := some "network_interface"
       message := "The administration interface must be named." }]
  else []

/-- The gateway, when there is one. -/
def gatewayFindings (name : String) (node : NodeConfig) : List Finding :=
  match node.gatewayAddr.filter (· ≠ "") with
  | none => []
  | some text =>
      match address (some text), address (some node.ansibleHost) with
      | none, _ =>
          [{ level := .error
             rule := "gateway_is_an_address"
             host := some name
             field := some "gateway_addr"
             message := rt.repr (.str text) ++ " is not an IP address." }]
      | some gateway, some ip =>
          if IpAddress.inNetwork node.subnet.1.toNat ip gateway then []
          else
            [{ level := .error
               rule := "gateway_is_reachable"
               host := some name
               field := some "gateway_addr"
               message := "The gateway " ++ gateway.text ++ " is outside " ++
                 ip.networkText node.subnet.1.toNat ++
                 ", so this machine could never reach it." }]
      | some _, none => []

/-- The name servers. -/
def dnsFindings (name : String) (node : NodeConfig) : List Finding :=
  node.dnsServers.flatMap fun server =>
    if address (some server) = none then
      [{ level := .error
         rule := "dns_servers_are_addresses"
         host := some name
         field := some "dns_servers"
         message := rt.repr (.str server) ++ " is not an IP address." }]
    else []

/-- The PTP interface: warnings only. -/
def ptpFindings (name : String) (node : NodeConfig) : List Finding :=
  (if node.role = .observer ∧ node.ptpInterface.getD "" ≠ "" then
    [{ level := .warning
       rule := "observer_has_no_ptp"
       host := some name
       field := some "ptp_interface"
       message := "An observer receives no sampled values, so it usually has no PTP interface." }]
  else []) ++
  (if node.role = .hypervisor ∧ node.ptpInterface.getD "" = "" then
    [{ level := .warning
       rule := "hypervisor_has_ptp"
       host := some name
       field := some "ptp_interface"
       message := "No PTP interface. A hypervisor running IEC 61850 guests needs one to " ++
         "distribute time to them." }]
  else []) ++
  (if node.ptpInterface.getD "" ≠ "" ∧ node.ptpInterface = some node.networkInterface then
    [{ level := .warning
       rule := "ptp_is_not_the_administration_interface"
       host := some name
       field := some "ptp_interface"
       message := "PTP is configured on the administration interface. That works, but sampled " ++
         "values usually arrive elsewhere." }]
  else [])

/-- The NTP servers: a warning. -/
def ntpFindings (name : String) (node : NodeConfig) : List Finding :=
  if node.ntpServers = [] then
    [{ level := .warning
       rule := "ntp_fallback_exists"
       host := some name
       field := some "ntp_servers"
       message := "No NTP server. Without one there is no fallback if PTP is lost." }]
  else []

/-- `_GRUB_HASH_PREFIX` -/
def grubHashPrefix : String := "grub.pbkdf2."

/-- The GRUB password, when there is one. -/
def grubFindings (name : String) (node : NodeConfig) : List Finding :=
  match node.grubPassword.filter (· ≠ "") with
  | none => []
  | some password =>
      if grubHashPrefix.toList <+: password.toList then []
      else
        [{ level := .error
           rule := "grub_password_is_a_hash"
           host := some name
           field := some "grub_password"
           message := "The GRUB password must be a PBKDF2 hash. A password in clear in the " ++
             "inventory is a password in `git log`." }]

/-- `_validate_isolcpus` -/
def isolcpusFindings (name : String) (node : NodeConfig) : List Finding :=
  match node.isolcpus.filter (· ≠ "") with
  | none =>
      [{ level := .warning
         rule := "isolation_is_configured"
         host := some name
         field := some "isolcpus"
         message := "No isolated CPUs. Latency guarantees come from isolation, so a hypervisor " ++
           "without it is not a real time one." }]
  | some cpus =>
      if parseCpuList cpus = [] then
        [{ level := .error
           rule := "isolcpus_is_a_cpu_list"
           host := some name
           field := some "isolcpus"
           message := rt.repr (.str cpus) ++
             " is not a CPU list. Use the kernel syntax, for example 4-7 or 4-7,12." }]
      else if 0 ∈ parseCpuList cpus then
        [{ level := .error
           rule := "cpu_zero_stays_housekeeping"
           host := some name
           field := some "isolcpus"
           message := "CPU 0 cannot be isolated. It carries work the kernel cannot move, and " ++
             "isolating it strands the machine." }]
      else []

/-- `_validate_host` -/
def validateHost (name : String) (node : NodeConfig) : List Finding :=
  hostnameFindings rt name ++ addressFindings rt name node ++ interfaceFindings name node ++
    gatewayFindings rt name node ++ dnsFindings rt name node ++ ptpFindings name node ++
    ntpFindings name node ++ grubFindings name node ++ isolcpusFindings rt name node

/-! ## The whole inventory -/

/-- `_validate_across_hosts`, from the addresses seen so far on. -/
def validateAcrossHosts (seen : Dict String String) : List (String × NodeConfig) → List Finding
  | [] => []
  | (name, node) :: rest =>
      (match seen.get? node.ansibleHost with
      | none => []
      | some owner =>
          [{ level := .error
             rule := "addresses_are_unique"
             host := some name
             field := some "ansible_host"
             message := node.ansibleHost ++ " is already the administration address of " ++
               owner ++ "." }]) ++
        validateAcrossHosts (seen.set node.ansibleHost name) rest

/-- `validate` -/
def validate (inventory : Inventory) : ValidationResult where
  findings :=
    (if inventory.hosts.entries = [] then
      [{ level := .error
         rule := "at_least_one_host"
         message := "An inventory with no machine in it converges nothing." }]
    else []) ++
    (if inventory.mode = .standalone ∧ 1 < inventory.hosts.entries.length then
      [{ level := .error
         rule := "standalone_is_one_machine"
         message := "A standalone inventory describes exactly one machine. Add the others by " ++
           "forming a cluster." }]
    else []) ++
    inventory.hosts.entries.flatMap (fun e => validateHost rt e.1 e.2) ++
    validateAcrossHosts ∅ inventory.hosts.entries

/-- `validate` raises instead: the CPU list of a machine names more CPUs than a list can
have items (`OverflowError`, `MemoryError`). -/
def validateRaises (inventory : Inventory) : Bool :=
  inventory.hosts.entries.any fun e =>
    (e.2.isolcpus.filter (· ≠ "")).any fun cpus => rt.listLimit < cpuCount cpus

/-- `validate` returns, and without an error. -/
def Accepts (inventory : Inventory) : Prop :=
  validateRaises rt inventory = false ∧ (validate rt inventory).valid = true

instance (inventory : Inventory) : Decidable (Accepts rt inventory) :=
  inferInstanceAs (Decidable (_ ∧ _))

/-! ## What an accepted machine is -/

/-- No error among the findings. -/
def NoError (findings : List Finding) : Prop := ∀ f ∈ findings, f.level ≠ .error

theorem noError_append {findings more : List Finding} :
    NoError (findings ++ more) ↔ NoError findings ∧ NoError more :=
  List.forall_mem_append

theorem valid_iff_noError {result : ValidationResult} :
    result.valid = true ↔ NoError result.findings := by
  simp [ValidationResult.valid, NoError]

/-- A machine no rule refuses. -/
structure Acceptable (name : String) (node : NodeConfig) : Prop where
  hostname : isHostname name = true
  address : ∃ ip, address (some node.ansibleHost) = some ip ∧ ip.isLoopback = false ∧
    -- the gateway is an address of the machine's own network
    ∀ text, node.gatewayAddr.filter (· ≠ "") = some text →
      ∃ gateway, Inventory.address (some text) = some gateway ∧
        IpAddress.inNetwork node.subnet.1.toNat ip gateway = true
  interface : node.networkInterface ≠ ""
  dnsServers : ∀ server ∈ node.dnsServers, Inventory.address (some server) ≠ none
  grubPassword : ∀ password, node.grubPassword.filter (· ≠ "") = some password →
    grubHashPrefix.toList <+: password.toList
  isolcpus : ∀ cpus, node.isolcpus.filter (· ≠ "") = some cpus →
    parseCpuList cpus ≠ [] ∧ 0 ∉ parseCpuList cpus

theorem noError_hostname {name : String} :
    NoError (hostnameFindings rt name) ↔ isHostname name = true := by
  unfold hostnameFindings
  split <;> simp_all [NoError]

theorem noError_address {name : String} {node : NodeConfig} :
    NoError (addressFindings rt name node) ↔
      ∃ ip, address (some node.ansibleHost) = some ip ∧ ip.isLoopback = false := by
  unfold addressFindings
  cases address (some node.ansibleHost) with
  | none => simp [NoError]
  | some ip => cases hloopback : ip.isLoopback <;> simp [NoError, hloopback]

theorem noError_interface {name : String} {node : NodeConfig} :
    NoError (interfaceFindings name node) ↔ node.networkInterface ≠ "" := by
  unfold interfaceFindings
  split <;> simp_all [NoError]

theorem noError_gateway {name : String} {node : NodeConfig} {ip : IpAddress}
    (h : address (some node.ansibleHost) = some ip) :
    NoError (gatewayFindings rt name node) ↔
      ∀ text, node.gatewayAddr.filter (· ≠ "") = some text →
        ∃ gateway, address (some text) = some gateway ∧
          IpAddress.inNetwork node.subnet.1.toNat ip gateway = true := by
  unfold gatewayFindings
  cases node.gatewayAddr.filter (· ≠ "") with
  | none => simp [NoError]
  | some text =>
      simp only [h, Option.some.injEq, forall_eq']
      cases address (some text) with
      | none => simp [NoError]
      | some gateway =>
          cases hin : IpAddress.inNetwork node.subnet.1.toNat ip gateway <;> simp [NoError, hin]

theorem noError_dns {name : String} {node : NodeConfig} :
    NoError (dnsFindings rt name node) ↔
      ∀ server ∈ node.dnsServers, address (some server) ≠ none := by
  simp only [NoError, dnsFindings, List.mem_flatMap]
  constructor
  · intro h server hserver hnone
    exact h _ ⟨server, hserver, by rw [if_pos hnone]; exact List.mem_singleton_self _⟩ rfl
  · rintro h f ⟨server, hserver, hf⟩
    rw [if_neg (h server hserver)] at hf
    cases hf

theorem noError_ptp (name : String) (node : NodeConfig) : NoError (ptpFindings name node) := by
  simp only [ptpFindings, noError_append]
  refine ⟨⟨?_, ?_⟩, ?_⟩ <;> split <;> simp [NoError]

theorem noError_ntp (name : String) (node : NodeConfig) : NoError (ntpFindings name node) := by
  unfold ntpFindings
  split <;> simp [NoError]

theorem noError_grub {name : String} {node : NodeConfig} :
    NoError (grubFindings name node) ↔
      ∀ password, node.grubPassword.filter (· ≠ "") = some password →
        grubHashPrefix.toList <+: password.toList := by
  unfold grubFindings
  cases node.grubPassword.filter (· ≠ "") with
  | none => simp [NoError]
  | some password =>
      simp only [Option.some.injEq, forall_eq']
      split <;> simp_all [NoError]

theorem noError_isolcpus {name : String} {node : NodeConfig} :
    NoError (isolcpusFindings rt name node) ↔
      ∀ cpus, node.isolcpus.filter (· ≠ "") = some cpus →
        parseCpuList cpus ≠ [] ∧ 0 ∉ parseCpuList cpus := by
  unfold isolcpusFindings
  cases node.isolcpus.filter (· ≠ "") with
  | none => simp [NoError]
  | some cpus =>
      simp only [Option.some.injEq, forall_eq']
      split
      · simp_all [NoError]
      · split <;> simp_all [NoError]

/-- The rules for one machine, together. -/
theorem noError_validateHost {name : String} {node : NodeConfig} :
    NoError (validateHost rt name node) ↔ Acceptable name node := by
  simp only [validateHost, noError_append, noError_hostname, noError_address, noError_interface,
    noError_dns, noError_ptp, noError_ntp, noError_grub, noError_isolcpus, and_true]
  constructor
  · rintro ⟨⟨⟨⟨⟨⟨hname, ip, hip, hloopback⟩, hinterface⟩, hgateway⟩, hdns⟩, hgrub⟩, hisolcpus⟩
    exact ⟨hname, ⟨ip, hip, hloopback, (noError_gateway rt hip).mp hgateway⟩, hinterface, hdns,
      hgrub, hisolcpus⟩
  · rintro ⟨hname, ⟨ip, hip, hloopback, hgateway⟩, hinterface, hdns, hgrub, hisolcpus⟩
    exact ⟨⟨⟨⟨⟨⟨hname, ip, hip, hloopback⟩, hinterface⟩, (noError_gateway rt hip).mpr hgateway⟩,
      hdns⟩, hgrub⟩, hisolcpus⟩

/-- An inventory of one machine is valid exactly if the machine is acceptable. -/
theorem valid_iff_of_single {inventory : Inventory} {name : String} {node : NodeConfig}
    (h : inventory.hosts.entries = [(name, node)]) :
    (validate rt inventory).valid = true ↔ Acceptable name node := by
  have hacross : validateAcrossHosts ∅ [(name, node)] = [] := rfl
  rw [valid_iff_noError, ← noError_validateHost rt]
  simp [validate, h, hacross]

/-- A machine that `validate` takes: no rule refuses it, and its CPUs can be listed. -/
def Takes (name : String) (node : NodeConfig) : Prop :=
  Acceptable name node ∧
    ∀ cpus, node.isolcpus.filter (· ≠ "") = some cpus → ¬ rt.listLimit < cpuCount cpus

theorem accepts_singleton {inventory : Inventory} {name : String} {node : NodeConfig}
    (h : inventory.hosts.entries = [(name, node)]) : Accepts rt inventory ↔ Takes rt name node := by
  have hraises : validateRaises rt inventory = false ↔
      ∀ cpus, node.isolcpus.filter (· ≠ "") = some cpus → ¬ rt.listLimit < cpuCount cpus := by
    rw [validateRaises, h, List.any_cons, List.any_nil, Bool.or_false]
    cases node.isolcpus.filter (· ≠ "") <;> simp
  rw [Accepts, hraises, valid_iff_of_single rt h]
  exact And.comm

/-- A valid standalone inventory is of one machine. -/
theorem single_of_valid {inventory : Inventory} (hmode : inventory.mode = .standalone)
    (h : (validate rt inventory).valid = true) :
    ∃ name node, inventory.hosts.entries = [(name, node)] := by
  rw [valid_iff_noError] at h
  simp only [validate, noError_append, hmode, true_and] at h
  obtain ⟨⟨⟨hsome, hone⟩, -⟩, -⟩ := h
  cases hentries : inventory.hosts.entries with
  | nil =>
      rw [hentries, if_pos rfl] at hsome
      exact (hsome _ (List.mem_singleton_self _) rfl).elim
  | cons e rest =>
      cases rest with
      | nil => exact ⟨e.1, e.2, rfl⟩
      | cons e' rest =>
          rw [hentries, if_pos (by simp)] at hone
          exact (hone _ (List.mem_singleton_self _) rfl).elim

/-- The rules do not look at what a file leaves out. -/
theorem acceptable_normalise {name : String} {node : NodeConfig} :
    Acceptable name (normalise node) ↔ Acceptable name node := by
  have hempty : ∀ value : Option String,
      (value.filter (· ≠ "")).filter (· ≠ "") = value.filter (· ≠ "") := fun value => by
    simp [Option.filter_filter]
  constructor
  · rintro ⟨hname, haddress, hinterface, hdns, hgrub, hisolcpus⟩
    simp only [normalise, hempty] at haddress hinterface hdns hgrub hisolcpus
    exact ⟨hname, haddress, hinterface, hdns, hgrub, hisolcpus⟩
  · rintro ⟨hname, haddress, hinterface, hdns, hgrub, hisolcpus⟩
    refine ⟨hname, ?_, hinterface, hdns, ?_, ?_⟩
    · simpa only [normalise, hempty] using haddress
    · simpa only [normalise, hempty] using hgrub
    · simpa only [normalise, hempty] using hisolcpus

theorem takes_normalise {name : String} {node : NodeConfig} :
    Takes rt name (normalise node) ↔ Takes rt name node := by
  rw [Takes, Takes, acceptable_normalise]
  simp only [normalise, Option.filter_filter, Bool.and_self]

end Host

end SeapathWebui.Inventory
