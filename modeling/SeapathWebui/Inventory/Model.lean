/-
  Inventory/Model.lean --- the typed shape of an inventory.

  Source: app/inventory/model.py.

  The ranges of `subnet` and `ptp_domain_number` are part of their types, so a
  `NodeConfig` is one the model accepts.  `extra` holds the variables the service
  does not model, keyed by name.
-/
import SeapathWebui.Foundation.Value

set_option autoImplicit false
set_option linter.dupNamespace false

namespace SeapathWebui.Inventory

open SeapathWebui.Foundation

/-- `Mode` -/
inductive Mode
  | standalone
  | cluster
  deriving DecidableEq, Repr, Inhabited

/-- `Role` -/
inductive Role
  | hypervisor
  | observer
  deriving DecidableEq, Repr, Inhabited

/-- A prefix length: `ge=1, le=32`. -/
abbrev Subnet : Type := { n : Int // 1 ≤ n ∧ n ≤ 32 }

theorem subnet_default : (1 : Int) ≤ 24 ∧ (24 : Int) ≤ 32 := by decide

/-- A PTP domain: `ge=0, le=255`. -/
abbrev PtpDomain : Type := { n : Int // 0 ≤ n ∧ n ≤ 255 }

theorem ptpDomain_zero : (0 : Int) ≤ 0 ∧ (0 : Int) ≤ 255 := by decide

/-- `NodeConfig`: the variables of one machine. -/
structure NodeConfig where
  role : Role := .hypervisor
  ansibleHost : String
  networkInterface : String
  subnet : Subnet := ⟨24, subnet_default⟩
  gatewayAddr : Option String := none
  dnsServers : List String := []
  ptpInterface : Option String := none
  ptpDomainNumber : Option PtpDomain := none
  ntpServers : List String := []
  adminUser : Option String := none
  /-- Always a PBKDF2 hash. -/
  grubPassword : Option String := none
  isolcpus : Option String := none
  /-- The variables this service does not model. -/
  extra : Dict String Value := ∅
  deriving DecidableEq

/-- `Inventory`: the whole desired state. -/
structure Inventory where
  mode : Mode := .standalone
  hosts : Dict String NodeConfig := ∅
  deriving DecidableEq

/-- `Inventory.host_names` -/
def Inventory.hostNames (inventory : Inventory) : List String := inventory.hosts.keys

/-- `Inventory.hypervisors` -/
def Inventory.hypervisors (inventory : Inventory) : List String :=
  (inventory.hosts.entries.filter fun e => e.2.role = .hypervisor).map (·.1)

/-! ## Names of variables -/

/-- `_MODELLED`: the variables the model owns. -/
def modelledNames : List String :=
  ["ansible_host", "network_interface", "subnet", "gateway_addr", "dns_servers",
    "ptp_interface", "ptp_domain_number", "ntp_servers", "admin_user", "grub_password",
    "isolcpus"]

/-- `FIXED_HOST_VARS`: written for every host, on every render. -/
def fixedHostVars : List (String × Value) :=
  [("hostname", .str "\x7b\x7b inventory_hostname \x7d\x7d"),
    ("ip_addr", .str "\x7b\x7b ansible_host \x7d\x7d"),
    ("apply_network_config", .scalar (.bool true)),
    ("ansible_connection", .str "ssh"),
    ("ansible_python_interpreter", .str "/usr/bin/python3"),
    ("ansible_remote_tmp", .str "/tmp/.ansible/tmp"),
    ("ansible_user", .str "ansible")]

/-- `FIXED_HOST_VAR_NAMES` -/
def fixedHostVarNames : List String := fixedHostVars.map (·.1)

/-- `PTP_DOMAIN_ALIASES` -/
def ptpDomainAliases : List String :=
  ["timemaster_ptp_domain_number", "ptp_status_vsock_domain_number"]

/-- The names the renderer writes itself. -/
def reservedNames : List String := modelledNames ++ fixedHostVarNames ++ ptpDomainAliases

end SeapathWebui.Inventory
