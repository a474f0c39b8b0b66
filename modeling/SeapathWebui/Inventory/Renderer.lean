/-
  Inventory/Renderer.lean --- the inventory as the YAML Ansible reads.

  Source: app/inventory/renderer.py.

  The document is built as a value and dumped by the YAML library, which is a
  parameter of the model.
-/
import Mathlib.Data.List.Dedup
import SeapathWebui.Inventory.Model

set_option autoImplicit false

namespace SeapathWebui.Inventory

open SeapathWebui.Foundation

/-- `_HEADER` -/
def header : String :=
  "# SEAPATH inventory, managed by seapath-webui.\n" ++
  "#\n" ++
  "# This file is the desired state of the machines below. It is a plain Ansible\n" ++
  "# inventory: clone this repository onto a conventional control machine and the\n" ++
  "# same playbooks produce the same result.\n" ++
  "#\n" ++
  "# Every change is a commit whose author is the operator who made it, so\n" ++
  "# `git log` is the configuration audit trail.\n" ++
  "#\n" ++
  "# The service rewrites this file on every change. Variables it does not model\n" ++
  "# are read back and written out untouched, but the layout and the comments are\n" ++
  "# not: edit through the UI, or edit here and expect the next commit to reformat\n" ++
  "# what you wrote.\n"

/-! ## Host variables -/

/-- `if node.x: variables[name] = node.x`, for an optional text. -/
def optionalVar (name : String) (value : Option String) : List (String × Value) :=
  match value with
  | none => []
  | some text => if text = "" then [] else [(name, .str text)]

/-- `if node.x: variables[name] = list(node.x)`, for a list of texts. -/
def listVar (name : String) (values : List String) : List (String × Value) :=
  if values = [] then [] else [(name, .seq .list (values.map .str))]

/-- The PTP domain, and the variables that follow it. -/
def ptpVars (domain : Option PtpDomain) : List (String × Value) :=
  match domain with
  | none => []
  | some n =>
      ("ptp_domain_number", .scalar (.int n)) ::
        ptpDomainAliases.map fun name => (name, .str "\x7b\x7b ptp_domain_number \x7d\x7d")

/-- What `_host_vars` assigns from the fields of the model. -/
def modelledVars (node : NodeConfig) : List (String × Value) :=
  [("ansible_host", .str node.ansibleHost),
    ("network_interface", .str node.networkInterface),
    ("subnet", .scalar (.int node.subnet))] ++
  optionalVar "gateway_addr" node.gatewayAddr ++
  listVar "dns_servers" node.dnsServers ++
  optionalVar "ptp_interface" node.ptpInterface ++
  ptpVars node.ptpDomainNumber ++
  listVar "ntp_servers" node.ntpServers ++
  optionalVar "admin_user" node.adminUser ++
  optionalVar "grub_password" node.grubPassword

/-- `_host_vars`.  The fixed values come last, so that nothing wins over them. -/
def hostVars (node : NodeConfig) : Dict String Value :=
  ((Dict.ofList (modelledVars node)).update node.extra.entries).update fixedHostVars

/-! ## Groups -/

/-- `_host_set` -/
def hostSet (names : List String) : Value :=
  .map (names.map fun name => (.str name, .null))

/-- The isolated CPU sets the hosts name, each once. -/
def isolatedSets (inventory : Inventory) : List String :=
  ((inventory.hosts.entries.filterMap fun e => e.2.isolcpus).filter (· != "")).dedup

/-- `_group_with_isolcpus` -/
def groupWithIsolcpus (inventory : Inventory) : Value :=
  let names := if inventory.hypervisors = [] then inventory.hostNames else inventory.hypervisors
  match isolatedSets inventory with
  | [isolated] =>
      .map [(.str "hosts", hostSet names),
        (.str "vars", .map [(.str "isolcpus", .str isolated)])]
  | _ => .map [(.str "hosts", hostSet names)]

/-- `_hosts` -/
def hostsVars (inventory : Inventory) : Value :=
  .map (inventory.hosts.entries.map fun e => (.str e.1, .ofDict (hostVars e.2)))

/-- The document `render` dumps for a standalone inventory. -/
def standaloneDocument (inventory : Inventory) : Value :=
  .map [(.str "all", .map [(.str "hosts", hostsVars inventory)]),
    (.str "standalone_machine", .map [(.str "hosts", hostSet inventory.hostNames)]),
    (.str "hypervisors", groupWithIsolcpus inventory),
    -- empty groups, to prevent the warnings the reference inventory prevents
    (.str "cluster_machines", .null),
    (.str "observers", .null)]

/-! ## The file -/

/-- What `render` raises. -/
inductive RenderError
  /-- `NotImplementedError` -/
  | notImplemented (message : String)
  deriving DecidableEq, Repr

/-- The text of a document. -/
def documentText (rt : Runtime) (document : Value) : String :=
  header ++ "---\n" ++ rt.dump document

/-- `render` -/
def render (rt : Runtime) (inventory : Inventory) : Except RenderError String :=
  match inventory.mode with
  | .standalone => .ok (documentText rt (standaloneDocument inventory))
  | .cluster => .error (.notImplemented "Cluster inventories are rendered from M3.")

end SeapathWebui.Inventory
