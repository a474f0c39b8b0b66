/-
  Runs/Catalogue.lean --- the playbooks that can be launched.

  Source: app/runs/catalogue.py.

  What an entry says to the operator alone (targets, disruption, notes) is left
  out: nothing decides on it.
-/
import Mathlib.Data.List.Basic

set_option autoImplicit false

namespace SeapathWebui.Runs

/-- `Preview` -/
inductive Preview
  | full
  | partially
  | none
  deriving DecidableEq, Repr

/-- `Precondition` -/
inductive Precondition
  | inventoryValid
  | selfTrust
  | standalone
  | cluster
  | playbookPresent
  deriving DecidableEq, Repr

/-- `VariableSpec` -/
structure VariableSpec where
  name : String
  type : String
  required : Bool := false
  deriving DecidableEq, Repr

/-- `PlaybookEntry` -/
structure PlaybookEntry where
  id : String
  playbook : String
  title : String
  preview : Preview
  requires : List Precondition := []
  variableSpecs : List VariableSpec := []
  deriving DecidableEq, Repr

/-- `PlaybookEntry.previewable`: a `none` playbook offers no preview at all. -/
def PlaybookEntry.previewable (entry : PlaybookEntry) : Bool := entry.preview != .none

/-- `COLLECTION` -/
def collection : String := "seapath.ansible"

/-- An entry of the collection, named as its playbook. -/
def collectionEntry (id title : String) (preview : Preview) (requires : List Precondition)
    (variableSpecs : List VariableSpec) : PlaybookEntry :=
  { id := id
    playbook := collection ++ "." ++ id
    title := title
    preview := preview
    requires := requires
    variableSpecs := variableSpecs }

/-- `_SKIP_REBOOT` -/
def skipReboot : VariableSpec := { name := "skip_reboot_setup", type := "boolean" }

/-- What every entry of a machine requires. -/
def machineRequires : List Precondition := [.inventoryValid, .selfTrust]

/-- What every entry of a cluster requires. -/
def clusterRequires : List Precondition := [.inventoryValid, .selfTrust, .cluster]

/-- `CATALOGUE` -/
def catalogue : List PlaybookEntry :=
  [collectionEntry "seapath_setup_main" "Configure this machine" .partially machineRequires
      [skipReboot],
    collectionEntry "seapath_setup_network" "Apply the network configuration" .partially
      machineRequires [],
    collectionEntry "seapath_setup_timemaster" "Apply the time synchronisation" .full
      machineRequires [],
    collectionEntry "seapath_setup_libvirt" "Apply the libvirt configuration" .partially
      machineRequires [],
    collectionEntry "seapath_setup_prometheus_exporters" "Apply the Prometheus exporters" .full
      machineRequires [],
    collectionEntry "seapath_setup_snmp" "Apply the SNMP configuration" .full machineRequires [],
    collectionEntry "seapath_setup_deploy_seapath_alloc" "Apply the dynamic CPU pinning"
      .partially machineRequires [],
    collectionEntry "seapath_setup_hardening" "Harden this machine" .partially machineRequires [],
    collectionEntry "cluster_setup_ha" "Form the cluster" .none clusterRequires [],
    collectionEntry "cluster_setup_cephadm" "Deploy Ceph" .none clusterRequires [],
    collectionEntry "cluster_setup_libvirt" "Apply the cluster libvirt configuration" .full
      clusterRequires [],
    collectionEntry "cluster_setup_users" "Apply the cluster accounts" .full clusterRequires [],
    collectionEntry "cluster_remove_machine" "Remove a machine from the cluster" .none
      clusterRequires [{ name := "machine_to_remove", type := "string", required := true }]]

/-- `catalogue.get` -/
def Catalogue.get (playbookId : String) : Option PlaybookEntry :=
  catalogue.find? (·.id == playbookId)

/-- Nothing is launched on an inventory that is not valid. -/
theorem inventoryValid_mem_requires {playbookId : String} {entry : PlaybookEntry}
    (h : Catalogue.get playbookId = some entry) : .inventoryValid ∈ entry.requires := by
  have hall : ∀ entry ∈ catalogue, .inventoryValid ∈ entry.requires := by decide
  exact hall entry (List.mem_of_find?_eq_some h)

end SeapathWebui.Runs
