/-
  Inventory/Discovery.lean --- what a machine proposes about itself.

  Source: app/inventory/discovery.py.

  `discover` turns the readings of the host into a proposal, and `seed_inventory`
  makes the first inventory of it.  Nothing checks the proposal here: what a
  reading holds is what is proposed, but for the range of the prefix length,
  which the model refuses (`seedInventory_discover`).
-/
import Mathlib.Data.List.Find
import SeapathWebui.Hosts.Reading
import SeapathWebui.Inventory.Model

set_option autoImplicit false

namespace SeapathWebui.Inventory

open SeapathWebui.Foundation SeapathWebui.Hosts

/-- `_HOUSEKEEPING_CPUS` -/
def housekeepingCpus : Int := 4

/-- `InterfaceCandidate` -/
structure InterfaceCandidate where
  name : String
  mac : Option String
  operstate : Option String
  speedMbps : Option Int
  driver : Option String
  carriesDefaultRoute : Bool
  ptpCapable : Bool
  addresses : List String
  deriving DecidableEq, Repr

/-- `DiskCandidate` -/
structure DiskCandidate where
  path : String
  byPath : Option String
  sizeBytes : Option Int
  model : Option String
  claimed : Option Bool
  claimReason : Option String
  deriving DecidableEq, Repr

/-- `Discovery`: what this node observes about itself, as proposals. -/
structure Discovery where
  hostname : String
  mode : NodeMode
  proposed : Option NodeConfig
  interfaces : List InterfaceCandidate
  disks : List DiskCandidate
  cpuCount : Option Int
  isolatedNow : List Int
  warnings : List String
  deriving DecidableEq

/-- What `discover` raises. -/
inductive DiscoveryError
  /-- the model refused a value -/
  | validationError
  deriving DecidableEq, Repr

/-! ## CPUs -/

/-- `_range` -/
def rangeText (first last : Int) : String :=
  if first = last then toString first else toString first ++ "-" ++ toString last

/-- The ranges of a CPU set, from the one that runs from `start` to `previous` on. -/
def cpuRanges (start previous : Int) : List Int → List String
  | [] => [rangeText start previous]
  | cpu :: rest =>
      if cpu = previous + 1 then cpuRanges start cpu rest
      else rangeText start previous :: cpuRanges cpu cpu rest

/-- `_propose_isolation`; `_as_cpu_list` where CPUs are isolated already. -/
def proposeIsolation (isolatedNow : List Int) (online : Option Int) : Option String :=
  match isolatedNow, online with
  | cpu :: rest, _ => some (",".intercalate (cpuRanges cpu cpu rest))
  | [], none => none
  | [], some online =>
      if online ≤ housekeepingCpus then none
      else some (toString housekeepingCpus ++ "-" ++ toString (online - 1))

/-! ## The network -/

/-- `_first_ipv4`: the first address without a colon. -/
def firstIpv4 (addresses : List String) : Option String :=
  addresses.find? fun address => ':' ∉ address.toList

/-- `_prefix_length` -/
def prefixLength (network : NetworkReading) (interfaceName : String) : Option Int :=
  ((network.interfaces.filter fun item => item.name = interfaceName).flatMap
    (·.addresses)).findSome? fun address =>
      if address.family = "inet" then address.prefixLength.filter (· ≠ 0) else none

/-- The interfaces `discover` offers. -/
def interfaceCandidates (reader : HostReading) : List InterfaceCandidate :=
  (reader.network.interfaces.filter fun item => item.kind ≠ some "loopback").map fun item =>
    { name := item.name
      mac := item.mac
      operstate := item.operstate
      speedMbps := item.speedMbps
      driver := item.driver
      carriesDefaultRoute := some item.name = reader.network.defaultRouteInterface
      -- a hardware clock says PTP is possible here, not on which interface
      ptpCapable := !reader.ptpClocks.isEmpty && item.kind = some "physical"
      addresses := item.addresses.map (·.address) }

/-- The administration interface, and its address, when there are both. -/
def administration (interfaces : List InterfaceCandidate) :
    Option (InterfaceCandidate × String) := do
  let admin ← interfaces.find? (·.carriesDefaultRoute)
  let address ← (firstIpv4 admin.addresses).filter (· ≠ "")
  some (admin, address)

/-! ## Discovery -/

/-- The proposal of `discover`. -/
def propose (reader : HostReading) : Except DiscoveryError (Option NodeConfig) :=
  match administration (interfaceCandidates reader) with
  | none => .ok none
  | some (admin, address) =>
      let subnet := (prefixLength reader.network admin.name).getD 24
      if h : 1 ≤ subnet ∧ subnet ≤ 32 then
        .ok (some
          { ansibleHost := address
            networkInterface := admin.name
            subnet := ⟨subnet, h⟩
            gatewayAddr := reader.network.defaultGateway
            isolcpus := proposeIsolation reader.cpu.isolated reader.cpu.online })
      else .error .validationError

/-- `discover` -/
def discover (reader : HostReading) : Except DiscoveryError Discovery := do
  let proposed ← propose reader
  .ok
    { hostname := reader.nodeIdentity.hostname
      mode := reader.nodeIdentity.mode
      proposed := proposed
      interfaces := interfaceCandidates reader
      disks := reader.disks.devices.map fun device =>
        { path := device.path
          byPath := device.byPath
          sizeBytes := device.sizeBytes
          model := device.model
          claimed := device.claimed
          claimReason := device.claimReason }
      cpuCount := reader.cpu.online
      isolatedNow := reader.cpu.isolated
      warnings := reader.nodeIdentity.warnings ++ reader.network.warnings ++
        reader.cpu.warnings ++ reader.disks.warnings ++
        if proposed.isNone then
          ["No interface carries the default route, so the administration address could not " ++
            "be proposed. Fill it in from the form."]
        else [] }

/-- `seed_inventory` -/
def seedInventory (discovery : Discovery) : Option Inventory :=
  discovery.proposed.map fun node =>
    { mode := .standalone, hosts := Dict.ofList [(discovery.hostname, node)] }

/-- The seed is the proposal, under the machine's own name. -/
theorem seedInventory_discover {reader : HostReading} {discovery : Discovery}
    (h : discover reader = .ok discovery) :
    ∃ proposed, propose reader = .ok proposed ∧ seedInventory discovery = proposed.map fun node =>
      { mode := .standalone, hosts := Dict.ofList [(reader.nodeIdentity.hostname, node)] } := by
  obtain ⟨proposed, hproposed, h⟩ := bind_eq_ok.mp h
  obtain rfl := Except.ok.inj h
  exact ⟨proposed, hproposed, rfl⟩

/-- What is proposed is built of the administration interface and its address. -/
theorem propose_eq_some {reader : HostReading} {node : NodeConfig}
    (h : propose reader = .ok (some node)) :
    ∃ admin address, administration (interfaceCandidates reader) = some (admin, address) ∧
      ∃ hsubnet, node =
        { ansibleHost := address
          networkInterface := admin.name
          subnet := ⟨(prefixLength reader.network admin.name).getD 24, hsubnet⟩
          gatewayAddr := reader.network.defaultGateway
          isolcpus := proposeIsolation reader.cpu.isolated reader.cpu.online } := by
  unfold propose at h
  split at h
  · cases h
  · rename_i admin address hadmin
    simp only at h
    split at h
    · rename_i hsubnet
      exact ⟨admin, address, hadmin, hsubnet, (Option.some.inj (Except.ok.inj h)).symm⟩
    · cases h

/-- What a discovery proposes is what `propose` returned. -/
theorem propose_of_discover {reader : HostReading} {discovery : Discovery} {node : NodeConfig}
    (h : discover reader = .ok discovery) (hnode : discovery.proposed = some node) :
    propose reader = .ok (some node) := by
  obtain ⟨proposed, hproposed, h⟩ := bind_eq_ok.mp h
  obtain rfl := Except.ok.inj h
  obtain rfl : proposed = some node := hnode
  exact hproposed

/-- A proposal has no variable of its own. -/
theorem extra_of_propose {reader : HostReading} {node : NodeConfig}
    (h : propose reader = .ok (some node)) : node.extra = ∅ := by
  obtain ⟨admin, address, -, hsubnet, rfl⟩ := propose_eq_some h
  rfl

/-! ## The address and its prefix

The address is looked for among the candidates, by its text, and the prefix in the reading,
by the family.  Where the two tests agree both searches stop at the same entry. -/

/-- What `ip -j addr show` makes of a network: no name occurs twice, every IPv4 address has a
prefix, and the family says whether the address has a colon. -/
structure AsIpShows (network : NetworkReading) : Prop where
  names : (network.interfaces.map (·.name)).Nodup
  prefixes : ∀ item ∈ network.interfaces, ∀ entry ∈ item.addresses, entry.family = "inet" →
    ∃ length, entry.prefixLength = some length ∧ 1 ≤ length
  families : ∀ item ∈ network.interfaces, ∀ entry ∈ item.addresses,
    entry.family = "inet" ↔ ':' ∉ entry.address.toList

/-- The first IPv4 address of an interface. -/
def firstInet (item : NetworkInterface) : Option InterfaceAddress :=
  item.addresses.find? fun entry => entry.family = "inet"

/-- The candidate of the default route is an interface of the machine. -/
theorem administration_eq_some {reader : HostReading} {admin : InterfaceCandidate}
    {address : String}
    (h : administration (interfaceCandidates reader) = some (admin, address)) :
    ∃ item ∈ reader.network.interfaces,
      reader.network.defaultRouteInterface = some item.name ∧ admin.name = item.name ∧
        firstIpv4 (item.addresses.map (·.address)) = some address := by
  obtain ⟨candidate, hfind, h⟩ := Option.bind_eq_some_iff.mp h
  obtain ⟨first, hfirst, heq⟩ := Option.bind_eq_some_iff.mp h
  obtain ⟨rfl, rfl⟩ := Prod.mk.inj (Option.some.inj heq)
  have hcarries := List.find?_some hfind
  obtain ⟨item, hitem, rfl⟩ := List.mem_map.mp (List.mem_of_find?_eq_some hfind)
  refine ⟨item, (List.mem_filter.mp hitem).1, ?_, rfl, (Option.filter_eq_some_iff.mp hfirst).1⟩
  exact (of_decide_eq_true hcarries).symm

/-- The search by the text stops at the first IPv4 entry. -/
theorem firstIpv4_addresses {entries : List InterfaceAddress}
    (hfamilies : ∀ entry ∈ entries, entry.family = "inet" ↔ ':' ∉ entry.address.toList) :
    firstIpv4 (entries.map (·.address)) =
      (entries.find? fun entry => entry.family = "inet").map (·.address) := by
  rw [firstIpv4, List.find?_map]
  exact congrArg (Option.map (·.address)) (List.find?_congr fun entry hentry =>
    decide_eq_decide.mpr (hfamilies entry hentry).symm)

/-- The search by the family stops there too. -/
theorem findSome_prefixes {entries : List InterfaceAddress}
    (hprefixes : ∀ entry ∈ entries, entry.family = "inet" →
      ∃ length, entry.prefixLength = some length ∧ 1 ≤ length) :
    (entries.findSome? fun entry =>
        if entry.family = "inet" then entry.prefixLength.filter (· ≠ 0) else none) =
      (entries.find? fun entry => entry.family = "inet").bind (·.prefixLength) := by
  induction entries with
  | nil => rfl
  | cons entry entries ih =>
      have hrest := ih fun other hother => hprefixes other (List.mem_cons_of_mem entry hother)
      by_cases hfamily : entry.family = "inet"
      · obtain ⟨length, hlength, hpositive⟩ :=
          hprefixes entry (List.mem_cons_self) hfamily
        have hne : length ≠ 0 := by omega
        simp [hfamily, hlength, hne]
      · simpa [hfamily] using hrest

/-- One interface has the name: the prefix is looked for among its addresses only. -/
theorem prefixLength_of_mem {network : NetworkReading} {item : NetworkInterface}
    (hnetwork : AsIpShows network) (hitem : item ∈ network.interfaces) :
    prefixLength network item.name = (firstInet item).bind (·.prefixLength) := by
  have hsame : network.interfaces.filter (fun other => other.name = item.name) = [item] := by
    have hone : ∀ other ∈ network.interfaces,
        decide (other.name = item.name) = (other == item) := by
      intro other hother
      rw [Bool.eq_iff_iff, decide_eq_true_iff, beq_iff_eq]
      exact ⟨List.inj_on_of_nodup_map hnetwork.names hother hitem, congrArg NetworkInterface.name⟩
    rw [List.filter_congr hone, List.filter_beq,
      List.count_eq_one_of_mem (List.Nodup.of_map _ hnetwork.names) hitem, List.replicate_one]
  rw [prefixLength, hsame, List.flatMap_singleton]
  exact findSome_prefixes (hnetwork.prefixes item hitem)

/-- **The proposed address and the proposed prefix are those of one entry, the first IPv4 one
of the interface that carries the default route.** -/
theorem proposed_from_one_entry {reader : HostReading} {discovery : Discovery}
    {node : NodeConfig} (hnetwork : AsIpShows reader.network)
    (h : discover reader = .ok discovery) (hnode : discovery.proposed = some node) :
    ∃ item ∈ reader.network.interfaces, ∃ entry,
      reader.network.defaultRouteInterface = some item.name ∧
        node.networkInterface = item.name ∧ firstInet item = some entry ∧
          node.ansibleHost = entry.address ∧ entry.prefixLength = some node.subnet.val := by
  obtain ⟨admin, address, hadmin, hsubnet, rfl⟩ := propose_eq_some (propose_of_discover h hnode)
  obtain ⟨item, hitem, hroute, hname, hfirst⟩ := administration_eq_some hadmin
  rw [firstIpv4_addresses (hnetwork.families item hitem)] at hfirst
  obtain ⟨entry, hentry, rfl⟩ := Option.map_eq_some_iff.mp hfirst
  have hinet : entry.family = "inet" := by simpa using List.find?_some hentry
  obtain ⟨length, hlength, -⟩ :=
    hnetwork.prefixes item hitem entry (List.mem_of_find?_eq_some hentry) hinet
  have hsought : prefixLength reader.network admin.name = some length := by
    rw [hname, prefixLength_of_mem hnetwork hitem, firstInet, hentry]
    exact hlength
  refine ⟨item, hitem, entry, hroute, hname, hentry, rfl, ?_⟩
  simp only [hsought, hlength, Option.getD_some]

/-- Two addresses of each kind on the interface of the default route, the second IPv4 one with
a prefix of its own. -/
def twoAddresses : HostReading where
  nodeIdentity := { hostname := "node1" }
  network :=
    { interfaces :=
        [{ name := "lo", kind := some "loopback",
           addresses := [{ address := "127.0.0.1", prefixLength := some 8, family := "inet" }] },
         { name := "eno1", kind := some "physical",
           addresses := [{ address := "fe80::1", prefixLength := some 64, family := "inet6" },
                         { address := "10.0.0.5", prefixLength := some 24, family := "inet" },
                         { address := "10.1.0.5", prefixLength := some 16, family := "inet" }] }]
      defaultRouteInterface := some "eno1" }

theorem proposed_from_one_entry_two :
    ∃ discovery node, discover twoAddresses = .ok discovery ∧ discovery.proposed = some node ∧
      ∃ item ∈ twoAddresses.network.interfaces, ∃ entry,
        twoAddresses.network.defaultRouteInterface = some item.name ∧
          node.networkInterface = item.name ∧ firstInet item = some entry ∧
            node.ansibleHost = entry.address ∧ entry.prefixLength = some node.subnet.val := by
  have hnetwork : AsIpShows twoAddresses.network := by
    constructor <;> decide
  exact ⟨_, _, rfl, rfl, proposed_from_one_entry hnetwork rfl rfl⟩

end SeapathWebui.Inventory
