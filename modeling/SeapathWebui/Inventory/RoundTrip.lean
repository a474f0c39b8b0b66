/-
  Inventory/RoundTrip.lean --- reading a rendered inventory back.

  The renderer writes a host's variables as one dictionary: the fields of the
  model, then `extra`, then the fixed values (`hostVars`).  The parser looks each
  field up by name and keeps what is left.  `get?_hostVars` says what stands under
  a name in the written dictionary, and `node_hostVars` what the parser makes of
  it when `extra` stays clear of the names the renderer writes itself: the node it
  was written from, normalised.  An empty optional text is not written, and a
  standalone file says nothing of roles (`normalise`).
-/
import Mathlib.Data.List.Find
import SeapathWebui.Inventory.Parser

set_option autoImplicit false

namespace SeapathWebui.Inventory

open SeapathWebui.Foundation

/-! ## Reading a written dictionary -/

/-- `vars` is what the loader makes of the written dictionary `d`. -/
def IsLoaded {V : Type} (vars : Dict Scalar V) (d : Dict String V) : Prop :=
  vars.entries = d.entries.map fun e => (.str e.1, e.2)

theorem IsLoaded.get? {V : Type} {vars : Dict Scalar V} {d : Dict String V}
    (h : IsLoaded vars d) (k : String) : vars.get? (.str k) = d.get? k := by
  rw [Dict.get?, h]
  exact (Scalar.lookup_map_str id d.entries k).trans Option.map_id_apply

/-- The keys of a written dictionary are texts, and read back as they are. -/
theorem textKeys_map_str {V : Type} (d : Dict String V) :
    textKeys (d.entries.map fun e => (Scalar.str e.1, e.2)) = .ok d := by
  have hpairs : ∀ l : List (String × V),
      (l.map fun e => (Scalar.str e.1, e.2)).mapM textEntry = .ok l := by
    intro l
    induction l with
    | nil => rfl
    | cons e rest ih =>
        rw [List.map_cons, List.mapM_cons, ih]
        rfl
  unfold textKeys
  rw [hpairs]
  exact congrArg Except.ok (Dict.ofList_entries d)

/-- What the parser leaves to `extra`. -/
theorem IsLoaded.extra {vars : Dict Scalar Value} {d : Dict String Value}
    (h : IsLoaded vars d) :
    textKeys (vars.filterKeys isExtra).entries =
      .ok (d.filterKeys fun name => name ∉ reservedNames) := by
  have hfilter : (vars.filterKeys isExtra).entries =
      (d.filterKeys fun name => name ∉ reservedNames).entries.map
        fun e => (Scalar.str e.1, e.2) := by
    simp only [Dict.filterKeys]
    rw [h, List.filter_map]
    rfl
  rw [hfilter]
  exact textKeys_map_str _

theorem hostVariables_ofDict {d : Dict String Value} (h : d.entries ≠ []) :
    ∃ vars, hostVariables (.ofDict d) = .ok vars ∧ IsLoaded vars d := by
  obtain ⟨vars, hdict, hentries⟩ := Value.asDict_ofDict d
  refine ⟨vars, ?_, hentries⟩
  have htruthy : (Value.ofDict d).truthy = true := by
    simpa [Value.ofDict, Value.truthy] using h
  simp only [hostVariables, htruthy, if_true, Value.toDict, hdict]

/-! ## What stands under a name -/

theorem lookup_optionalVar (name k : String) (value : Option String) :
    (optionalVar name value).lookup k =
      if name = k then (value.filter (· ≠ "")).map Value.str else none := by
  cases value with
  | none => simp [optionalVar]
  | some text =>
      by_cases hempty : text = ""
      · simp [optionalVar, hempty, Option.filter]
      · simp [optionalVar, hempty, Dict.lookup_cons_ite, Option.filter]

theorem lookup_listVar (name k : String) (values : List String) :
    (listVar name values).lookup k =
      if name = k ∧ values ≠ [] then some (.seq .list (values.map .str)) else none := by
  unfold listVar
  split
  · rename_i h
    simp [h]
  · rename_i h
    simp [Dict.lookup_cons_ite, h]

/-- The names `_host_vars` may assign from the fields of the model, in order. -/
def writtenNames : List String :=
  ["ansible_host", "network_interface", "subnet", "gateway_addr", "dns_servers",
    "ptp_interface", "ptp_domain_number"] ++ ptpDomainAliases ++
    ["ntp_servers", "admin_user", "grub_password"]

theorem keys_optionalVar (name : String) (value : Option String) :
    ((optionalVar name value).map Prod.fst).Sublist [name] := by
  unfold optionalVar
  split
  · exact List.nil_sublist _
  · split
    · exact List.nil_sublist _
    · exact List.Sublist.refl _

theorem keys_listVar (name : String) (values : List String) :
    ((listVar name values).map Prod.fst).Sublist [name] := by
  unfold listVar
  split
  · exact List.nil_sublist _
  · exact List.Sublist.refl _

theorem keys_ptpVars (domain : Option PtpDomain) :
    ((ptpVars domain).map Prod.fst).Sublist ("ptp_domain_number" :: ptpDomainAliases) := by
  cases domain with
  | none => exact List.nil_sublist _
  | some n => exact List.Sublist.refl _

theorem keys_modelledVars (node : NodeConfig) :
    ((modelledVars node).map Prod.fst).Sublist writtenNames := by
  simp only [modelledVars, List.map_append]
  exact ((((((((List.Sublist.refl _).append (keys_optionalVar _ _)).append
    (keys_listVar _ _)).append (keys_optionalVar _ _)).append (keys_ptpVars _)).append
    (keys_listVar _ _)).append (keys_optionalVar _ _)).append (keys_optionalVar _ _))

theorem nodup_modelledVars (node : NodeConfig) : ((modelledVars node).map Prod.fst).Nodup :=
  (keys_modelledVars node).nodup (by decide)

theorem writtenNames_subset_reserved : ∀ name ∈ writtenNames, name ∈ reservedNames := by
  decide

theorem nodup_fixedHostVars : (fixedHostVars.map Prod.fst).Nodup := by decide

/-- The written dictionary: a fixed value wins over `extra`, and `extra` over a field
of the model. -/
theorem get?_hostVars (node : NodeConfig) (k : String) :
    (hostVars node).get? k =
      ((fixedHostVars.lookup k).or (node.extra.get? k)).or ((modelledVars node).lookup k) := by
  unfold hostVars
  rw [Dict.get?_update _ _ nodup_fixedHostVars, Dict.get?_update _ _ node.extra.nodup,
    Dict.get?_ofList (nodup_modelledVars node), Option.or_assoc]
  rfl

theorem entries_hostVars_ne_nil (node : NodeConfig) : (hostVars node).entries ≠ [] := by
  intro hempty
  have hget : (hostVars node).get? "ansible_user" = some (.str "ansible") := by
    rw [get?_hostVars]
    rfl
  rw [Dict.get?, hempty] at hget
  cases hget

/-- What is left to `extra` in the written dictionary is what `extra` has under names
the renderer does not write. -/
theorem filterKeys_hostVars (node : NodeConfig) :
    (hostVars node).filterKeys (fun name => name ∉ reservedNames) =
      node.extra.filterKeys fun name => name ∉ reservedNames := by
  have hfixed : (fixedHostVars.filter fun e => decide (e.1 ∉ reservedNames)) = [] := by decide
  have hmodelled : (Dict.ofList (modelledVars node)).filterKeys
      (fun name => name ∉ reservedNames) = ∅ := by
    apply Dict.ext
    simp only [Dict.filterKeys, Dict.entries_ofList (nodup_modelledVars node)]
    refine List.filter_eq_nil_iff.mpr fun e he => ?_
    have hname := (keys_modelledVars node).subset (List.mem_map_of_mem (f := Prod.fst) he)
    simpa using writtenNames_subset_reserved e.1 hname
  unfold hostVars
  rw [Dict.filterKeys_update, Dict.filterKeys_update, hfixed, hmodelled]
  exact Dict.ofList_entries (node.extra.filterKeys fun name => name ∉ reservedNames)

theorem lookup_ptpVars (k : String) (domain : Option PtpDomain) :
    (ptpVars domain).lookup k =
      if "ptp_domain_number" = k then domain.map fun n => .scalar (.int n)
      else if k ∈ ptpDomainAliases then
        domain.map fun _ => .str "\x7b\x7b ptp_domain_number \x7d\x7d"
      else none := by
  cases domain with
  | none => simp [ptpVars]
  | some n => simp [ptpVars, ptpDomainAliases, Dict.lookup_cons_ite, eq_comm, ite_or]

/-- The value a field of the model is written as; `none` where it is not written. -/
theorem lookup_modelledVars (node : NodeConfig) :
    (modelledVars node).lookup "ansible_host" = some (.str node.ansibleHost) ∧
    (modelledVars node).lookup "network_interface" = some (.str node.networkInterface) ∧
    (modelledVars node).lookup "subnet" = some (.scalar (.int node.subnet)) ∧
    (modelledVars node).lookup "gateway_addr" =
      (node.gatewayAddr.filter (· ≠ "")).map Value.str ∧
    (modelledVars node).lookup "dns_servers" =
      (if node.dnsServers ≠ [] then some (.seq .list (node.dnsServers.map .str)) else none) ∧
    (modelledVars node).lookup "ptp_interface" =
      (node.ptpInterface.filter (· ≠ "")).map Value.str ∧
    (modelledVars node).lookup "ptp_domain_number" =
      node.ptpDomainNumber.map (fun n => .scalar (.int n)) ∧
    (modelledVars node).lookup "ntp_servers" =
      (if node.ntpServers ≠ [] then some (.seq .list (node.ntpServers.map .str)) else none) ∧
    (modelledVars node).lookup "admin_user" = (node.adminUser.filter (· ≠ "")).map Value.str ∧
    (modelledVars node).lookup "grub_password" =
      (node.grubPassword.filter (· ≠ "")).map Value.str ∧
    (modelledVars node).lookup "isolcpus" = none := by
  simp [modelledVars, List.lookup_append, lookup_optionalVar, lookup_listVar, lookup_ptpVars,
    Dict.lookup_cons_ite, ptpDomainAliases]

/-! ## What the parser makes of it -/

section ReadBack

variable (rt : Runtime)

/-- The reading of what `extra` has under the name of a field, else the field. -/
def overlaid {α : Type} (extra : Dict String Value) (name : String) (read : Option Value → α)
    (own : α) : α :=
  match extra.get? name with
  | some value => read (some value)
  | none => own

/-- What a rendered file gives the conversions: `extra` wins over the fields of the
model, and an empty optional text is not written. -/
def overlay (node : NodeConfig) : Except Raised Converted := do
  let ansibleHost ← overlaid node.extra "ansible_host" (textOrEmpty rt) (.ok node.ansibleHost)
  let networkInterface ←
    overlaid node.extra "network_interface" (textOrEmpty rt) (.ok node.networkInterface)
  let subnet ← overlaid node.extra "subnet" subnetOr24 (.ok node.subnet)
  let gatewayAddr ←
    overlaid node.extra "gateway_addr" (optionalStr rt) (.ok (node.gatewayAddr.filter (· ≠ "")))
  let dnsServers ← overlaid node.extra "dns_servers" (asList rt) (.ok node.dnsServers)
  let ptpInterface ←
    overlaid node.extra "ptp_interface" (optionalStr rt) (.ok (node.ptpInterface.filter (· ≠ "")))
  let ptpDomainNumber ←
    overlaid node.extra "ptp_domain_number" optionalInt (.ok (node.ptpDomainNumber.map (·.1)))
  let ntpServers ← overlaid node.extra "ntp_servers" (asList rt) (.ok node.ntpServers)
  let adminUser ←
    overlaid node.extra "admin_user" (optionalStr rt) (.ok (node.adminUser.filter (· ≠ "")))
  let grubPassword ←
    overlaid node.extra "grub_password" (optionalStr rt) (.ok (node.grubPassword.filter (· ≠ "")))
  let isolcpus ←
    overlaid node.extra "isolcpus" (optionalStr rt) (.ok (node.isolcpus.filter (· ≠ "")))
  .ok ⟨ansibleHost, networkInterface, subnet, gatewayAddr, dnsServers, ptpInterface,
    ptpDomainNumber, ntpServers, adminUser, grubPassword, isolcpus⟩

/-- What a file keeps of `extra`. -/
def keptExtra (node : NodeConfig) : Dict String Value :=
  node.extra.filterKeys fun name => name ∉ reservedNames

/-- The node a rendered file says; roles are not said. -/
def effective (node : NodeConfig) : Except ParseError NodeConfig := do
  let converted ← raising (overlay rt node)
  construct .hypervisor converted (keptExtra node)

theorem optionalStr_map_str (value : Option String) :
    optionalStr rt (value.map Value.str) = .ok value := by
  cases value <;> rfl

theorem textOrEmpty_str (s : String) : textOrEmpty rt (some (.str s)) = .ok s := by
  by_cases h : s = ""
  · simp [textOrEmpty, h]
  · simp [textOrEmpty, h]

theorem subnetOr24_coe (n : Subnet) : subnetOr24 (some (.scalar (.int n))) = .ok n := by
  have hne : (n : Int) ≠ 0 := by
    have := n.2.1
    omega
  simp [subnetOr24, Value.truthy, hne]

theorem optionalInt_coe (domain : Option PtpDomain) :
    optionalInt (domain.map fun n : PtpDomain => Value.scalar (.int n)) =
      .ok (domain.map (·.1)) := by
  cases domain <;> rfl

theorem mapM_toText_str (values : List String) :
    (values.map Value.str).mapM (·.toText rt.repr) = .ok values := by
  induction values with
  | nil => rfl
  | cons s rest ih =>
      rw [List.map_cons, List.mapM_cons, ih]
      rfl

theorem asList_written (values : List String) :
    asList rt (if values ≠ [] then some (.seq .list (values.map .str)) else none) =
      .ok values := by
  by_cases h : values = []
  · rw [if_neg (not_not.mpr h), h]
    rfl
  · rw [if_pos h]
    exact mapM_toText_str rt values

/-- Each field is read back from what it is written as; an empty optional text is not
there. -/
theorem read_modelledVars (node : NodeConfig) :
    textOrEmpty rt ((modelledVars node).lookup "ansible_host") = .ok node.ansibleHost ∧
    textOrEmpty rt ((modelledVars node).lookup "network_interface") =
      .ok node.networkInterface ∧
    subnetOr24 ((modelledVars node).lookup "subnet") = .ok node.subnet ∧
    optionalStr rt ((modelledVars node).lookup "gateway_addr") =
      .ok (node.gatewayAddr.filter (· ≠ "")) ∧
    asList rt ((modelledVars node).lookup "dns_servers") = .ok node.dnsServers ∧
    optionalStr rt ((modelledVars node).lookup "ptp_interface") =
      .ok (node.ptpInterface.filter (· ≠ "")) ∧
    optionalInt ((modelledVars node).lookup "ptp_domain_number") =
      .ok (node.ptpDomainNumber.map (·.1)) ∧
    asList rt ((modelledVars node).lookup "ntp_servers") = .ok node.ntpServers ∧
    optionalStr rt ((modelledVars node).lookup "admin_user") =
      .ok (node.adminUser.filter (· ≠ "")) ∧
    optionalStr rt ((modelledVars node).lookup "grub_password") =
      .ok (node.grubPassword.filter (· ≠ "")) := by
  obtain ⟨hhost, hinterface, hsubnet, hgateway, hdns, hptp, hdomain, hntp, hadmin, hgrub, -⟩ :=
    lookup_modelledVars node
  rw [hhost, hinterface, hsubnet, hgateway, hdns, hptp, hdomain, hntp, hadmin, hgrub]
  exact ⟨textOrEmpty_str rt _, textOrEmpty_str rt _, subnetOr24_coe _, optionalStr_map_str rt _,
    asList_written rt _, optionalStr_map_str rt _, optionalInt_coe _, asList_written rt _,
    optionalStr_map_str rt _, optionalStr_map_str rt _⟩

/-- A name of a field, in the written dictionary. -/
theorem get?_hostVars_modelled {node : NodeConfig} {k : String}
    (hfixed : k ∉ fixedHostVarNames) :
    (hostVars node).get? k = (node.extra.get? k).or ((modelledVars node).lookup k) := by
  rw [get?_hostVars, Dict.lookup_eq_none_iff_not_mem.mpr hfixed, Option.none_or]

/-- The parser reads a field where the overlay does. -/
theorem read_hostVars {α : Type} {node : NodeConfig} {k : String} (read : Option Value → α)
    {own : α} (hfixed : k ∉ fixedHostVarNames) (hown : read ((modelledVars node).lookup k) = own) :
    read ((hostVars node).get? k) = overlaid node.extra k read own := by
  rw [get?_hostVars_modelled hfixed]
  unfold overlaid
  cases node.extra.get? k with
  | some v => rfl
  | none => exact hown

/-- The conversions, on the dictionary the renderer writes. -/
theorem convert_hostVars (node : NodeConfig) :
    convert rt (hostVars node).get? ((node.isolcpus.filter (· ≠ "")).map Value.str) =
      overlay rt node := by
  obtain ⟨hhost, hinterface, hsubnet, hgateway, hdns, hptp, hdomain, hntp, hadmin, hgrub⟩ :=
    read_modelledVars rt node
  -- isolcpus is written for the group, not for the host
  have hisolcpus : optionalStr rt (((modelledVars node).lookup "isolcpus").or
      ((node.isolcpus.filter (· ≠ "")).map Value.str)) =
        .ok (node.isolcpus.filter (· ≠ "")) := by
    rw [(lookup_modelledVars node).2.2.2.2.2.2.2.2.2.2]
    exact optionalStr_map_str rt _
  simp only [convert, overlay,
    read_hostVars _ (by decide) hhost, read_hostVars _ (by decide) hinterface,
    read_hostVars _ (by decide) hsubnet, read_hostVars _ (by decide) hgateway,
    read_hostVars _ (by decide) hdns, read_hostVars _ (by decide) hptp,
    read_hostVars _ (by decide) hdomain, read_hostVars _ (by decide) hntp,
    read_hostVars _ (by decide) hadmin, read_hostVars _ (by decide) hgrub,
    read_hostVars (fun v => optionalStr rt (v.or _)) (by decide) hisolcpus]
  rfl

/-- The parser, on the dictionary the renderer writes. -/
theorem node_hostVars {vars : Dict Scalar Value} {node : NodeConfig}
    (h : IsLoaded vars (hostVars node)) :
    Inventory.node rt vars false ((node.isolcpus.filter (· ≠ "")).map Value.str) =
      effective rt node := by
  have hknown : (fun name => vars.get? (.str name)) = (hostVars node).get? := funext h.get?
  unfold Inventory.node effective
  rw [hknown, convert_hostVars, h.extra, filterKeys_hostVars]
  rfl

/-- The single isolated set of a one-host inventory. -/
theorem isolatedSets_single {inventory : Inventory} {name : String} {node : NodeConfig}
    (h : inventory.hosts.entries = [(name, node)]) :
    isolatedSets inventory = (node.isolcpus.filter (· ≠ "")).toList := by
  unfold isolatedSets
  rw [h]
  cases hcpus : node.isolcpus with
  | none => simp [hcpus]
  | some text => by_cases hempty : text = "" <;> simp [hcpus, hempty, Option.filter]

/-- What the parser finds for isolcpus in the group the renderer writes. -/
theorem groupVars_groupWithIsolcpus {inventory : Inventory} {name : String} {node : NodeConfig}
    (h : inventory.hosts.entries = [(name, node)]) :
    (groupVars (some (groupWithIsolcpus inventory))).get? (.str "isolcpus") =
      (node.isolcpus.filter (· ≠ "")).map Value.str := by
  unfold groupWithIsolcpus
  rw [isolatedSets_single h]
  cases node.isolcpus.filter (· ≠ "") <;> rfl

/-- The groups of a rendered document, as the parser reads them. -/
theorem parseLoaded_standaloneDocument {inventory : Inventory} {name : String}
    {node : NodeConfig} (h : inventory.hosts.entries = [(name, node)]) :
    parseLoaded rt (standaloneDocument inventory) =
      (effective rt node).map fun node' =>
        { mode := .standalone, hosts := Dict.ofList [(name, node')] } := by
  have hhosts : hostsVars inventory = .map [(.str name, .ofDict (hostVars node))] := by
    simp [hostsVars, h]
  obtain ⟨vars, hvars, hloaded⟩ := hostVariables_ofDict (entries_hostVars_ne_nil node)
  have hgroup := groupVars_groupWithIsolcpus h
  -- the five groups, one by one
  obtain ⟨groups, hgroups⟩ : ∃ groups, (standaloneDocument inventory).asDict = some groups :=
    ⟨_, rfl⟩
  have hall : groupHosts (groups.get? (.str "all")) =
      Dict.ofList [(.str name, .ofDict (hostVars node))] := by
    obtain rfl := Option.some.inj hgroups
    rw [hhosts]
    rfl
  have hhypervisors : groups.get? (.str "hypervisors") = some (groupWithIsolcpus inventory) := by
    obtain rfl := Option.some.inj hgroups
    rfl
  have hcluster : groupHostNames (groups.get? (.str "cluster_machines")) = [] := by
    obtain rfl := Option.some.inj hgroups
    rfl
  have hobservers : groupHostNames (groups.get? (.str "observers")) = [] := by
    obtain rfl := Option.some.inj hgroups
    rfl
  have hentries : (Dict.ofList [(Scalar.str name, Value.ofDict (hostVars node))]).entries =
      [(.str name, .ofDict (hostVars node))] := rfl
  have hnodes : hostNodes rt groups =
      (effective rt node).map fun node' => [(.str name, node')] := by
    simp only [hostNodes, hall, hentries, hobservers, hhypervisors, hgroup, List.mapM_cons,
      List.mapM_nil, hvars, raising, List.not_mem_nil, decide_false, node_hostVars rt hloaded,
      Except.bind, bind]
    cases effective rt node <;> rfl
  have hparse : parseGroups rt groups = (effective rt node).map fun node' =>
      { mode := .standalone, hosts := Dict.ofList [(name, node')] } := by
    simp only [parseGroups, hall, hentries, hcluster, hnodes, reduceCtorEq, if_false, if_true]
    cases effective rt node <;> rfl
  simp only [parseLoaded, hgroups]
  exact (if_pos rfl).trans hparse

/-! ## Round trip -/

/-- What the program relies on of its YAML library, at one document: the loader
inverts the dumper, and skips the comments and the document marker before it. -/
structure ReadsBack (document : Value) : Prop where
  inverts : rt.safeLoad (rt.dump document) = .ok document
  comments : rt.safeLoad (documentText rt document) = rt.safeLoad (rt.dump document)

/-- The library's dumper tells documents apart that its loader reads back. -/
theorem document_eq_of_text {document document' : Value} (h : ReadsBack rt document)
    (h' : ReadsBack rt document') (htext : documentText rt document' = documentText rt document) :
    document' = document := by
  have hload : rt.safeLoad (documentText rt document') = .ok document' :=
    h'.comments.trans h'.inverts
  rw [htext, h.comments, h.inverts] at hload
  exact (Except.ok.inj hload).symm

/-- What the parser makes of a written inventory. -/
theorem parse_documentText {inventory : Inventory} {name : String} {node : NodeConfig}
    (h : inventory.hosts.entries = [(name, node)])
    (hyaml : ReadsBack rt (standaloneDocument inventory)) :
    parse rt (documentText rt (standaloneDocument inventory)) =
      (effective rt node).map fun node' =>
        { mode := .standalone, hosts := Dict.ofList [(name, node')] } := by
  unfold parse
  rw [hyaml.comments, hyaml.inverts]
  exact parseLoaded_standaloneDocument rt h

theorem render_standalone {inventory : Inventory} (h : inventory.mode = .standalone) :
    render rt inventory = .ok (documentText rt (standaloneDocument inventory)) := by
  unfold render
  rw [h]

/-- `extra` stays clear of the names the renderer writes. -/
def NodeConfig.Clear (node : NodeConfig) : Prop := ∀ k ∈ node.extra.keys, k ∉ reservedNames

instance (node : NodeConfig) : Decidable node.Clear :=
  inferInstanceAs (Decidable (∀ k ∈ node.extra.keys, k ∉ reservedNames))

/-- A node as a file says it: no role, and no empty optional text. -/
def normalise (node : NodeConfig) : NodeConfig :=
  { node with
    role := .hypervisor
    gatewayAddr := node.gatewayAddr.filter (· ≠ "")
    ptpInterface := node.ptpInterface.filter (· ≠ "")
    adminUser := node.adminUser.filter (· ≠ "")
    grubPassword := node.grubPassword.filter (· ≠ "")
    isolcpus := node.isolcpus.filter (· ≠ "") }

theorem overlaid_of_clear {α : Type} {node : NodeConfig} (h : node.Clear) {name : String}
    (hname : name ∈ reservedNames) (read : Option Value → α) (own : α) :
    overlaid node.extra name read own = own := by
  have hnone : node.extra.get? name = none := by
    rw [Dict.get?_eq_none_iff]
    intro hmem
    exact h name hmem hname
  simp only [overlaid, hnone]

/-- What the fields of a node are converted to, read back. -/
def NodeConfig.converted (node : NodeConfig) : Converted where
  ansibleHost := node.ansibleHost
  networkInterface := node.networkInterface
  subnet := node.subnet
  gatewayAddr := node.gatewayAddr
  dnsServers := node.dnsServers
  ptpInterface := node.ptpInterface
  ptpDomainNumber := node.ptpDomainNumber.map (·.1)
  ntpServers := node.ntpServers
  adminUser := node.adminUser
  grubPassword := node.grubPassword
  isolcpus := node.isolcpus

/-- The checks of the model accept what a node holds. -/
theorem construct_converted (node : NodeConfig) (role : Role) (extra : Dict String Value) :
    construct role node.converted extra = .ok { node with role := role, extra := extra } := by
  have hsubnet : subnetField node.converted.subnet = .ok node.subnet := dif_pos node.subnet.2
  have hdomain : ptpDomainField node.converted.ptpDomainNumber = .ok node.ptpDomainNumber := by
    simp only [NodeConfig.converted]
    cases node.ptpDomainNumber with
    | none => rfl
    | some n => exact dif_pos n.2
  simp only [construct, hsubnet, hdomain]
  rfl

/-- Where `extra` is clear, a file gives the node back, normalised. -/
theorem effective_of_clear {node : NodeConfig} (h : node.Clear) :
    effective rt node = .ok (normalise node) := by
  have hfield : ∀ {α : Type} {name : String} (read : Option Value → α) (own : α),
      name ∈ modelledNames → overlaid node.extra name read own = own := by
    intro α name read own hname
    refine overlaid_of_clear h ?_ read own
    simp [reservedNames, hname]
  have hextra : keptExtra node = node.extra :=
    Dict.filterKeys_eq_self fun k hk => by simpa using h k hk
  have hoverlay : overlay rt node = .ok (normalise node).converted := by
    unfold overlay
    rw [hfield (textOrEmpty rt) _ (by decide), hfield (textOrEmpty rt) _ (by decide),
      hfield subnetOr24 _ (by decide), hfield (optionalStr rt) _ (by decide),
      hfield (asList rt) _ (by decide), hfield (optionalStr rt) _ (by decide),
      hfield optionalInt _ (by decide), hfield (asList rt) _ (by decide),
      hfield (optionalStr rt) _ (by decide), hfield (optionalStr rt) _ (by decide),
      hfield (optionalStr rt) _ (by decide)]
    rfl
  unfold effective
  rw [hoverlay, hextra]
  exact construct_converted (normalise node) .hypervisor node.extra

/-- A node of which a file says everything. -/
structure NodeConfig.Sayable (node : NodeConfig) : Prop where
  role : node.role = .hypervisor
  gatewayAddr : node.gatewayAddr ≠ some ""
  ptpInterface : node.ptpInterface ≠ some ""
  adminUser : node.adminUser ≠ some ""
  grubPassword : node.grubPassword ≠ some ""
  isolcpus : node.isolcpus ≠ some ""
  clear : node.Clear

theorem filter_ne_empty {value : Option String} (h : value ≠ some "") :
    value.filter (· ≠ "") = value := by
  cases value with
  | none => rfl
  | some text =>
      have hne : text ≠ "" := fun heq => h (congrArg some heq)
      simp [Option.filter, hne]

theorem normalise_of_sayable {node : NodeConfig} (h : node.Sayable) : normalise node = node := by
  unfold normalise
  rw [filter_ne_empty h.gatewayAddr, filter_ne_empty h.ptpInterface, filter_ne_empty h.adminUser,
    filter_ne_empty h.grubPassword, filter_ne_empty h.isolcpus, ← h.role]

/-- The file of an inventory of which it says everything is read back as it was. -/
theorem parse_documentText_of_sayable {inventory : Inventory} {name : String}
    {node : NodeConfig} (hmode : inventory.mode = .standalone)
    (hhosts : inventory.hosts.entries = [(name, node)]) (hnode : node.Sayable)
    (hyaml : ReadsBack rt (standaloneDocument inventory)) :
    parse rt (documentText rt (standaloneDocument inventory)) = .ok inventory := by
  rw [parse_documentText rt hhosts hyaml, effective_of_clear rt hnode.clear,
    normalise_of_sayable hnode]
  have hsame : Dict.ofList [(name, node)] = inventory.hosts := Dict.ext hhosts.symm
  obtain ⟨mode, hosts⟩ := inventory
  obtain rfl : mode = .standalone := hmode
  simp only [Except.map, hsame]

/-- A standalone inventory of one machine, of which the file says everything, is read
back as it was written, field by field. -/
theorem parse_render {inventory : Inventory} {name : String} {node : NodeConfig}
    (hmode : inventory.mode = .standalone) (hhosts : inventory.hosts.entries = [(name, node)])
    (hnode : node.Sayable) (hyaml : ReadsBack rt (standaloneDocument inventory)) :
    ∃ text, render rt inventory = .ok text ∧ parse rt text = .ok inventory :=
  ⟨_, render_standalone rt hmode, parse_documentText_of_sayable rt hmode hhosts hnode hyaml⟩

end ReadBack

/-! ### The reference machine -/

/-- A YAML library that knows the given documents, each with a text of it. -/
def knowing (documents : List (Value × String)) : Runtime where
  dump document := (documents.lookup document).getD ""
  safeLoad text :=
    match documents.find? fun e => text = e.2 || text = header ++ "---\n" ++ e.2 with
    | some e => .ok e.1
    | none => .error (.yaml "an unknown text")
  repr
    | .scalar (.str s) => "'" ++ s ++ "'"
    | _ => ""

theorem readsBack_knowing (document : Value) (text : String) :
    ReadsBack (knowing [(document, text)]) document := by
  have hdump : (knowing [(document, text)]).dump document = text := by simp [knowing]
  refine ⟨?_, ?_⟩
  · rw [hdump]
    simp [knowing]
  · rw [documentText, hdump]
    simp [knowing]

/-- The text begins as a dumped inventory does. -/
def BeginsWithAll (text : String) : Prop := ∃ rest, text = "all:\n" ++ rest

theorem head_header (text : String) :
    (header ++ "---\n" ++ text).toList.head? = some '#' := by
  unfold header
  simp only [String.toList_append]
  rfl

theorem BeginsWithAll.ne_header {text : String} (h : BeginsWithAll text) (other : String) :
    header ++ "---\n" ++ other ≠ text := by
  obtain ⟨rest, rfl⟩ := h
  intro heq
  have hall : ("all:\n" ++ rest).toList.head? = some 'a' := by
    rw [String.toList_append]
    rfl
  rw [← heq, head_header] at hall
  cases hall

/-- Among such texts, the header does not change which one it is. -/
theorem safeLoad_knowing_header {documents : List (Value × String)} {text : String}
    (htext : BeginsWithAll text) (htexts : ∀ e ∈ documents, BeginsWithAll e.2) :
    (knowing documents).safeLoad (header ++ "---\n" ++ text) =
      (knowing documents).safeLoad text := by
  have hsame : ∀ e ∈ documents,
      (decide (header ++ "---\n" ++ text = e.2) ||
          decide (header ++ "---\n" ++ text = header ++ "---\n" ++ e.2)) =
        (decide (text = e.2) || decide (text = header ++ "---\n" ++ e.2)) := by
    intro e he
    have hdocument := (htexts e he).ne_header text
    have hheaded := (htext.ne_header e.2).symm
    simp [hdocument, hheaded]
  simp only [knowing, List.find?_congr hsame]

/-- A document of several that the library knows. -/
theorem readsBack_knowing_of_dump {rt : Runtime} {documents : List (Value × String)}
    {document : Value} {text : String} (hrt : rt = knowing documents)
    (hdump : rt.dump document = text) (hload : rt.safeLoad text = .ok document)
    (htext : BeginsWithAll text) (htexts : ∀ e ∈ documents, BeginsWithAll e.2) :
    ReadsBack rt document := by
  refine ⟨by rw [hdump, hload], ?_⟩
  rw [documentText, hdump, hrt]
  exact safeLoad_knowing_header htext htexts

/-- The standalone inventory of one machine. -/
def singleHost (name : String) (node : NodeConfig) : Inventory where
  hosts := Dict.ofList [(name, node)]

/-- The machine of the reference inventory. -/
def reference : NodeConfig where
  ansibleHost := "192.168.200.125"
  networkInterface := "eno1"
  gatewayAddr := some "192.168.200.1"
  dnsServers := ["192.168.200.1"]
  ptpInterface := some "eno12419"
  ptpDomainNumber := some ⟨0, ptpDomain_zero⟩
  ntpServers := ["185.254.101.25"]
  adminUser := some "admin"
  grubPassword := some "grub.pbkdf2.sha512.65536.AAAA.BBBB"
  isolcpus := some "4-7"

/-- The lines of the fixed values, as they are dumped. -/
def fixedLines : String :=
  "      hostname: '\x7b\x7b inventory_hostname \x7d\x7d'\n" ++
  "      ip_addr: '\x7b\x7b ansible_host \x7d\x7d'\n" ++
  "      apply_network_config: true\n" ++
  "      ansible_connection: ssh\n" ++
  "      ansible_python_interpreter: /usr/bin/python3\n" ++
  "      ansible_remote_tmp: /tmp/.ansible/tmp\n" ++
  "      ansible_user: ansible\n"

/-- The file of the reference inventory, without its comments. -/
def referenceText : String :=
  "all:\n" ++
  "  hosts:\n" ++
  "    seapath-machine:\n" ++
  "      ansible_host: 192.168.200.125\n" ++
  "      network_interface: eno1\n" ++
  "      subnet: 24\n" ++
  "      gateway_addr: 192.168.200.1\n" ++
  "      dns_servers:\n" ++
  "        - 192.168.200.1\n" ++
  "      ptp_interface: eno12419\n" ++
  "      ptp_domain_number: 0\n" ++
  "      timemaster_ptp_domain_number: '\x7b\x7b ptp_domain_number \x7d\x7d'\n" ++
  "      ptp_status_vsock_domain_number: '\x7b\x7b ptp_domain_number \x7d\x7d'\n" ++
  "      ntp_servers:\n" ++
  "        - 185.254.101.25\n" ++
  "      admin_user: admin\n" ++
  "      grub_password: grub.pbkdf2.sha512.65536.AAAA.BBBB\n" ++
  fixedLines ++
  "standalone_machine:\n" ++
  "  hosts:\n" ++
  "    seapath-machine: null\n" ++
  "hypervisors:\n" ++
  "  hosts:\n" ++
  "    seapath-machine: null\n" ++
  "  vars:\n" ++
  "    isolcpus: 4-7\n" ++
  "cluster_machines: null\n" ++
  "observers: null\n"

theorem sayable_reference : reference.Sayable :=
  ⟨rfl, by decide, by decide, by decide, by decide, by decide, by decide⟩

theorem parse_render_reference :
    ∃ text,
      render
        (knowing [(standaloneDocument (singleHost "seapath-machine" reference), referenceText)])
        (singleHost "seapath-machine" reference) = .ok text ∧
      parse (knowing [(standaloneDocument (singleHost "seapath-machine" reference), referenceText)])
        text = .ok (singleHost "seapath-machine" reference) :=
  parse_render _ rfl rfl sayable_reference (readsBack_knowing _ _)

end SeapathWebui.Inventory
