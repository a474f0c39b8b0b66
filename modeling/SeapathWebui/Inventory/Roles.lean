/-
  Inventory/Roles.lean --- group membership, across a save.

  Source: `render` and `_group_with_isolcpus` of app/inventory/renderer.py, `parse` and
  `_node` of app/inventory/parser.py.

  A role is no variable of a host but a membership.  The parser reads it in the group
  `observers`, whatever the mode (`exists_membership_of_parse`).  The renderer writes that
  group empty, and fills `hypervisors` with every name where no machine is one.  The two
  agree on a machine exactly if it is a hypervisor (`role_survives_iff`).
-/
import SeapathWebui.Inventory.Readable
import SeapathWebui.Inventory.Stability

set_option autoImplicit false

namespace SeapathWebui.Inventory

open SeapathWebui.Foundation

/-! ## Where a role is read -/

section Parsed

variable (rt : Runtime)

theorem role_of_construct {role : Role} {c : Converted} {extra : Dict String Value}
    {config : NodeConfig} (h : construct role c extra = .ok config) : config.role = role := by
  obtain ⟨subnet, -, h⟩ := bind_eq_ok.mp h
  obtain ⟨ptpDomainNumber, -, h⟩ := bind_eq_ok.mp h
  exact (Except.ok.inj h) ▸ rfl

theorem role_of_node {vars : Dict Scalar Value} {isObserver : Bool}
    {groupIsolcpus : Option Value} {config : NodeConfig}
    (h : Inventory.node rt vars isObserver groupIsolcpus = .ok config) :
    config.role = if isObserver then .observer else .hypervisor := by
  obtain ⟨converted, -, h⟩ := bind_eq_ok.mp h
  obtain ⟨extra, -, h⟩ := bind_eq_ok.mp h
  exact role_of_construct h

/-- A rendered file says of no machine that it is an observer. -/
theorem role_of_effective {node node' : NodeConfig} (h : effective rt node = .ok node') :
    node'.role = .hypervisor := by
  obtain ⟨converted, -, h⟩ := bind_eq_ok.mp h
  exact role_of_construct h

/-- A parsed machine is an observer exactly if the group of the document lists it. -/
theorem exists_membership_of_parse {document : String} {inventory : Inventory}
    (h : parse rt document = .ok inventory) {e : String × NodeConfig}
    (he : e ∈ inventory.hosts.entries) :
    ∃ loaded groups key, rt.safeLoad document = .ok loaded ∧ loaded.asDict = some groups ∧
      keyText key = some e.1 ∧
      (e.2.role = .observer ↔ key ∈ groupHostNames (groups.get? (.str "observers"))) := by
  obtain ⟨loaded, groups, parsed, hload, hgroups, hparsed, hhosts, -⟩ := parse_eq_ok rt h
  obtain ⟨pairs, hpairs, hdict⟩ := bind_eq_ok.mp hhosts
  rw [← Except.ok.inj hdict] at he
  obtain ⟨b, hb, htext⟩ := mem_of_mapM_eq_ok hpairs e (Dict.mem_of_mem_ofList he)
  obtain ⟨raw, -, hread⟩ := mem_of_mapM_eq_ok hparsed b hb
  obtain ⟨hkey, vars, -, hnode⟩ := read_of_hostNode rt hread
  obtain ⟨hname, hconfig⟩ := textEntry_eq_ok htext
  refine ⟨loaded, groups, b.1, hload, hgroups, hname, ?_⟩
  rw [hconfig, role_of_node rt hnode, hkey]
  split
  · rename_i hmember
    exact iff_of_true rfl (of_decide_eq_true hmember)
  · rename_i hmember
    exact iff_of_false (by simp) fun hmem => hmember (decide_eq_true hmem)

end Parsed

/-! ## What can be read back -/

section ReadBack

variable (rt : Runtime)

/-- What `extra` has under the name of a field is what the parser accepts there. -/
structure NodeConfig.Rereadable (node : NodeConfig) : Prop where
  texts : ∀ name ∈ ["ansible_host", "network_interface", "gateway_addr", "ptp_interface",
    "admin_user", "grub_password"], HasText (node.extra.get? name)
  isolcpus : HasText (node.extra.get? "isolcpus")
  lists : ∀ name ∈ ["dns_servers", "ntp_servers"],
    ∀ v, node.extra.get? name = some v → Listable v
  subnet : SubnetReadable (node.extra.get? "subnet")
  ptpDomainNumber : PtpDomainReadable (node.extra.get? "ptp_domain_number")

/-- A value that is written where `extra` has none, and can be read, asks nothing. -/
theorem forall_or_iff {p : Value → Prop} {value own : Option Value}
    (hown : ∀ v, own = some v → p v) :
    (∀ v, value.or own = some v → p v) ↔ ∀ v, value = some v → p v := by
  cases value with
  | none => simpa using hown
  | some v => simp

theorem hasText_map_str (value : Option String) : HasText (value.map Value.str) := by
  intro v hv
  obtain ⟨text, -, rfl⟩ := Option.map_eq_some_iff.mp hv
  rfl

/-- The values of the model's own fields can be read. -/
theorem readable_modelledVars (node : NodeConfig) :
    (∀ name ∈ ["ansible_host", "network_interface", "gateway_addr", "ptp_interface",
      "admin_user", "grub_password"], HasText ((modelledVars node).lookup name)) ∧
    (∀ name ∈ ["dns_servers", "ntp_servers"],
      ∀ v, (modelledVars node).lookup name = some v → Listable v) ∧
    SubnetReadable ((modelledVars node).lookup "subnet") ∧
    PtpDomainReadable ((modelledVars node).lookup "ptp_domain_number") := by
  obtain ⟨hhost, hinterface, hsubnet, hgateway, hdns, hptp, hdomain, hntp, hadmin, hgrub, -⟩ :=
    lookup_modelledVars node
  have hlist : ∀ (values : List String) (v : Value),
      (if values ≠ [] then some (.seq .list (values.map .str)) else none) = some v →
        Listable v := by
    intro values v h
    split at h
    · obtain rfl := Option.some.inj h
      simp [Listable, Value.overlong, Scalar.overlong]
    · cases h
  simp only [List.forall_mem_cons, hhost, hinterface, hsubnet, hgateway, hdns, hptp, hdomain,
    hntp, hadmin, hgrub]
  refine ⟨?_, ⟨hlist _, hlist _, List.forall_mem_nil _⟩, ?_, ?_⟩
  · exact ⟨hasText_map_str (some _), hasText_map_str (some _), hasText_map_str _,
      hasText_map_str _, hasText_map_str _, hasText_map_str _, List.forall_mem_nil _⟩
  · intro v hv _
    obtain rfl := Option.some.inj hv
    exact ⟨node.subnet, rfl, node.subnet.2⟩
  · intro v hv
    obtain ⟨domain, -, rfl⟩ := Option.map_eq_some_iff.mp hv
    refine ⟨ok_ne_error _ _, fun n hn => ?_⟩
    obtain rfl := Except.ok.inj hn
    exact domain.2

/-- A machine is read back from its file exactly if its `extra` can be. -/
theorem returns_effective {node : NodeConfig} :
    Returns (effective rt node) ↔ node.Rereadable := by
  obtain ⟨vars, -, hloaded⟩ := hostVariables_ofDict (entries_hostVars_ne_nil node)
  have hget : ∀ name ∈ modelledNames, vars.get? (.str name) =
      (node.extra.get? name).or ((modelledVars node).lookup name) := by
    intro name hname
    have hfixed : ∀ name ∈ modelledNames, name ∉ fixedHostVarNames := by decide
    rw [hloaded.get?, get?_hostVars_modelled (hfixed name hname)]
  have hkeys : ∀ key ∈ vars.keys, isExtra key = true → (keyText key).isSome := by
    intro key hkey _
    rw [Dict.keys, hloaded, List.map_map] at hkey
    obtain ⟨e, -, rfl⟩ := List.mem_map.mp hkey
    rfl
  -- the renderer's own value can be read, so what `extra` has decides
  have hfield : ∀ {p : Value → Prop} {name : String}, name ∈ modelledNames →
      (∀ v, (modelledVars node).lookup name = some v → p v) →
        ((∀ v, vars.get? (.str name) = some v → p v) ↔
          ∀ v, node.extra.get? name = some v → p v) := by
    intro p name hname hown
    rw [hget name hname]
    exact forall_or_iff hown
  have hisolcpus : HasText ((vars.get? (.str "isolcpus")).or
      ((node.isolcpus.filter (· ≠ "")).map Value.str)) ↔ HasText (node.extra.get? "isolcpus") := by
    rw [hget _ (by decide), (lookup_modelledVars node).2.2.2.2.2.2.2.2.2.2, Option.or_none]
    exact forall_or_iff (hasText_map_str _)
  have htextNames : ∀ name ∈ ["ansible_host", "network_interface", "gateway_addr",
      "ptp_interface", "admin_user", "grub_password"], name ∈ modelledNames := by decide
  have hlistNames : ∀ name ∈ ["dns_servers", "ntp_servers"], name ∈ modelledNames := by decide
  obtain ⟨htexts, hlists, hsubnet, hdomain⟩ := readable_modelledVars node
  have htext : ∀ name ∈ ["ansible_host", "network_interface", "gateway_addr", "ptp_interface",
      "admin_user", "grub_password"],
      (HasText (vars.get? (.str name)) ↔ HasText (node.extra.get? name)) :=
    fun name hname => hfield (htextNames name hname) (htexts name hname)
  have hlist : ∀ name ∈ ["dns_servers", "ntp_servers"],
      ((∀ v, vars.get? (.str name) = some v → Listable v) ↔
        ∀ v, node.extra.get? name = some v → Listable v) :=
    fun name hname => hfield (hlistNames name hname) (hlists name hname)
  have hsubnet' := hfield (by decide) hsubnet
  have hdomain' := hfield (by decide) hdomain
  rw [← node_hostVars rt hloaded, returns_node]
  constructor
  · intro h
    exact ⟨fun name hname => (htext name hname).mp (h.texts name hname),
      hisolcpus.mp h.isolcpus, fun name hname => (hlist name hname).mp (h.lists name hname),
      hsubnet'.mp h.subnet, hdomain'.mp h.ptpDomainNumber⟩
  · intro h
    exact ⟨fun name hname => (htext name hname).mpr (h.texts name hname),
      hisolcpus.mpr h.isolcpus, fun name hname => (hlist name hname).mpr (h.lists name hname),
      hsubnet'.mpr h.subnet, hdomain'.mpr h.ptpDomainNumber, hkeys⟩

/-! ## Across a save -/

/-- The inventory is written, read back, and every machine has the role it had. -/
def RoleSurvives (inventory : Inventory) : Prop :=
  ∃ text inventory', render rt inventory = .ok text ∧ parse rt text = .ok inventory' ∧
    ∀ name node, inventory.hosts.get? name = some node →
      ∃ node', inventory'.hosts.get? name = some node' ∧ node'.role = node.role

/-- Where an inventory comes from: `validate` accepts it, or a document of one host is read
as it. -/
def Admitted (inventory : Inventory) : Prop :=
  Accepts rt inventory ∨
    ∃ document, parse rt document = .ok inventory ∧ inventory.hosts.entries.length = 1

theorem exists_single_of_admitted {inventory : Inventory} (hmode : inventory.mode = .standalone)
    (h : Admitted rt inventory) : ∃ name node, inventory.hosts.entries = [(name, node)] := by
  rcases h with ⟨-, hvalid⟩ | ⟨-, -, hone⟩
  · exact single_of_valid rt hmode hvalid
  · obtain ⟨e, he⟩ := List.length_eq_one_iff.mp hone
    exact ⟨e.1, e.2, he⟩

theorem roleSurvives_of_single {inventory : Inventory} {name : String} {node : NodeConfig}
    (hmode : inventory.mode = .standalone) (hhosts : inventory.hosts.entries = [(name, node)])
    (hyaml : ReadsBack rt (standaloneDocument inventory)) :
    RoleSurvives rt inventory ↔ node.role = .hypervisor ∧ node.Rereadable := by
  have hget : inventory.hosts.get? name = some node := by simp [Dict.get?, hhosts]
  have honly : ∀ k other, inventory.hosts.get? k = some other → k = name ∧ other = node := by
    intro k other h
    have hmem := Dict.mem_entries_iff.mpr h
    rw [hhosts, List.mem_singleton] at hmem
    exact Prod.mk.inj hmem
  have hback : ∀ node' : NodeConfig, (Dict.ofList [(name, node')]).get? name = some node' :=
    fun node' => Dict.get?_set_self ∅ name node'
  have hrender := render_standalone rt hmode
  have hparse := parse_documentText rt hhosts hyaml
  rw [← returns_effective rt]
  constructor
  · rintro ⟨text, inventory', htext, hread, hroles⟩
    obtain rfl := Except.ok.inj (hrender.symm.trans htext)
    rw [hparse] at hread
    cases heffective : effective rt node with
    | error e =>
        rw [heffective] at hread
        cases hread
    | ok node' =>
        rw [heffective] at hread
        obtain rfl := Except.ok.inj hread
        obtain ⟨other, hother, hrole⟩ := hroles name node hget
        obtain rfl := Option.some.inj ((hback node').symm.trans hother)
        exact ⟨hrole.symm.trans (role_of_effective rt heffective), returns_ok _⟩
  · rintro ⟨hrole, node', heffective⟩
    rw [heffective] at hparse
    refine ⟨_, _, hrender, hparse, fun k other h => ?_⟩
    obtain ⟨rfl, rfl⟩ := honly k other h
    exact ⟨node', hback node', (role_of_effective rt heffective).trans hrole.symm⟩

/-- A membership survives a save exactly if it is that of a hypervisor, and the machine can
be read back. -/
theorem role_survives_iff {inventory : Inventory} (hmode : inventory.mode = .standalone)
    (hadmitted : Admitted rt inventory) (hyaml : ReadsBack rt (standaloneDocument inventory)) :
    RoleSurvives rt inventory ↔
      ∀ e ∈ inventory.hosts.entries, e.2.role = .hypervisor ∧ e.2.Rereadable := by
  obtain ⟨name, node, hhosts⟩ := exists_single_of_admitted rt hmode hadmitted
  rw [roleSurvives_of_single rt hmode hhosts hyaml, hhosts, List.forall_mem_singleton]

end ReadBack

/-- The machine of the reference inventory, as an observer. -/
def observer : NodeConfig := { reference with role := .observer }

theorem role_survives_iff_reference :
    RoleSurvives referenceRuntime (singleHost "seapath-machine" reference) ↔
      ∀ e ∈ (singleHost "seapath-machine" reference).hosts.entries,
        e.2.role = .hypervisor ∧ e.2.Rereadable :=
  role_survives_iff referenceRuntime rfl (.inl (by decide +kernel)) (readsBack_knowing _ _)

/-- An observer that validation accepts is read back as a hypervisor. -/
theorem observer_becomes_hypervisor :
    ¬ ∀ (rt : Runtime) (inventory : Inventory), inventory.mode = .standalone →
      Admitted rt inventory → ReadsBack rt (standaloneDocument inventory) →
        RoleSurvives rt inventory := by
  intro h
  have hyaml : ReadsBack referenceRuntime
      (standaloneDocument (singleHost "seapath-machine" observer)) := readsBack_knowing _ _
  have haccepts : Accepts referenceRuntime (singleHost "seapath-machine" observer) := by
    decide +kernel
  have hsurvives := h referenceRuntime _ rfl (.inl haccepts) hyaml
  have hrole := ((roleSurvives_of_single referenceRuntime rfl rfl hyaml).mp hsurvives).1
  cases hrole

end SeapathWebui.Inventory
