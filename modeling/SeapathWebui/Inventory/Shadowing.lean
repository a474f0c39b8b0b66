/-
  Inventory/Shadowing.lean --- whether a rendered host says what was validated.

  Source: app/inventory/renderer.py (`_host_vars`, `_group_with_isolcpus`).

  The rules look at the fields of a node and never at `extra`, and `extra` is merged
  over the fields.  `ownValue` is what a field means for the host, apart from any
  rendering; `rendered_as_validated_iff` says for which nodes the document gives the
  host that and nothing else.  The set of isolated CPUs is a variable of a group, so
  whether a host gets its own depends on the other hosts too, as long as there are any.
-/
import SeapathWebui.Inventory.Adoption
import SeapathWebui.Inventory.Validation

set_option autoImplicit false

namespace SeapathWebui.Inventory

open SeapathWebui.Foundation

/-! ## What a field means -/

/-- A text, unless it is missing or empty. -/
def ownText (value : Option String) : Option Value := (value.filter (· ≠ "")).map .str

/-- A list of texts, unless it is empty. -/
def ownList (values : List String) : Option Value :=
  if values ≠ [] then some (.seq .list (values.map .str)) else none

/-- The value a node's own field gives a modelled variable: none if the field is empty. -/
def NodeConfig.ownValue (node : NodeConfig) : String → Option Value
  | "ansible_host" => ownText (some node.ansibleHost)
  | "network_interface" => ownText (some node.networkInterface)
  | "subnet" => some (.scalar (.int node.subnet))
  | "gateway_addr" => ownText node.gatewayAddr
  | "dns_servers" => ownList node.dnsServers
  | "ptp_interface" => ownText node.ptpInterface
  | "ptp_domain_number" => node.ptpDomainNumber.map fun n => .scalar (.int n)
  | "ntp_servers" => ownList node.ntpServers
  | "admin_user" => ownText node.adminUser
  | "grub_password" => ownText node.grubPassword
  | "isolcpus" => ownText node.isolcpus
  | _ => none

/-- What the renderer assigns for a field is what the field means, but that the address
and the interface are assigned when they are empty too. -/
theorem lookup_modelledVars_eq {node : NodeConfig} {name : String} (hname : name ∈ modelledNames)
    (hcpus : name ≠ "isolcpus") : (modelledVars node).lookup name =
      if name = "ansible_host" then some (.str node.ansibleHost)
      else if name = "network_interface" then some (.str node.networkInterface)
      else node.ownValue name := by
  obtain ⟨hhost, hinterface, hsubnet, hgateway, hdns, hptp, hdomain, hntp, hadmin, hgrub, -⟩ :=
    lookup_modelledVars node
  simp only [modelledNames, List.mem_cons, List.not_mem_nil, or_false] at hname
  rcases hname with rfl | rfl | rfl | rfl | rfl | rfl | rfl | rfl | rfl | rfl | rfl
  · exact hhost
  · exact hinterface
  · exact hsubnet
  · exact hgateway
  · exact hdns
  · exact hptp
  · simpa [NodeConfig.ownValue] using hdomain
  · exact hntp
  · exact hadmin
  · exact hgrub
  · exact absurd rfl hcpus

/-! ## The variable of the group -/

/-- This is the one set of isolated CPUs that the hosts name. -/
structure OnlySet (inventory : Inventory) (cpus : String) : Prop where
  ne_empty : cpus ≠ ""
  named : ∃ e ∈ inventory.hosts.entries, e.2.isolcpus = some cpus
  only : ∀ e ∈ inventory.hosts.entries, ∀ other, e.2.isolcpus = some other → other ≠ "" →
    other = cpus

/-- The node is one of the hypervisors, as every node is where there is none. -/
def InHypervisors (inventory : Inventory) (node : NodeConfig) : Prop :=
  node.role = .hypervisor ∨ ∀ e ∈ inventory.hosts.entries, e.2.role ≠ .hypervisor

theorem isolatedSets_eq_singleton_iff {inventory : Inventory} {cpus : String} :
    isolatedSets inventory = [cpus] ↔ OnlySet inventory cpus := by
  have hmem : ∀ s, s ∈ isolatedSets inventory ↔
      s ≠ "" ∧ ∃ e ∈ inventory.hosts.entries, e.2.isolcpus = some s := by
    intro s
    simp [isolatedSets, and_comm]
  constructor
  · intro h
    have hcpus := (hmem cpus).mp (h ▸ List.mem_singleton_self _)
    refine ⟨hcpus.1, hcpus.2, fun e he other hother hne => ?_⟩
    exact List.mem_singleton.mp (h ▸ (hmem other).mpr ⟨hne, e, he, hother⟩)
  · rintro ⟨hne, hnamed, honly⟩
    have hin := (hmem cpus).mpr ⟨hne, hnamed⟩
    have hall : ∀ s ∈ isolatedSets inventory, s = cpus := fun s hs => by
      obtain ⟨hs, e, he, hcpus⟩ := (hmem s).mp hs
      exact honly e he s hcpus hs
    have hnodup : (isolatedSets inventory).Nodup := List.nodup_dedup _
    -- a list without repetitions whose elements are all the same
    cases hsets : isolatedSets inventory with
    | nil => exact absurd hin (by simp [hsets])
    | cons first rest =>
        rw [hsets] at hall hnodup
        have hrest : rest = [] := List.eq_nil_iff_forall_not_mem.mpr fun s hs => by
          have hfirst := hall first List.mem_cons_self
          have hsame := hall s (List.mem_cons_of_mem _ hs)
          exact (List.nodup_cons.mp hnodup).1 (hfirst.trans hsame.symm ▸ hs)
        rw [hrest, hall first List.mem_cons_self]

/-- The members of the group. -/
theorem mem_group_iff {inventory : Inventory} {host : String} {node : NodeConfig}
    (h : inventory.hosts.get? host = some node) :
    host ∈ (if inventory.hypervisors = [] then inventory.hostNames else inventory.hypervisors) ↔
      InHypervisors inventory node := by
  have hentry := Dict.mem_entries_iff.mpr h
  have hempty : inventory.hypervisors = [] ↔
      ∀ e ∈ inventory.hosts.entries, e.2.role ≠ .hypervisor := by
    simp [Inventory.hypervisors]
  have hrole : host ∈ inventory.hypervisors ↔ node.role = .hypervisor := by
    simp only [Inventory.hypervisors, List.mem_map, List.mem_filter, decide_eq_true_eq]
    constructor
    · rintro ⟨e, ⟨he, hrole⟩, rfl⟩
      have hsame := (Dict.mem_entries_iff (k := e.1)).mp he
      rw [h] at hsame
      exact Option.some.inj hsame ▸ hrole
    · exact fun hrole => ⟨(host, node), ⟨hentry, hrole⟩, rfl⟩
  have hhost : host ∈ inventory.hostNames := List.mem_map_of_mem (f := Prod.fst) hentry
  unfold InHypervisors
  rw [← hempty, ← hrole]
  split <;> simp_all

/-- The hosts of the group. -/
theorem get?_groupHosts {inventory : Inventory} {host : String} {node : NodeConfig}
    (h : inventory.hosts.get? host = some node) :
    (groupHosts (some (groupWithIsolcpus inventory))).get? (.str host) ≠ none ↔
      InHypervisors inventory node := by
  rw [← mem_group_iff h, Ne, Dict.get?_eq_none_iff, not_not]
  have hhosts : ∀ names : List String,
      Scalar.str host ∈ (Dict.ofList (names.map fun name => (Scalar.str name, Value.null))).keys ↔
        host ∈ names := by
    intro names
    simp [Dict.mem_keys_ofList]
  rw [← hhosts]
  unfold groupWithIsolcpus
  rcases isolatedSets inventory with _ | ⟨isolated, _ | _⟩ <;> rfl

/-- The variable of the group. -/
theorem get?_groupVars {inventory : Inventory} {v : Value} :
    (groupVars (some (groupWithIsolcpus inventory))).get? (.str "isolcpus") = some v ↔
      ∃ cpus, OnlySet inventory cpus ∧ v = .str cpus := by
  simp only [← isolatedSets_eq_singleton_iff]
  unfold groupWithIsolcpus
  rcases isolatedSets inventory with _ | ⟨isolated, _ | ⟨other, rest⟩⟩
  · exact ⟨fun h => (nomatch h), fun ⟨_, h, _⟩ => (nomatch h)⟩
  · constructor
    · intro h
      exact ⟨isolated, rfl, (Option.some.inj h).symm⟩
    · rintro ⟨cpus, hcpus, rfl⟩
      rw [List.cons_eq_cons.mp hcpus |>.1]
      rfl
  · exact ⟨fun h => (nomatch h), fun ⟨_, h, _⟩ => (nomatch h)⟩

/-- The group gives its hosts the one set there is, and no other group does. -/
theorem groupVariable_isolcpus_iff {inventory : Inventory} {host : String} {node : NodeConfig}
    (h : inventory.hosts.get? host = some node) (v : Value) :
    GroupVariable plainNames (standaloneDocument inventory) host "isolcpus" v ↔
      InHypervisors inventory node ∧ ∃ cpus, OnlySet inventory cpus ∧ v = .str cpus := by
  rw [← get?_groupHosts h, ← get?_groupVars]
  constructor
  · rintro ⟨key, group, hall, hbelongs, hmention, hvar⟩
    rcases topGroup_of_mentions hmention with ⟨hkey, -⟩ | ⟨-, rfl⟩ | ⟨rfl, rfl⟩ | rfl
    · exact absurd hkey hall
    · cases hvar
    · refine ⟨?_, hvar⟩
      cases hbelongs with
      | own hmention hraw hpattern =>
          rw [hpattern] at hraw
          rcases topGroup_of_mentions hmention with ⟨hkey, -⟩ | ⟨hkey, -⟩ | ⟨-, rfl⟩ | rfl
          · exact absurd hkey (by decide)
          · exact absurd hkey (by decide)
          · rw [hraw]
            exact Option.some_ne_none _
          · cases hraw
      | child hmention hget _ =>
          rw [childless_standaloneDocument hmention] at hget
          cases hget
    · cases hvar
  · rintro ⟨hhost, hvar⟩
    obtain ⟨raw, hraw⟩ := Option.ne_none_iff_exists'.mp hhost
    have hmention : Mentions (standaloneDocument inventory) (.str "hypervisors")
        (groupWithIsolcpus inventory) := .top rfl rfl
    exact ⟨.str "hypervisors", groupWithIsolcpus inventory, by decide, .own hmention hraw rfl,
      hmention, hvar⟩

/-- What the document gives the host for isolcpus: its own variable, else the group's. -/
theorem resolve_isolcpus (p : Precedence plainNames) {inventory : Inventory} {host : String}
    {node : NodeConfig} (h : inventory.hosts.get? host = some node) (v : Value) :
    resolve p (standaloneDocument inventory) host "isolcpus" = some v ↔
      node.extra.get? "isolcpus" = some v ∨ node.extra.get? "isolcpus" = none ∧
        InHypervisors inventory node ∧ ∃ cpus, OnlySet inventory cpus ∧ v = .str cpus := by
  have hwinner : p.winner (standaloneDocument inventory) host "isolcpus" = some v ↔
      GroupVariable plainNames (standaloneDocument inventory) host "isolcpus" v := by
    constructor
    · exact p.sound
    · intro hvar
      obtain ⟨w, hw⟩ := Option.ne_none_iff_exists'.mp (p.complete hvar)
      obtain ⟨-, cpus, hcpus, rfl⟩ := (groupVariable_isolcpus_iff h v).mp hvar
      obtain ⟨-, other, hother, rfl⟩ := (groupVariable_isolcpus_iff h w).mp (p.sound hw)
      obtain ⟨e, he, hnamed⟩ := hcpus.named
      rw [hw, hother.only e he cpus hnamed hcpus.ne_empty]
  have hvariable : p.own (standaloneDocument inventory) host "isolcpus" =
      node.extra.get? "isolcpus" := by
    rw [own_standaloneDocument, h, Option.bind_some,
      get?_hostVars_modelled (by decide), (lookup_modelledVars node).2.2.2.2.2.2.2.2.2.2,
      Option.or_none]
  have hall : allVariable (standaloneDocument inventory) "isolcpus" = none := rfl
  rw [← groupVariable_isolcpus_iff h, ← hwinner, resolve, hvariable, hall, Option.or_none]
  cases node.extra.get? "isolcpus" <;> simp

/-! ## Rendered as validated -/

/-- The document gives the host, for each modelled variable, the node's own value. -/
def RenderedAsValidated (p : Precedence plainNames) (inventory : Inventory) (host : String)
    (node : NodeConfig) : Prop :=
  ∀ name ∈ modelledNames,
    resolve p (standaloneDocument inventory) host name = node.ownValue name

/-- No entry of `extra` says anything else of a modelled variable than the field does. -/
def NodeConfig.Unshadowed (node : NodeConfig) : Prop :=
  ∀ name ∈ modelledNames, ∀ v, node.extra.get? name = some v → node.ownValue name = some v

/-- The group gives the node its own set of isolated CPUs, and none if it has none. -/
def GroupAgrees (inventory : Inventory) (node : NodeConfig) : Prop :=
  ∀ cpus, node.ownValue "isolcpus" = some (.str cpus) ↔
    InHypervisors inventory node ∧ OnlySet inventory cpus

/-- What the document gives the host for any other modelled variable. -/
theorem resolve_field (p : Precedence plainNames) {inventory : Inventory} {host name : String}
    {node : NodeConfig} (h : inventory.hosts.get? host = some node) (hname : name ∈ modelledNames)
    (hcpus : name ≠ "isolcpus") :
    resolve p (standaloneDocument inventory) host name = (node.extra.get? name).or
      (if name = "ansible_host" then some (.str node.ansibleHost)
        else if name = "network_interface" then some (.str node.networkInterface)
        else node.ownValue name) := by
  have hfixed : ∀ name ∈ modelledNames, name ∉ fixedHostVarNames := by decide
  rw [resolve_standaloneDocument p hcpus, own_standaloneDocument, h, Option.bind_some,
    get?_hostVars_modelled (hfixed name hname), lookup_modelledVars_eq hname hcpus]

/-- A field other than isolcpus is given as validated exactly if `extra` does not shadow
it and, where it is written unconditionally, it is not empty. -/
theorem resolve_field_eq_iff (p : Precedence plainNames) {inventory : Inventory}
    {host name : String} {node : NodeConfig} (h : inventory.hosts.get? host = some node)
    (hname : name ∈ modelledNames) (hcpus : name ≠ "isolcpus") :
    resolve p (standaloneDocument inventory) host name = node.ownValue name ↔
      (∀ v, node.extra.get? name = some v → node.ownValue name = some v) ∧
        (name = "ansible_host" → node.ansibleHost ≠ "") ∧
        (name = "network_interface" → node.networkInterface ≠ "") := by
  rw [resolve_field p h hname hcpus]
  cases node.extra.get? name with
  | some own =>
      simp only [Option.some_or, Option.some.injEq, forall_eq']
      refine ⟨fun heq => ⟨heq.symm, ?_, ?_⟩, fun heq => heq.1.symm⟩
      -- a value that is there is not that of an empty field
      · rintro rfl hempty
        simp [NodeConfig.ownValue, ownText, Option.filter, hempty] at heq
      · rintro rfl hempty
        simp [NodeConfig.ownValue, ownText, Option.filter, hempty] at heq
  | none =>
      simp only [Option.none_or, reduceCtorEq, false_implies, implies_true, true_and]
      by_cases hhost : name = "ansible_host"
      · subst hhost
        by_cases hempty : node.ansibleHost = "" <;>
          simp [NodeConfig.ownValue, ownText, Option.filter, hempty]
      · by_cases hinterface : name = "network_interface"
        · subst hinterface
          by_cases hempty : node.networkInterface = "" <;>
            simp [NodeConfig.ownValue, ownText, Option.filter, hempty]
        · simp [hhost, hinterface]

/-- So is isolcpus exactly if `extra` does not shadow it, or the group agrees. -/
theorem resolve_isolcpus_eq_iff (p : Precedence plainNames) {inventory : Inventory} {host : String}
    {node : NodeConfig} (h : inventory.hosts.get? host = some node) :
    resolve p (standaloneDocument inventory) host "isolcpus" = node.ownValue "isolcpus" ↔
      (∀ v, node.extra.get? "isolcpus" = some v → node.ownValue "isolcpus" = some v) ∧
        (node.extra.get? "isolcpus" = none → GroupAgrees inventory node) := by
  cases hextra : node.extra.get? "isolcpus" with
  | some own =>
      have hresolve := (resolve_isolcpus p h own).mpr (.inl hextra)
      simp [hresolve, eq_comm]
  | none =>
      have hresolve : ∀ v, resolve p (standaloneDocument inventory) host "isolcpus" = some v ↔
          InHypervisors inventory node ∧ ∃ cpus, OnlySet inventory cpus ∧ v = .str cpus := by
        intro v
        simp [resolve_isolcpus p h, hextra]
      constructor
      · refine fun hsame => ⟨fun v hv => (nomatch hv), fun _ cpus => ?_⟩
        rw [← hsame, hresolve]
        constructor
        · rintro ⟨hin, other, hother, heq⟩
          exact ⟨hin, Scalar.str.inj (Value.scalar.inj heq) ▸ hother⟩
        · exact fun hgroup => ⟨hgroup.1, cpus, hgroup.2, rfl⟩
      · rintro ⟨-, hgroup⟩
        refine Option.ext fun v => ?_
        rw [hresolve]
        constructor
        · rintro ⟨hin, cpus, honly, rfl⟩
          exact (hgroup rfl cpus).mpr ⟨hin, honly⟩
        · intro hv
          obtain ⟨cpus, -, rfl⟩ := Option.map_eq_some_iff.mp hv
          obtain ⟨hin, honly⟩ := (hgroup rfl cpus).mp hv
          exact ⟨hin, cpus, honly, rfl⟩

/-- A group of one host gives it its own set. -/
theorem groupAgrees_of_single {inventory : Inventory} {host : String} {node : NodeConfig}
    (h : inventory.hosts.entries = [(host, node)]) : GroupAgrees inventory node := by
  have hin : InHypervisors inventory node := by
    by_cases hrole : node.role = .hypervisor
    · exact .inl hrole
    · exact .inr (by simpa [h] using hrole)
  intro cpus
  rw [and_iff_right hin]
  constructor
  · intro hown
    obtain ⟨cpus, hfilter, hcpus⟩ := Option.map_eq_some_iff.mp hown
    obtain ⟨hsome, hne⟩ := Option.filter_eq_some_iff.mp hfilter
    obtain rfl := Scalar.str.inj (Value.scalar.inj hcpus)
    refine ⟨by simpa using hne, ⟨(host, node), by simp [h], hsome⟩, fun e he other hother _ => ?_⟩
    rw [h, List.mem_singleton] at he
    rw [he, hsome] at hother
    exact (Option.some.inj hother).symm
  · rintro ⟨hne, ⟨e, he, hsome⟩, -⟩
    rw [h, List.mem_singleton] at he
    have hcpus : node.isolcpus = some cpus := by rwa [he] at hsome
    simp [NodeConfig.ownValue, ownText, Option.filter, hcpus, hne]

theorem renderedAsValidated_iff_unshadowed (p : Precedence plainNames) {inventory : Inventory}
    {host : String} {node : NodeConfig} (h : inventory.hosts.get? host = some node)
    (hhost : node.ansibleHost ≠ "") (hinterface : node.networkInterface ≠ "")
    (hgroup : node.extra.get? "isolcpus" = none → GroupAgrees inventory node) :
    RenderedAsValidated p inventory host node ↔ node.Unshadowed := by
  refine forall₂_congr fun name hname => ?_
  by_cases hcpus : name = "isolcpus"
  · rw [hcpus, resolve_isolcpus_eq_iff p h]
    exact and_iff_left hgroup
  · rw [resolve_field_eq_iff p h hname hcpus]
    exact and_iff_left ⟨fun _ => hhost, fun _ => hinterface⟩

/-- For a machine the rules accept, it is `extra` alone that decides. -/
theorem renderedAsValidated_iff_of_valid {rt : Runtime} (p : Precedence plainNames)
    {inventory : Inventory} {host : String} {node : NodeConfig}
    (hsingle : inventory.hosts.entries = [(host, node)])
    (hvalid : (validate rt inventory).valid = true) :
    RenderedAsValidated p inventory host node ↔ node.Unshadowed := by
  have hnode : inventory.hosts.get? host = some node :=
    Dict.mem_entries_iff.mp (by simp [hsingle])
  have hacceptable := (valid_iff_of_single rt hsingle).mp hvalid
  have hhost : node.ansibleHost ≠ "" := by
    intro hempty
    obtain ⟨ip, hip, -⟩ := hacceptable.address
    rw [hempty] at hip
    cases hip
  exact renderedAsValidated_iff_unshadowed p hnode hhost hacceptable.interface fun _ =>
    groupAgrees_of_single hsingle

/-- **The rendered document gives the host the values that were validated, and nothing
else, exactly if `extra` agrees with the fields wherever it names one, the two fields that
are written unconditionally are not empty, and the group agrees on the isolated CPUs, where
`extra` does not say them.** -/
theorem rendered_as_validated_iff (p : Precedence plainNames) {inventory : Inventory}
    {host : String} {node : NodeConfig} (h : inventory.hosts.get? host = some node) :
    RenderedAsValidated p inventory host node ↔
      node.Unshadowed ∧ node.ansibleHost ≠ "" ∧ node.networkInterface ≠ "" ∧
        (node.extra.get? "isolcpus" = none → GroupAgrees inventory node) := by
  constructor
  · intro hrendered
    have hhost := (resolve_field_eq_iff p h (by decide) (by decide)).mp
      (hrendered "ansible_host" (by decide))
    have hinterface := (resolve_field_eq_iff p h (by decide) (by decide)).mp
      (hrendered "network_interface" (by decide))
    have hcpus := (resolve_isolcpus_eq_iff p h).mp (hrendered "isolcpus" (by decide))
    have hiff := renderedAsValidated_iff_unshadowed p h (hhost.2.1 rfl) (hinterface.2.2 rfl) hcpus.2
    exact ⟨hiff.mp hrendered, hhost.2.1 rfl, hinterface.2.2 rfl, hcpus.2⟩
  · rintro ⟨hunshadowed, hhost, hinterface, hgroup⟩
    exact (renderedAsValidated_iff_unshadowed p h hhost hinterface hgroup).mpr hunshadowed

theorem rendered_as_validated_reference :
    RenderedAsValidated Precedence.any (singleHost "node1" reference) "node1" reference ↔
      reference.Unshadowed ∧ reference.ansibleHost ≠ "" ∧ reference.networkInterface ≠ "" ∧
        (reference.extra.get? "isolcpus" = none →
          GroupAgrees (singleHost "node1" reference) reference) :=
  rendered_as_validated_iff Precedence.any (by decide)

/-- The reference machine, with a clear password among its extra variables. -/
def clearPassword : NodeConfig :=
  { reference with extra := Dict.ofList [("grub_password", .str "secret")] }

/-- No rule objects, and the password is what the host is given. -/
theorem extra_shadows_grub_password :
    (validate (knowing []) (singleHost "node1" clearPassword)).valid = true ∧
      ¬ RenderedAsValidated Precedence.any (singleHost "node1" clearPassword) "node1"
        clearPassword := by
  have hvalid : (validate (knowing []) (singleHost "node1" clearPassword)).valid = true := by
    decide +kernel
  refine ⟨hvalid, fun hrendered => ?_⟩
  have hunshadowed := (renderedAsValidated_iff_of_valid Precedence.any rfl hvalid).mp hrendered
  exact absurd (hunshadowed "grub_password" (by decide) _ rfl) (by decide)

end SeapathWebui.Inventory
