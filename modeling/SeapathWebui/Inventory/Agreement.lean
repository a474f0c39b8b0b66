/-
  Inventory/Agreement.lean --- when a change through the one request is the change through
  the other.

  Source: `replace` and `patch_host` of app/api/v1/inventory.py.

  The request model checks the type and the range of every field, and `model_copy` does not.
  What it takes, it mostly takes as it is (`readText_exact` and its like): the exceptions are
  the two numbers, which may come as something else.  So the attributes `patch_host` ends up
  with are those of the node that `replace` has read, up to these two, wherever there is such
  a node at all.  `patch_agrees_iff` says what that leaves: the values that no rule looks at.
-/
import SeapathWebui.Inventory.Patch

set_option autoImplicit false

namespace SeapathWebui.Inventory

open SeapathWebui.Foundation SeapathWebui.Hosts

/-! ## What is read as it is -/

theorem readText_exact {v : Value} {s : String} (h : readText v = some s) : Value.str s = v := by
  unfold readText at h
  split at h
  · rw [Option.some.inj h]
  · cases h

theorem readOptionalText_exact {v : Value} {s : Option String}
    (h : readOptionalText v = some s) : ofText s = v := by
  unfold readOptionalText at h
  split at h
  · rw [← Option.some.inj h]
    rfl
  · obtain ⟨text, htext, rfl⟩ := Option.map_eq_some_iff.mp h
    exact readText_exact htext

/-- A list is read as it is if each of its items is. -/
theorem map_of_mapM_eq_some {α β : Type} {read : α → Option β} {write : β → α}
    (hexact : ∀ {a b}, read a = some b → write b = a) {items : List α} {results : List β}
    (h : items.mapM read = some results) : results.map write = items := by
  rw [Text.mapM_eq_some] at h
  induction h with
  | nil => rfl
  | cons hb _ ih => rw [List.map_cons, hexact hb, ih]

theorem readTexts_exact {v : Value} {texts : List String} (h : readTexts v = some texts) :
    ofTexts texts = v := by
  unfold readTexts at h
  split at h
  · rw [ofTexts, map_of_mapM_eq_some readText_exact h]
  · cases h

/-- A variable of a written dictionary. -/
def loaded (e : String × Value) : Scalar × Value := (.str e.1, e.2)

theorem readEntry_exact {e : Scalar × Value} {pair : String × Value}
    (h : (readText (.scalar e.1)).map (fun name => (name, e.2)) = some pair) : loaded pair = e := by
  obtain ⟨name, hname, rfl⟩ := Option.map_eq_some_iff.mp h
  exact Prod.ext (Value.scalar.inj (readText_exact hname)) rfl

theorem readExtra_exact {v : Value} {extra : Dict String Value} (h : readExtra v = some extra) :
    Value.ofDict extra = v := by
  unfold readExtra at h
  split at h
  · obtain ⟨pairs, hpairs, h⟩ := Option.bind_eq_some_iff.mp h
    split at h
    · rw [← Option.some.inj h]
      exact congrArg Value.map (map_of_mapM_eq_some readEntry_exact hpairs)
    · cases h
  · cases h

section Numbers

variable {m : RequestModel}

theorem readSubnet_exact {n : Int} {subnet : Subnet}
    (h : m.readSubnet (.scalar (.int n)) = some subnet) :
    Value.scalar (.int subnet) = .scalar (.int n) := by
  obtain ⟨found, hfound, hread⟩ := Option.bind_eq_some_iff.mp h
  rw [m.int_int, Option.some.injEq] at hfound
  subst hfound
  split at hread
  · rw [← Option.some.inj hread]
  · cases hread

/-- What is read of anything but null is a number. -/
theorem readPtpDomain_eq_none_iff {v : Value} {domain : Option PtpDomain}
    (h : m.readPtpDomain v = some domain) : v = .null ↔ domain = none := by
  unfold RequestModel.readPtpDomain at h
  split at h
  · rw [← Option.some.inj h]
    exact iff_of_true rfl rfl
  · rename_i hnull
    obtain ⟨n, -, hread⟩ := Option.bind_eq_some_iff.mp h
    refine iff_of_false hnull ?_
    split at hread
    · rw [← Option.some.inj hread]
      exact Option.some_ne_none _
    · cases hread

theorem readPtpDomain_exact {v : Value} {domain : Option PtpDomain}
    (hint : v = .null ∨ ∃ n, v = .scalar (.int n)) (h : m.readPtpDomain v = some domain) :
    ofDomain domain = v := by
  rcases hint with rfl | ⟨n, rfl⟩
  · rw [(readPtpDomain_eq_none_iff h).mp rfl, ofDomain]
  · obtain ⟨found, hfound, hread⟩ := Option.bind_eq_some_iff.mp h
    rw [m.int_int, Option.some.injEq] at hfound
    subst hfound
    split at hread
    · rw [← Option.some.inj hread, ofDomain]
    · cases hread

end Numbers

/-- A field of the request is what is stored, or what is read of the value that came. -/
theorem readField_cases {α : Type} {read : Value → Option α} {changes : Dict String Value}
    {field : String} {stored a : α}
    (h : RequestModel.readField changes field read stored = some a) :
    (changes.get? field = none ∧ stored = a) ∨
      ∃ v, changes.get? field = some v ∧ read v = some a := by
  unfold RequestModel.readField at h
  cases hget : changes.get? field with
  | none =>
      rw [hget] at h
      exact .inl ⟨rfl, Option.some.inj h⟩
  | some v =>
      rw [hget] at h
      exact .inr ⟨v, rfl, h⟩

/-- A changed field that is read as it is. -/
theorem attribute_of_readField {α : Type} {read : Value → Option α} {write : α → Value}
    {changes : Dict String Value} {field : String} {stored a : α}
    (hexact : ∀ {v a}, changes.get? field = some v → read v = some a → write a = v)
    (h : RequestModel.readField changes field read stored = some a) :
    (changes.get? field).getD (write stored) = write a := by
  rcases readField_cases h with ⟨hget, rfl⟩ | ⟨v, hget, hread⟩
  · rw [hget, Option.getD_none]
  · rw [hget, Option.getD_some, hexact hget hread]

/-! ## What passes the rules, and can be rendered -/

section Rules

variable (rt : Runtime)

/-- The attributes of a machine that is alone in its inventory get through `validate` and
`render`. -/
structure Passes (name : String) (a : Attributes) : Prop where
  hostname : isHostname name = true
  address : ∃ ip, Attributes.address rt a.ansibleHost = some ip ∧ ip.isLoopback = false ∧
    (a.gatewayAddr.truthy = true →
      ∃ gateway, Attributes.address rt a.gatewayAddr = some gateway ∧
        ∃ length, ip.prefixLength (a.subnet.text rt.repr) = some length ∧
          IpAddress.inNetwork length ip gateway = true)
  /-- the address is looked up in a dictionary -/
  scalar : ∃ s, a.ansibleHost = .scalar s
  interface : a.networkInterface.truthy = true
  dnsServers : ∃ servers, items a.dnsServers = some servers ∧
    ∀ server ∈ servers, Attributes.address rt server ≠ none
  ntpServers : a.ntpServers.truthy = true → items a.ntpServers ≠ none
  grubPassword : a.grubPassword.truthy = true →
    ∃ password, a.grubPassword = .str password ∧ grubHashPrefix.toList <+: password.toList
  isolcpus : a.isolcpus.truthy = true →
    ∃ cpus, a.isolcpus = .str cpus ∧ ¬ rt.listLimit < cpuCount cpus ∧
      parseCpuList cpus ≠ [] ∧ 0 ∉ parseCpuList cpus
  extra : ∃ d, a.extra.toDict = .ok d

namespace Attributes

variable {name : String} {a : Attributes}

theorem addressErrors_eq_nil_iff : addressErrors rt name a = [] ↔
    ∃ ip, address rt a.ansibleHost = some ip ∧ ip.isLoopback = false := by
  unfold addressErrors
  cases address rt a.ansibleHost with
  | none => simp
  | some ip => cases hloopback : ip.isLoopback <;> simp [hloopback]

theorem interfaceErrors_eq_nil_iff : interfaceErrors name a = [] ↔
    a.networkInterface.truthy = true := by
  unfold interfaceErrors
  split <;> simp_all

theorem gatewayErrors_eq_nil_iff {ip : IpAddress} (h : address rt a.ansibleHost = some ip) :
    gatewayErrors rt name a = some [] ↔
      (a.gatewayAddr.truthy = true →
        ∃ gateway, address rt a.gatewayAddr = some gateway ∧
          ∃ length, ip.prefixLength (a.subnet.text rt.repr) = some length ∧
            IpAddress.inNetwork length ip gateway = true) := by
  unfold gatewayErrors
  by_cases htruthy : a.gatewayAddr.truthy = true
  · simp only [htruthy, if_true, h, true_implies]
    cases address rt a.gatewayAddr with
    | none => simp
    | some gateway =>
        simp only [Option.bind_eq_bind, Option.bind_eq_some_iff, Option.some.injEq,
          exists_eq_left']
        refine exists_congr fun length => and_congr_right fun _ => ?_
        cases IpAddress.inNetwork length ip gateway <;> simp
  · simp [htruthy]

theorem dnsErrors_eq_nil_iff : dnsErrors rt name a = some [] ↔
    ∃ servers, items a.dnsServers = some servers ∧
      ∀ server ∈ servers, address rt server ≠ none := by
  unfold dnsErrors
  rw [Option.map_eq_some_iff]
  refine exists_congr fun servers => and_congr_right fun _ => ?_
  rw [List.flatMap_eq_nil_iff]
  refine forall₂_congr fun server _ => ?_
  split <;> simp_all

theorem grubErrors_eq_nil_iff : grubErrors name a = some [] ↔
    (a.grubPassword.truthy = true →
      ∃ password, a.grubPassword = .str password ∧
        grubHashPrefix.toList <+: password.toList) := by
  unfold grubErrors
  by_cases htruthy : a.grubPassword.truthy = true
  · simp only [htruthy, if_true, true_implies]
    split
    · rename_i password hpassword
      simp only [hpassword, Value.scalar.injEq, Scalar.str.injEq, exists_eq_left',
        Option.some.injEq]
      by_cases hprefix : grubHashPrefix.toList <+: password.toList
      · rw [if_pos hprefix]
        exact iff_of_true rfl hprefix
      · rw [if_neg hprefix]
        exact iff_of_false (List.cons_ne_nil _ _) hprefix
    · rename_i hother
      refine iff_of_false nofun ?_
      rintro ⟨password, hpassword, -⟩
      exact hother password hpassword
  · simp [htruthy]

theorem isolcpusErrors_eq_nil_iff : isolcpusErrors rt name a = some [] ↔
    (a.isolcpus.truthy = true →
      ∃ cpus, a.isolcpus = .str cpus ∧ ¬ rt.listLimit < cpuCount cpus ∧
        parseCpuList cpus ≠ [] ∧ 0 ∉ parseCpuList cpus) := by
  unfold isolcpusErrors
  by_cases htruthy : a.isolcpus.truthy = true
  · simp only [htruthy, if_true, true_implies]
    split
    · rename_i cpus hcpus
      simp only [hcpus, Value.scalar.injEq, Scalar.str.injEq, exists_eq_left']
      split
      · rename_i hlimit
        simp [hlimit]
      · rename_i hlimit
        split
        · rename_i hempty
          simp [hempty]
        · rename_i hcpus
          split <;> simp_all
    · rename_i hother
      refine iff_of_false nofun ?_
      rintro ⟨cpus, hcpus, -⟩
      exact hother cpus hcpus
  · simp [htruthy]

theorem hostnameFindings_eq_nil_iff : hostnameFindings rt name = [] ↔ isHostname name = true := by
  unfold hostnameFindings
  split <;> simp_all

/-- The rules for one machine, together. -/
theorem hostErrors_eq_nil_iff : hostErrors rt name a = some [] ↔
    isHostname name = true ∧
      (∃ ip, address rt a.ansibleHost = some ip ∧ ip.isLoopback = false) ∧
      a.networkInterface.truthy = true ∧ gatewayErrors rt name a = some [] ∧
      dnsErrors rt name a = some [] ∧ grubErrors name a = some [] ∧
      isolcpusErrors rt name a = some [] := by
  rw [← hostnameFindings_eq_nil_iff rt, ← @addressErrors_eq_nil_iff rt name a,
    ← @interfaceErrors_eq_nil_iff name a]
  unfold hostErrors
  cases gatewayErrors rt name a with
  | none => simp
  | some gateway =>
      cases dnsErrors rt name a with
      | none => simp
      | some dns =>
          cases grubErrors name a with
          | none => simp
          | some grub =>
              cases isolcpusErrors rt name a with
              | none => simp
              | some isolcpus => simp

/-- A machine that is alone has an address of its own, if that is looked up at all. -/
theorem acrossErrors_singleton :
    acrossErrors rt ∅ [(name, a)] = some [] ↔ ∃ s, a.ansibleHost = .scalar s := by
  unfold acrossErrors
  cases a.ansibleHost with
  | scalar s => simp [acrossErrors]
  | seq kind list => simp
  | map entries => simp

theorem errors_singleton {hosts : Dict String Attributes} (h : hosts.entries = [(name, a)]) :
    errors rt hosts = some [] ↔
      hostErrors rt name a = some [] ∧ ∃ s, a.ansibleHost = .scalar s := by
  have hsome : [(name, a)] ≠ [] := List.cons_ne_nil _ _
  have hone : ¬ 1 < [(name, a)].length := by simp
  rw [← @acrossErrors_singleton rt name a, errors, h, List.mapM_cons, List.mapM_nil,
    if_neg hsome, if_neg hone]
  cases hostErrors rt name a with
  | none => simp
  | some each =>
      cases acrossErrors rt ∅ [(name, a)] with
      | none => simp
      | some across => simp

/-- A standalone inventory of several machines does not pass. -/
theorem errors_of_several {hosts : Dict String Attributes} (h : 1 < hosts.entries.length) :
    errors rt hosts ≠ some [] := by
  intro herrors
  rw [errors, if_pos h] at herrors
  obtain ⟨each, -, herrors⟩ := Option.bind_eq_some_iff.mp herrors
  obtain ⟨across, -, herrors⟩ := Option.bind_eq_some_iff.mp herrors
  have hnil := Option.some.inj herrors
  simp only [List.append_eq_nil_iff, List.cons_ne_nil, and_false, false_and] at hnil

theorem listVar_ne_none {field : String} {v : Value} :
    (∃ vars, listVar field v = some vars) ↔ (v.truthy = true → items v ≠ none) := by
  unfold listVar
  by_cases htruthy : v.truthy = true
  · cases items v <;> simp [htruthy]
  · simp [htruthy]

theorem hostVars_ne_none : (∃ vars, hostVars a = some vars) ↔
    (a.dnsServers.truthy = true → items a.dnsServers ≠ none) ∧
      (a.ntpServers.truthy = true → items a.ntpServers ≠ none) ∧
      ∃ d, a.extra.toDict = .ok d := by
  rw [← @listVar_ne_none "dns_servers", ← @listVar_ne_none "ntp_servers"]
  unfold hostVars
  cases listVar "dns_servers" a.dnsServers with
  | none => simp
  | some dns =>
      cases listVar "ntp_servers" a.ntpServers with
      | none => simp
      | some ntp => cases a.extra.toDict <;> simp [Except.toOption]

/-- What passes is what the rules let through and the renderer can write. -/
theorem passes_iff : Passes rt name a ↔
    (hostErrors rt name a = some [] ∧ ∃ s, a.ansibleHost = .scalar s) ∧
      ∃ vars, hostVars a = some vars := by
  rw [hostErrors_eq_nil_iff, dnsErrors_eq_nil_iff, grubErrors_eq_nil_iff, isolcpusErrors_eq_nil_iff,
    hostVars_ne_none]
  constructor
  · rintro ⟨hname, ⟨ip, hip, hloopback, hgateway⟩, hscalar, hinterface, hdns, hntp, hgrub, hcpus,
      hextra⟩
    obtain ⟨servers, hservers, haddresses⟩ := hdns
    exact ⟨⟨⟨hname, ⟨ip, hip, hloopback⟩, hinterface,
      (gatewayErrors_eq_nil_iff rt hip).mpr hgateway, ⟨servers, hservers, haddresses⟩, hgrub,
      hcpus⟩, hscalar⟩,
      fun _ => hservers ▸ Option.some_ne_none servers, hntp, hextra⟩
  · rintro ⟨⟨⟨hname, ⟨ip, hip, hloopback⟩, hinterface, hgateway, hdns, hgrub, hcpus⟩, hscalar⟩,
      -, hntp, hextra⟩
    exact ⟨hname, ⟨ip, hip, hloopback, (gatewayErrors_eq_nil_iff rt hip).mp hgateway⟩, hscalar,
      hinterface, hdns, hntp, hgrub, hcpus, hextra⟩

/-- The document of a machine that is alone. -/
def documentOf (name : String) (isolcpus : Value) (vars : List (Scalar × Value)) : Value :=
  .map [(.str "all", .map [(.str "hosts", .map [(.str name, .map vars)])]),
    (.str "standalone_machine", .map [(.str "hosts", hostSet [name])]),
    (.str "hypervisors",
      if isolcpus.truthy then
        .map [(.str "hosts", hostSet [name]), (.str "vars", .map [(.str "isolcpus", isolcpus)])]
      else .map [(.str "hosts", hostSet [name])]),
    (.str "cluster_machines", .null),
    (.str "observers", .null)]

/-- The role of a machine that is alone does not show. -/
theorem document_singleton {hosts : Dict String Attributes} (h : hosts.entries = [(name, a)]) :
    document hosts = (hostVars a).map fun vars => documentOf name a.isolcpus vars.entries := by
  have hkeys : hosts.keys = [name] := by rw [Dict.keys, h]; rfl
  have hnames : (if hypervisors hosts = [] then hosts.keys else hypervisors hosts) = [name] := by
    rw [hkeys, hypervisors, h, List.filter_singleton]
    split <;> simp_all
  have hgroup : groupWithIsolcpus hosts =
      if a.isolcpus.truthy then
        .map [(.str "hosts", hostSet [name]), (.str "vars", .map [(.str "isolcpus", a.isolcpus)])]
      else .map [(.str "hosts", hostSet [name])] := by
    unfold groupWithIsolcpus
    rw [hnames, h, List.map_singleton, List.filter_singleton]
    cases a.isolcpus.truthy <;> rfl
  unfold document
  rw [h, List.mapM_cons, List.mapM_nil, hgroup, hkeys]
  cases hostVars a with
  | none => rfl
  | some vars => rfl

end Attributes

/-! ## What the two requests come to -/

/-- A change to the only machine there is. -/
theorem entries_set_singleton {V : Type} {d : Dict String V} {name : String} {stored v : V}
    (h : d.entries = [(name, stored)]) : (d.set name v).entries = [(name, v)] := by
  simp [Dict.set, Dict.assign, h]

/-- A change to one machine leaves as many as there are. -/
theorem length_entries_set {V : Type} {d : Dict String V} {name : String} {v : V}
    (h : name ∈ d.keys) : (d.set name v).entries.length = d.entries.length := by
  have hkeys : (d.set name v).keys = d.keys :=
    (Dict.keys_assign name v d.entries).trans (if_pos h)
  simpa [Dict.keys] using congrArg List.length hkeys

/-- The only machine, or one of several. -/
theorem single_or_several {V : Type} {d : Dict String V} {name : String} {v : V}
    (h : d.get? name = some v) : d.entries = [(name, v)] ∨ 1 < d.entries.length := by
  have hmem : (name, v) ∈ d.entries := Dict.mem_entries_iff.mpr h
  cases hentries : d.entries with
  | nil => rw [hentries] at hmem; cases hmem
  | cons e rest =>
      cases rest with
      | nil =>
          rw [hentries, List.mem_singleton] at hmem
          exact Or.inl (by rw [hmem])
      | cons e' rest => exact Or.inr (by simp)

theorem entries_attributes (hosts : Dict String NodeConfig) :
    (Dict.ofList (hosts.entries.map fun e => (e.1, e.2.attributes))).entries =
      hosts.entries.map fun e => (e.1, e.2.attributes) := by
  refine Dict.entries_ofList ?_
  rw [List.map_map]
  exact hosts.nodup

variable {stored : Inventory} {name : String} {node : NodeConfig} {changes : Dict String Value}

theorem checked_eq_some_iff {hosts : Dict String Attributes} {doc : Value} :
    ((Attributes.errors rt hosts).bind fun errors =>
        if errors = [] then Attributes.document hosts else none) = some doc ↔
      Attributes.errors rt hosts = some [] ∧ Attributes.document hosts = some doc := by
  rw [Option.bind_eq_some_iff]
  constructor
  · rintro ⟨errors, herrors, h⟩
    by_cases hnone : errors = []
    · rw [if_pos hnone] at h
      exact ⟨hnone ▸ herrors, h⟩
    · rw [if_neg hnone] at h
      cases h
  · rintro ⟨herrors, h⟩
    exact ⟨[], herrors, h⟩

/-- `patch_host` commits what the attributes of the only machine make, if they pass. -/
theorem patchHost_eq_some_iff (hnode : stored.hosts.get? name = some node)
    (hfields : ∀ k ∈ changes.keys, k ∈ nodeFields) {doc : Value} :
    patchHost rt stored name changes = some doc ↔
      stored.hosts.entries = [(name, node)] ∧
        Passes rt name (node.attributes.update changes) ∧
        ∃ vars, Attributes.hostVars (node.attributes.update changes) = some vars ∧
          Attributes.documentOf name (node.attributes.update changes).isolcpus vars.entries =
            doc := by
  have hall : changes.keys.all (· ∈ nodeFields) = true := by simpa using hfields
  unfold patchHost
  rw [hnode, Option.bind_eq_bind, Option.bind_some, if_pos hall]
  generalize node.attributes.update changes = a
  have hcopied := entries_attributes stored.hosts
  generalize Dict.ofList (stored.hosts.entries.map fun e => (e.1, e.2.attributes)) = copied
    at hcopied
  refine (checked_eq_some_iff rt).trans ?_
  rcases single_or_several hnode with hone | hseveral
  · rw [hone, List.map_singleton] at hcopied
    have hentries := entries_set_singleton (v := a) hcopied
    rw [Attributes.errors_singleton rt hentries, Attributes.document_singleton hentries,
      Attributes.passes_iff, Option.map_eq_some_iff]
    constructor
    · rintro ⟨hrules, vars, hvars, hdoc⟩
      exact ⟨hone, ⟨hrules, vars, hvars⟩, vars, hvars, hdoc⟩
    · rintro ⟨-, ⟨hrules, -⟩, vars, hvars, hdoc⟩
      exact ⟨hrules, vars, hvars, hdoc⟩
  · have hmem : name ∈ copied.keys := by
      rw [Dict.keys, hcopied, List.map_map]
      exact List.mem_map_of_mem (f := Prod.fst) (Dict.mem_entries_iff.mpr hnode)
    have hlength : 1 < (copied.set name a).entries.length := by
      rw [length_entries_set hmem, hcopied, List.length_map]
      exact hseveral
    refine iff_of_false (fun h => Attributes.errors_of_several rt hlength h.1) ?_
    rintro ⟨hone, -⟩
    rw [hone] at hseveral
    exact absurd hseveral (by simp)

/-- The document of an inventory of one machine. -/
theorem standaloneDocument_single {inventory : Inventory}
    (h : inventory.hosts.entries = [(name, node)]) :
    standaloneDocument inventory =
      Attributes.documentOf name (ofText node.isolcpus)
        ((hostVars node).entries.map fun e => (.str e.1, e.2)) := by
  have hnames : inventory.hostNames = [name] := by rw [Inventory.hostNames, Dict.keys, h]; rfl
  have hgroup : (if inventory.hypervisors = [] then inventory.hostNames
      else inventory.hypervisors) = [name] := by
    cases hrole : node.role <;> simp [Inventory.hypervisors, hnames, h, hrole]
  have hisolated : groupWithIsolcpus inventory =
      if (ofText node.isolcpus).truthy then
        .map [(.str "hosts", hostSet [name]),
          (.str "vars", .map [(.str "isolcpus", ofText node.isolcpus)])]
      else .map [(.str "hosts", hostSet [name])] := by
    unfold groupWithIsolcpus
    rw [isolatedSets_single h, hgroup]
    cases node.isolcpus with
    | none => rfl
    | some cpus => by_cases hempty : cpus = "" <;> simp [hempty, ofText, Option.filter]
  unfold standaloneDocument Attributes.documentOf hostsVars
  rw [hisolated, hnames, h, List.map_singleton, Value.ofDict]

/-- `replace` commits what the rules let through of what the request model has read. -/
theorem replace_eq_some_iff {m : RequestModel} (hmode : stored.mode = .standalone)
    (hnode : stored.hosts.get? name = some node) {doc : Value} :
    replace rt m stored name changes = some doc ↔
      stored.hosts.entries = [(name, node)] ∧
        ∃ read, m.readNode node changes = some read ∧ Takes rt name read ∧
          Attributes.documentOf name (ofText read.isolcpus)
            ((hostVars read).entries.map fun e => (.str e.1, e.2)) = doc := by
  unfold replace
  rw [hnode, Option.bind_eq_bind, Option.bind_some]
  refine Option.bind_eq_some_iff.trans ?_
  have hcandidate : ∀ read : NodeConfig,
      ((let candidate : Inventory := { stored with hosts := stored.hosts.set name read }
        if Accepts rt candidate ∧ candidate.mode = .standalone then
          some (standaloneDocument candidate) else none) = some doc) ↔
        stored.hosts.entries = [(name, node)] ∧ Takes rt name read ∧
          Attributes.documentOf name (ofText read.isolcpus)
            ((hostVars read).entries.map fun e => (.str e.1, e.2)) = doc := by
    intro read
    rcases single_or_several hnode with hone | hseveral
    · have hentries := entries_set_singleton (v := read) hone
      have hsingle : ({ stored with hosts := stored.hosts.set name read } :
          Inventory).hosts.entries = [(name, read)] := hentries
      rw [← accepts_singleton rt hsingle, ← standaloneDocument_single hsingle]
      simp only [hmode, and_true, Option.ite_none_right_eq_some, Option.some.injEq, hone,
        true_and]
    · have hlength : 1 < (stored.hosts.set name read).entries.length := by
        rw [length_entries_set
          (List.mem_map_of_mem (f := Prod.fst) (Dict.mem_entries_iff.mpr hnode))]
        exact hseveral
      refine iff_of_false ?_ ?_
      · intro h
        obtain ⟨⟨haccepts, hstandalone⟩, -⟩ := Option.ite_none_right_eq_some.mp h
        obtain ⟨name', node', hsingle⟩ := single_of_valid rt hstandalone haccepts.2
        rw [hsingle] at hlength
        exact absurd hlength (by simp)
      · rintro ⟨hone, -⟩
        rw [hone] at hseveral
        exact absurd hseveral (by simp)
  constructor
  · rintro ⟨read, hread, h⟩
    obtain ⟨hone, htakes, hdoc⟩ := (hcandidate read).mp h
    exact ⟨hone, read, hread, htakes, hdoc⟩
  · rintro ⟨hone, read, hread, htakes, hdoc⟩
    exact ⟨read, hread, (hcandidate read).mpr ⟨hone, htakes, hdoc⟩⟩

/-! ## A node that was read -/

@[simp] theorem truthy_ofText {s : Option String} :
    (ofText s).truthy = true ↔ ∃ text, s.filter (· ≠ "") = some text := by
  cases s with
  | none => simp [ofText]
  | some text => by_cases hempty : text = "" <;> simp [ofText, hempty, Option.filter]

theorem ofText_eq_str {s : Option String} {text : String} (h : s.filter (· ≠ "") = some text) :
    ofText s = .str text := by
  rw [(Option.filter_eq_some_iff.mp h).1, ofText]

theorem items_ofTexts (texts : List String) : items (ofTexts texts) = some (texts.map Value.str) :=
  rfl

theorem address_str {s : String} : Attributes.address rt (.str s) = address (some s) := by
  unfold Attributes.address
  by_cases hempty : s = ""
  · subst hempty
    rfl
  · simp [hempty, Value.text, address]

theorem toDict_ofDict (d : Dict String Value) :
    ∃ e : Dict Scalar Value, (Value.ofDict d).toDict = .ok e ∧
      e.entries = d.entries.map fun p => (.str p.1, p.2) := by
  obtain ⟨e, hdict, hentries⟩ := Value.asDict_ofDict d
  exact ⟨e, by rw [Value.toDict, hdict], hentries⟩

theorem gateway_attributes_iff {gateway : Option String} {subnet : Subnet} {ip : IpAddress} :
    ((ofText gateway).truthy = true →
      ∃ address, Attributes.address rt (ofText gateway) = some address ∧
        ∃ length, ip.prefixLength ((Value.scalar (.int subnet)).text rt.repr) = some length ∧
          IpAddress.inNetwork length ip address = true) ↔
      ∀ text, gateway.filter (· ≠ "") = some text →
        ∃ found, address (some text) = some found ∧
          IpAddress.inNetwork subnet.1.toNat ip found = true := by
  have hlength : ip.prefixLength ((Value.scalar (.int subnet)).text rt.repr) =
      some subnet.1.toNat := IpAddress.prefixLength_toString ip subnet.2
  simp only [truthy_ofText, forall_exists_index, hlength, Option.some.injEq, exists_eq_left']
  refine forall₂_congr fun text htext => ?_
  rw [ofText_eq_str htext, address_str]

theorem dns_attributes_iff {servers : List String} :
    (∃ found, items (ofTexts servers) = some found ∧
      ∀ server ∈ found, Attributes.address rt server ≠ none) ↔
      ∀ server ∈ servers, address (some server) ≠ none := by
  simp only [items_ofTexts, Option.some.injEq, exists_eq_left', List.forall_mem_map, address_str]

/-- What is asked of a value if there is one, of an optional text. -/
theorem forall_ofText_iff {s : Option String} {p : String → Prop} :
    ((ofText s).truthy = true → ∃ text, ofText s = .str text ∧ p text) ↔
      ∀ text, s.filter (· ≠ "") = some text → p text := by
  simp only [truthy_ofText, forall_exists_index]
  refine forall₂_congr fun text htext => ?_
  rw [ofText_eq_str htext]
  simp

/-- A node of the model passes exactly if the rules take it, whatever is put for its role and
its PTP domain. -/
theorem passes_attributes_iff (role : Role ⊕ Value) (domain : Value) :
    Passes rt name { node.attributes with role := role, ptpDomainNumber := domain } ↔
      Takes rt name node := by
  constructor
  · rintro ⟨hname, ⟨ip, hip, hloopback, hgateway⟩, -, hinterface, hdns, -, hgrub, hcpus, -⟩
    have hlist := (forall_ofText_iff (p := fun cpus => ¬ rt.listLimit < cpuCount cpus ∧
      parseCpuList cpus ≠ [] ∧ 0 ∉ parseCpuList cpus)).mp hcpus
    refine ⟨⟨hname, ⟨ip, (address_str rt).symm.trans hip, hloopback,
      (gateway_attributes_iff rt).mp hgateway⟩, ?_, (dns_attributes_iff rt).mp hdns,
      forall_ofText_iff.mp hgrub, fun cpus h => (hlist cpus h).2⟩, fun cpus h => (hlist cpus h).1⟩
    simpa [NodeConfig.attributes] using hinterface
  · rintro ⟨⟨hname, ⟨ip, hip, hloopback, hgateway⟩, hinterface, hdns, hgrub, hcpus⟩, hlimit⟩
    obtain ⟨d, hd, -⟩ := toDict_ofDict node.extra
    refine ⟨hname, ⟨ip, (address_str rt).trans hip, hloopback,
      (gateway_attributes_iff rt).mpr hgateway⟩, ⟨_, rfl⟩, ?_, (dns_attributes_iff rt).mpr hdns,
      fun _ => Option.some_ne_none _, forall_ofText_iff.mpr hgrub,
      forall_ofText_iff.mpr fun cpus h => ⟨hlimit cpus h, hcpus cpus h⟩, d, hd⟩
    simpa [NodeConfig.attributes] using hinterface

end Rules

/-! ## Numbers that were not read as they are -/

/-- A variable of the node, with other values for its two numbers. -/
def withNumbers (subnet domain : Value) (e : String × Value) : String × Value :=
  (e.1, if e.1 = "subnet" then subnet else if e.1 = "ptp_domain_number" then domain else e.2)

/-- The variables of the node, with other values for its two numbers. -/
def varsWith (node : NodeConfig) (subnet domain : Value) : Dict String Value :=
  ((Dict.ofList ((modelledVars node).map (withNumbers subnet domain))).update
    node.extra.entries).update fixedHostVars

section Numbers

variable {node : NodeConfig} {subnet domain : Value}

theorem keys_withNumbers (l : List (String × Value)) :
    (l.map (withNumbers subnet domain)).map Prod.fst = l.map Prod.fst := by
  rw [List.map_map]
  rfl

theorem lookup_withNumbers (k : String) (l : List (String × Value)) :
    (l.map (withNumbers subnet domain)).lookup k =
      (l.lookup k).map fun v => (withNumbers subnet domain (k, v)).2 := by
  induction l with
  | nil => rfl
  | cons e rest ih =>
      obtain ⟨k', v⟩ := e
      rw [List.map_cons, withNumbers, Dict.lookup_cons_ite, Dict.lookup_cons_ite, ih]
      by_cases h : k' = k
      · simp [h, withNumbers]
      · simp [h]

theorem nodup_withNumbers (node : NodeConfig) :
    (((modelledVars node).map (withNumbers subnet domain)).map Prod.fst).Nodup := by
  rw [keys_withNumbers]
  exact nodup_modelledVars node

theorem get?_varsWith (k : String) : (varsWith node subnet domain).get? k =
    ((fixedHostVars.lookup k).or (node.extra.get? k)).or
      (((modelledVars node).lookup k).map fun v => (withNumbers subnet domain (k, v)).2) := by
  unfold varsWith
  rw [Dict.get?_update _ _ nodup_fixedHostVars, Dict.get?_update _ _ node.extra.nodup,
    Dict.get?_ofList (nodup_withNumbers node), lookup_withNumbers, Option.or_assoc]
  rfl

theorem keys_varsWith : (varsWith node subnet domain).keys = (hostVars node).keys := by
  have hkeys : (Dict.ofList ((modelledVars node).map (withNumbers subnet domain))).keys =
      (Dict.ofList (modelledVars node)).keys := by
    rw [Dict.keys, Dict.keys, Dict.entries_ofList (nodup_withNumbers node),
      Dict.entries_ofList (nodup_modelledVars node), keys_withNumbers]
  unfold varsWith hostVars
  rw [Dict.keys_update _ nodup_fixedHostVars, Dict.keys_update _ nodup_fixedHostVars,
    Dict.keys_update _ node.extra.nodup, Dict.keys_update _ node.extra.nodup, hkeys]

/-- The number is written as it came, or something else is written over it. -/
def Shown (node : NodeConfig) (field : String) (written read : Value) : Prop :=
  written = read ∨ node.extra.contains field = true

/-- A field of the model stands in the two dictionaries alike, if it is shown. -/
theorem get?_varsWith_eq_iff {field : String} {written : Value}
    (hfixed : fixedHostVars.lookup field = none)
    (hwritten : ∀ v, (withNumbers subnet domain (field, v)).2 = written) :
    (varsWith node subnet domain).get? field = (hostVars node).get? field ↔
      ∀ read, (modelledVars node).lookup field = some read → Shown node field written read := by
  rw [get?_varsWith, get?_hostVars, hfixed, Option.none_or]
  simp only [hwritten, Shown, Dict.contains]
  cases node.extra.get? field with
  | some v => simp
  | none => cases (modelledVars node).lookup field <;> simp

theorem varsWith_eq_iff (hdomain : domain = .null ↔ node.ptpDomainNumber = none) :
    varsWith node subnet domain = hostVars node ↔
      Shown node "subnet" subnet (.scalar (.int node.subnet)) ∧
        Shown node "ptp_domain_number" domain (ofDomain node.ptpDomainNumber) := by
  obtain ⟨-, -, hlookup, -, -, -, hlookupPtp, -⟩ := lookup_modelledVars node
  have hsubnet : (varsWith node subnet domain).get? "subnet" = (hostVars node).get? "subnet" ↔
      ∀ read, (modelledVars node).lookup "subnet" = some read → Shown node "subnet" subnet read :=
    get?_varsWith_eq_iff rfl fun _ => rfl
  have hptp : (varsWith node subnet domain).get? "ptp_domain_number" =
        (hostVars node).get? "ptp_domain_number" ↔
      ∀ read, (modelledVars node).lookup "ptp_domain_number" = some read →
        Shown node "ptp_domain_number" domain read :=
    get?_varsWith_eq_iff rfl fun _ => rfl
  have hshown : Shown node "ptp_domain_number" domain (ofDomain node.ptpDomainNumber) ↔
      ∀ read, (modelledVars node).lookup "ptp_domain_number" = some read →
        Shown node "ptp_domain_number" domain read := by
    rw [hlookupPtp]
    cases hnode : node.ptpDomainNumber with
    | none => simp [Shown, ofDomain, hdomain.mpr hnode]
    | some n => simp [ofDomain]
  rw [hshown, ← hptp]
  constructor
  · intro heq
    rw [heq] at hsubnet ⊢
    exact ⟨hsubnet.mp rfl _ hlookup, rfl⟩
  · rintro ⟨hshownSubnet, hsamePtp⟩
    refine Dict.ext_of_get? keys_varsWith fun k => ?_
    by_cases hk : k = "subnet"
    · subst hk
      refine hsubnet.mpr fun read hread => ?_
      rw [← Option.some.inj (hlookup.symm.trans hread)]
      exact hshownSubnet
    · by_cases hk' : k = "ptp_domain_number"
      · subst hk'
        exact hsamePtp
      · rw [get?_varsWith, get?_hostVars]
        simp [withNumbers, hk, hk']

theorem optionalVar_ofText {field : String} {s : Option String}
    (hsubnet : field ≠ "subnet") (hdomain : field ≠ "ptp_domain_number") :
    Attributes.optionalVar field (ofText s) =
      ((optionalVar field s).map (withNumbers subnet domain)).map loaded := by
  cases s with
  | none => rfl
  | some text =>
      by_cases hempty : text = ""
      · simp [Attributes.optionalVar, optionalVar, ofText, hempty]
      · simp [Attributes.optionalVar, optionalVar, ofText, hempty, withNumbers, loaded, hsubnet,
          hdomain]

theorem listVar_ofTexts {field : String} {texts : List String}
    (hsubnet : field ≠ "subnet") (hdomain : field ≠ "ptp_domain_number") :
    Attributes.listVar field (ofTexts texts) =
      some (((listVar field texts).map (withNumbers subnet domain)).map loaded) := by
  have htruthy : (ofTexts texts).truthy = !texts.isEmpty := by
    simp [ofTexts, Value.truthy]
  cases texts with
  | nil => rfl
  | cons text rest =>
      simp [Attributes.listVar, listVar, htruthy, items_ofTexts, withNumbers, loaded, hsubnet,
        hdomain]

theorem ptpVars_domain (hdomain : domain = .null ↔ node.ptpDomainNumber = none) :
    Attributes.ptpVars domain =
      ((ptpVars node.ptpDomainNumber).map (withNumbers subnet domain)).map loaded := by
  cases hnode : node.ptpDomainNumber with
  | none =>
      rw [Attributes.ptpVars, if_pos (hdomain.mpr hnode)]
      rfl
  | some n =>
      rw [Attributes.ptpVars, if_neg fun h => nomatch (hdomain.mp h).symm.trans hnode]
      rfl

/-- What is assigned to the attributes of a node, with other values for its two numbers. -/
theorem modelled_attributes (hdomain : domain = .null ↔ node.ptpDomainNumber = none) :
    ((modelledVars node).map (withNumbers subnet domain)).map loaded =
      [(.str "ansible_host", .str node.ansibleHost),
        (.str "network_interface", .str node.networkInterface), (.str "subnet", subnet)] ++
      Attributes.optionalVar "gateway_addr" (ofText node.gatewayAddr) ++
      ((listVar "dns_servers" node.dnsServers).map (withNumbers subnet domain)).map loaded ++
      Attributes.optionalVar "ptp_interface" (ofText node.ptpInterface) ++
      Attributes.ptpVars domain ++
      ((listVar "ntp_servers" node.ntpServers).map (withNumbers subnet domain)).map loaded ++
      Attributes.optionalVar "admin_user" (ofText node.adminUser) ++
      Attributes.optionalVar "grub_password" (ofText node.grubPassword) := by
  rw [@optionalVar_ofText subnet domain "gateway_addr" _ (by decide) (by decide),
    @optionalVar_ofText subnet domain "ptp_interface" _ (by decide) (by decide),
    @optionalVar_ofText subnet domain "admin_user" _ (by decide) (by decide),
    @optionalVar_ofText subnet domain "grub_password" _ (by decide) (by decide),
    @ptpVars_domain node subnet domain hdomain]
  simp only [modelledVars, List.map_append]
  rfl

/-- What `_host_vars` makes of the attributes of a node, with other values for its two
numbers. -/
theorem hostVars_attributes (role : Role ⊕ Value)
    (hdomain : domain = .null ↔ node.ptpDomainNumber = none) :
    ∃ vars, Attributes.hostVars { node.attributes with
        role := role, subnet := subnet, ptpDomainNumber := domain } = some vars ∧
      vars.entries = (varsWith node subnet domain).entries.map loaded := by
  obtain ⟨extra, hextra, hentries⟩ := toDict_ofDict node.extra
  refine ⟨((Dict.ofList (((modelledVars node).map (withNumbers subnet domain)).map loaded)).update
    extra.entries).update (fixedHostVars.map loaded), ?_, ?_⟩
  · rw [modelled_attributes hdomain]
    simp only [Attributes.hostVars, NodeConfig.attributes, hextra, Except.toOption,
      @listVar_ofTexts subnet domain "dns_servers" _ (by decide) (by decide),
      @listVar_ofTexts subnet domain "ntp_servers" _ (by decide) (by decide)]
    rfl
  · have hinjective : Function.Injective Scalar.str := fun a b h => Scalar.str.inj h
    rw [hentries]
    unfold varsWith
    refine Dict.entries_update_mapKey hinjective ?_
    refine Dict.entries_update_mapKey hinjective ?_
    exact Dict.entries_update_mapKey hinjective rfl

end Numbers

/-! ## The two requests -/

section Requests

variable {rt : Runtime} {m : RequestModel} {stored : Inventory} {name : String}
  {node read : NodeConfig} {changes : Dict String Value}

/-- What stands for the subnet in the copied node. -/
def patchedSubnet (node : NodeConfig) (changes : Dict String Value) : Value :=
  (node.attributes.update changes).subnet

/-- What stands for the PTP domain in the copied node. -/
def patchedDomain (node : NodeConfig) (changes : Dict String Value) : Value :=
  (node.attributes.update changes).ptpDomainNumber

/-- **Where the request model reads the node, the copied one has its attributes**, up to the
role and the two numbers. -/
theorem update_attributes (h : m.readNode node changes = some read) :
    (∃ role, node.attributes.update changes =
      { read.attributes with
        role := role
        subnet := patchedSubnet node changes
        ptpDomainNumber := patchedDomain node changes }) ∧
      RequestModel.readField changes "subnet" m.readSubnet node.subnet = some read.subnet ∧
      RequestModel.readField changes "ptp_domain_number" m.readPtpDomain node.ptpDomainNumber =
        some read.ptpDomainNumber := by
  unfold RequestModel.readNode at h
  obtain ⟨role, hrole, h⟩ := Option.bind_eq_some_iff.mp h
  obtain ⟨ansibleHost, hhost, h⟩ := Option.bind_eq_some_iff.mp h
  obtain ⟨networkInterface, hinterface, h⟩ := Option.bind_eq_some_iff.mp h
  obtain ⟨subnet, hsubnet, h⟩ := Option.bind_eq_some_iff.mp h
  obtain ⟨gatewayAddr, hgateway, h⟩ := Option.bind_eq_some_iff.mp h
  obtain ⟨dnsServers, hdns, h⟩ := Option.bind_eq_some_iff.mp h
  obtain ⟨ptpInterface, hptp, h⟩ := Option.bind_eq_some_iff.mp h
  obtain ⟨ptpDomainNumber, hdomain, h⟩ := Option.bind_eq_some_iff.mp h
  obtain ⟨ntpServers, hntp, h⟩ := Option.bind_eq_some_iff.mp h
  obtain ⟨adminUser, huser, h⟩ := Option.bind_eq_some_iff.mp h
  obtain ⟨grubPassword, hgrub, h⟩ := Option.bind_eq_some_iff.mp h
  obtain ⟨isolcpus, hcpus, h⟩ := Option.bind_eq_some_iff.mp h
  obtain ⟨extra, hextra, h⟩ := Option.bind_eq_some_iff.mp h
  obtain rfl := Option.some.inj h
  refine ⟨⟨(node.attributes.update changes).role, ?_⟩, hsubnet, hdomain⟩
  simp only [Attributes.update, NodeConfig.attributes, patchedSubnet, patchedDomain,
    Attributes.mk.injEq, true_and]
  exact ⟨attribute_of_readField (fun _ => readText_exact) hhost,
    attribute_of_readField (fun _ => readText_exact) hinterface,
    attribute_of_readField (fun _ => readOptionalText_exact) hgateway,
    attribute_of_readField (fun _ => readTexts_exact) hdns,
    attribute_of_readField (fun _ => readOptionalText_exact) hptp,
    attribute_of_readField (fun _ => readTexts_exact) hntp,
    attribute_of_readField (fun _ => readOptionalText_exact) huser,
    attribute_of_readField (fun _ => readOptionalText_exact) hgrub,
    attribute_of_readField (fun _ => readOptionalText_exact) hcpus,
    attribute_of_readField (fun _ => readExtra_exact) hextra⟩

/-- A PTP domain that was read is null exactly if it came as null. -/
theorem patchedDomain_eq_null_iff (h : m.readNode node changes = some read) :
    patchedDomain node changes = .null ↔ read.ptpDomainNumber = none := by
  obtain ⟨-, -, hdomain⟩ := update_attributes h
  simp only [patchedDomain, Attributes.update, NodeConfig.attributes]
  rcases readField_cases hdomain with ⟨hget, hstored⟩ | ⟨v, hget, hread⟩
  · rw [hget, Option.getD_none, hstored]
    cases read.ptpDomainNumber <;> simp [ofDomain]
  · rw [hget, Option.getD_some]
    exact readPtpDomain_eq_none_iff hread

/-- A subnet that came as an integer is the one that was read. -/
theorem patchedSubnet_of_int (h : m.readNode node changes = some read)
    (hint : ∀ v, changes.get? "subnet" = some v → ∃ n, v = .scalar (.int n)) :
    patchedSubnet node changes = .scalar (.int read.subnet) := by
  obtain ⟨-, hsubnet, -⟩ := update_attributes h
  have hexact : ∀ {v : Value} {subnet : Subnet}, changes.get? "subnet" = some v →
      m.readSubnet v = some subnet → Value.scalar (.int subnet) = v := by
    intro v subnet hget hread
    obtain ⟨n, rfl⟩ := hint v hget
    exact readSubnet_exact hread
  exact attribute_of_readField hexact hsubnet

/-- So is a PTP domain. -/
theorem patchedDomain_of_int (h : m.readNode node changes = some read)
    (hint : ∀ v, changes.get? "ptp_domain_number" = some v →
      v = .null ∨ ∃ n, v = .scalar (.int n)) :
    patchedDomain node changes = ofDomain read.ptpDomainNumber := by
  obtain ⟨-, -, hdomain⟩ := update_attributes h
  exact attribute_of_readField (fun hget hread => readPtpDomain_exact (hint _ hget) hread) hdomain

/-- The document of the copied node, of values that the request model has read. -/
theorem document_of_read (h : m.readNode node changes = some read) :
    ∃ vars, Attributes.hostVars (node.attributes.update changes) = some vars ∧
      Attributes.documentOf name (node.attributes.update changes).isolcpus vars.entries =
        Attributes.documentOf name (ofText read.isolcpus)
          ((varsWith read (patchedSubnet node changes) (patchedDomain node changes)).entries.map
            loaded) := by
  obtain ⟨⟨role, heq⟩, -⟩ := update_attributes h
  obtain ⟨vars, hvars, hentries⟩ := hostVars_attributes role (patchedDomain_eq_null_iff h)
  rw [heq]
  exact ⟨vars, hvars, by rw [hentries]; rfl⟩

/-- The two documents are the same where the numbers are shown as they were read. -/
theorem documentOf_eq_iff (h : m.readNode node changes = some read) :
    Attributes.documentOf name (ofText read.isolcpus)
        ((varsWith read (patchedSubnet node changes) (patchedDomain node changes)).entries.map
          loaded) =
      Attributes.documentOf name (ofText read.isolcpus) ((hostVars read).entries.map loaded) ↔
      Shown read "subnet" (patchedSubnet node changes) (.scalar (.int read.subnet)) ∧
        Shown read "ptp_domain_number" (patchedDomain node changes)
          (ofDomain read.ptpDomainNumber) := by
  rw [← varsWith_eq_iff (patchedDomain_eq_null_iff h)]
  constructor
  · intro heq
    simp only [Attributes.documentOf, Value.map.injEq, List.cons.injEq, Prod.mk.injEq, true_and,
      and_true] at heq
    have hinjective : Function.Injective loaded := by
      rintro ⟨k, v⟩ ⟨k', v'⟩ heq
      simpa [loaded] using heq
    exact Dict.ext (List.map_injective_iff.mpr hinjective heq)
  · intro heq
    rw [heq]

/-- The copied node passes exactly if the rules take the one that was read, where the subnet
came as it was read. -/
theorem passes_iff_takes (h : m.readNode node changes = some read)
    (hsubnet : patchedSubnet node changes = .scalar (.int read.subnet)) :
    Passes rt name (node.attributes.update changes) ↔ Takes rt name read := by
  obtain ⟨⟨role, heq⟩, -⟩ := update_attributes h
  rw [heq, hsubnet]
  exact passes_attributes_iff rt role (patchedDomain node changes)

/-- What keeps the two requests in step. -/
inductive InStep (rt : Runtime) (m : RequestModel) (stored : Inventory) (name : String)
    (node : NodeConfig) (changes : Dict String Value) : Prop
  /-- the request model reads the values, and the numbers among them are integers -/
  | asRead (read : NodeConfig) : m.readNode node changes = some read →
      (∀ v, changes.get? "subnet" = some v → ∃ n, v = .scalar (.int n)) →
      (∀ v, changes.get? "ptp_domain_number" = some v → v = .null ∨ ∃ n, v = .scalar (.int n)) →
      InStep rt m stored name node changes
  /-- there are other machines, or the values are refused both as they come and as they are
  read, if they are -/
  | refused :
      (stored.hosts.entries = [(name, node)] →
        ¬ Passes rt name (node.attributes.update changes) ∧
          ∀ read, m.readNode node changes = some read → ¬ Takes rt name read) →
      InStep rt m stored name node changes
  /-- they are refused neither way, and `extra` overrides a number that is converted -/
  | overridden (read : NodeConfig) : m.readNode node changes = some read →
      Passes rt name (node.attributes.update changes) → Takes rt name read →
      Shown read "subnet" (patchedSubnet node changes) (.scalar (.int read.subnet)) →
      Shown read "ptp_domain_number" (patchedDomain node changes)
        (ofDomain read.ptpDomainNumber) →
      InStep rt m stored name node changes

/-- Where both let the values through, they commit the same document exactly if the numbers
are shown as they were read. -/
theorem patchHost_eq_replace_iff (hmode : stored.mode = .standalone)
    (hnode : stored.hosts.get? name = some node) (hfields : ∀ k ∈ changes.keys, k ∈ nodeFields)
    (hone : stored.hosts.entries = [(name, node)]) (hread : m.readNode node changes = some read)
    (hpasses : Passes rt name (node.attributes.update changes)) (htakes : Takes rt name read) :
    patchHost rt stored name changes = replace rt m stored name changes ↔
      Shown read "subnet" (patchedSubnet node changes) (.scalar (.int read.subnet)) ∧
        Shown read "ptp_domain_number" (patchedDomain node changes)
          (ofDomain read.ptpDomainNumber) := by
  obtain ⟨vars, hvars, hdoc⟩ := @document_of_read m name _ _ _ hread
  have hreplace := (replace_eq_some_iff rt hmode hnode).mpr ⟨hone, read, hread, htakes, rfl⟩
  have hpatch := (patchHost_eq_some_iff rt hnode hfields).mpr ⟨hone, hpasses, vars, hvars, rfl⟩
  rw [hpatch, hreplace, Option.some.injEq, hdoc]
  exact documentOf_eq_iff hread

theorem patchHost_ne_none_iff (hnode : stored.hosts.get? name = some node)
    (hfields : ∀ k ∈ changes.keys, k ∈ nodeFields) :
    patchHost rt stored name changes ≠ none ↔
      stored.hosts.entries = [(name, node)] ∧
        Passes rt name (node.attributes.update changes) := by
  rw [Option.ne_none_iff_exists']
  simp only [patchHost_eq_some_iff rt hnode hfields]
  constructor
  · rintro ⟨doc, hone, hpasses, -⟩
    exact ⟨hone, hpasses⟩
  · rintro ⟨hone, hpasses⟩
    obtain ⟨-, vars, hvars⟩ := (Attributes.passes_iff rt).mp hpasses
    exact ⟨_, hone, hpasses, vars, hvars, rfl⟩

theorem replace_ne_none_iff (hmode : stored.mode = .standalone)
    (hnode : stored.hosts.get? name = some node) :
    replace rt m stored name changes ≠ none ↔
      stored.hosts.entries = [(name, node)] ∧
        ∃ read, m.readNode node changes = some read ∧ Takes rt name read := by
  rw [Option.ne_none_iff_exists']
  simp only [replace_eq_some_iff rt hmode hnode]
  constructor
  · rintro ⟨doc, hone, read, hread, htakes, -⟩
    exact ⟨hone, read, hread, htakes⟩
  · rintro ⟨hone, read, hread, htakes⟩
    exact ⟨_, hone, read, hread, htakes, rfl⟩

/-- Where they are in step, both let the values through, or neither does. -/
theorem InStep.passes_iff (h : InStep rt m stored name node changes)
    (hone : stored.hosts.entries = [(name, node)]) :
    Passes rt name (node.attributes.update changes) ↔
      ∃ read, m.readNode node changes = some read ∧ Takes rt name read := by
  cases h with
  | asRead read hread hsubnet hdomain =>
      rw [passes_iff_takes hread (patchedSubnet_of_int hread hsubnet)]
      constructor
      · exact fun htakes => ⟨read, hread, htakes⟩
      · rintro ⟨read', hread', htakes⟩
        exact Option.some.inj (hread.symm.trans hread') ▸ htakes
  | refused hrefused =>
      obtain ⟨hpatch, hput⟩ := hrefused hone
      refine iff_of_false hpatch ?_
      rintro ⟨read, hread, htakes⟩
      exact hput read hread htakes
  | overridden read hread hpasses htakes hsubnet hdomain =>
      exact iff_of_true hpasses ⟨read, hread, htakes⟩

/-- Where they are in step, and let the values through, the numbers are shown as they were
read. -/
theorem InStep.shown (h : InStep rt m stored name node changes)
    (hone : stored.hosts.entries = [(name, node)])
    (hpasses : Passes rt name (node.attributes.update changes))
    (hread : m.readNode node changes = some read) :
    Shown read "subnet" (patchedSubnet node changes) (.scalar (.int read.subnet)) ∧
      Shown read "ptp_domain_number" (patchedDomain node changes)
        (ofDomain read.ptpDomainNumber) := by
  cases h with
  | asRead read' hread' hsubnet hdomain =>
      obtain rfl := Option.some.inj (hread.symm.trans hread')
      exact ⟨.inl (patchedSubnet_of_int hread hsubnet), .inl (patchedDomain_of_int hread hdomain)⟩
  | refused hrefused => exact absurd hpasses (hrefused hone).1
  | overridden read' hread' _ _ hsubnet hdomain =>
      obtain rfl := Option.some.inj (hread.symm.trans hread')
      exact ⟨hsubnet, hdomain⟩

end Requests

/-! ## A number out of its range -/

/-- A machine without a gateway, so that no rule looks at its prefix length. -/
def ungated : NodeConfig where
  ansibleHost := "192.168.200.10"
  networkInterface := "eno1"

/-- The inventory it is alone in. -/
def ungatedInventory : Inventory := { hosts := Dict.ofList [("node1", ungated)] }

/-- A request model for integers that come as integers. -/
def integersOnly : RequestModel where
  int
    | .scalar (.int n) => some n
    | _ => none
  int_int _ := rfl

/-- A prefix length that no network has. -/
def subnet99 : Dict String Value := Dict.ofList [("subnet", .scalar (.int 99))]

end SeapathWebui.Inventory
