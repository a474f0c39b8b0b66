/-
  Inventory/Stability.lean --- writing an inventory twice.

  A file that reorders itself between two writes would be a commit with no change
  in it.  The parser normalises what it reads, and the next write of a normalised
  node is the same (`steady_of_clear`), as long as the parser and the renderer
  agree on which variables are the renderer's own.  They disagree on one kind of
  key: one that is no text.  The parser leaves it to `extra`, and the model then
  decodes it, so that it meets the renderer as the name of a field.

  `rewriting_stable_iff` says exactly which nodes are written the same again.
-/
import Mathlib.Data.List.Perm.Basic
import SeapathWebui.Inventory.RoundTrip

set_option autoImplicit false

namespace SeapathWebui.Inventory

open SeapathWebui.Foundation

/-! ## The order of the names -/

/-- The names of the fields the renderer writes for a node. -/
def writtenKeys (node : NodeConfig) : List String := (modelledVars node).map Prod.fst

/-- The order of a rewritten file: the names of the fields, then the variables that
are not modelled, then the fixed values. -/
def canonicalNames (extra : Dict String Value) : List String :=
  writtenNames ++ extra.keys.filter (fun k => k ∉ reservedNames) ++ fixedHostVarNames

theorem nodup_canonicalNames (extra : Dict String Value) : (canonicalNames extra).Nodup := by
  have hfixed : ∀ k ∈ fixedHostVarNames, k ∈ reservedNames := by decide
  have hapart : ∀ k ∈ writtenNames, k ∉ fixedHostVarNames := by decide
  have hwritten : writtenNames.Nodup := by decide
  have hextra : (extra.keys.filter fun k => k ∉ reservedNames).Nodup := extra.nodup_keys.filter _
  refine (hwritten.append hextra ?_).append nodup_fixedHostVars ?_
  · intro k hk hk'
    have hnot : k ∉ reservedNames := by simpa using (List.mem_filter.mp hk').2
    exact hnot (writtenNames_subset_reserved k hk)
  · intro k hk hk'
    rcases List.mem_append.mp hk with hk | hk
    · exact hapart k hk hk'
    · have hnot : k ∉ reservedNames := by simpa using (List.mem_filter.mp hk).2
      exact hnot (hfixed k hk')

/-- The names in the order the renderer writes them: `extra` adds its own after the
fields, and the fixed values theirs at the end. -/
theorem keys_hostVars (node : NodeConfig) :
    (hostVars node).keys = writtenKeys node ++
      node.extra.keys.filter (fun k => k ∉ writtenKeys node) ++
      fixedHostVarNames.filter fun k => k ∉ node.extra.keys := by
  have hmodelled : (Dict.ofList (modelledVars node)).keys = writtenKeys node := by
    rw [Dict.keys, Dict.entries_ofList (nodup_modelledVars node)]
    rfl
  have hfixed : fixedHostVarNames.filter (fun k =>
      k ∉ writtenKeys node ++ node.extra.keys.filter fun k => k ∉ writtenKeys node) =
      fixedHostVarNames.filter fun k => k ∉ node.extra.keys := by
    have hapart : ∀ k ∈ fixedHostVarNames, k ∉ writtenNames := by decide
    refine List.filter_congr fun k hk => ?_
    have hnot : k ∉ writtenKeys node := fun h => hapart k hk ((keys_modelledVars node).subset h)
    simp [hnot]
  unfold hostVars
  rw [Dict.keys_update _ nodup_fixedHostVars, Dict.keys_update _ node.extra.nodup, hmodelled]
  exact congrArg _ hfixed

/-! ## Steady nodes -/

/-- A value the renderer writes under this name, for some machine. -/
def Writable (k : String) (v : Value) : Prop := ∃ node, (modelledVars node).lookup k = some v

/-- Whatever `extra` has under a name that is the renderer's own, the renderer would
write itself, and there. -/
structure NodeConfig.Steady (node : NodeConfig) : Prop where
  /-- It has no value there that is not written under this name. -/
  writable : ∀ k ∈ modelledNames ++ ptpDomainAliases, ∀ v, node.extra.get? k = some v →
    Writable k v
  /-- The aliases come with the PTP domain. -/
  aliases : ∀ k ∈ ptpDomainAliases,
    (k ∈ node.extra.keys ∨ node.ptpDomainNumber.isSome) ↔
      ("ptp_domain_number" ∈ node.extra.keys ∨ node.ptpDomainNumber.isSome)
  /-- The names are in their places. -/
  order : (writtenKeys node ++ node.extra.keys.filter (fun k => k ∉ writtenKeys node) ++
    fixedHostVarNames.filter fun k => k ∉ node.extra.keys).Sublist (canonicalNames node.extra)

theorem steady_of_clear {node : NodeConfig} (h : node.Clear) : node.Steady := by
  have hown : ∀ k ∈ reservedNames, k ∉ node.extra.keys := fun k hk hmem => h k hmem hk
  refine ⟨?_, ?_, ?_⟩
  · intro k hk v hget
    have hreserved : ∀ k ∈ modelledNames ++ ptpDomainAliases, k ∈ reservedNames := by decide
    rw [Dict.get?_eq_none_iff.mpr (hown k (hreserved k hk))] at hget
    cases hget
  · intro k hk
    have hreserved : ∀ k ∈ ptpDomainAliases, k ∈ reservedNames := by decide
    simp [hown k (hreserved k hk), hown "ptp_domain_number" (by decide)]
  · have hextra : node.extra.keys.filter (fun k => k ∉ reservedNames) = node.extra.keys :=
      List.filter_eq_self.mpr fun k hk => by simpa using h k hk
    unfold canonicalNames
    rw [hextra]
    exact ((keys_modelledVars node).append List.filter_sublist).append List.filter_sublist

/-- What the written dictionary holds under the name of a field is what the renderer
writes there for some machine. -/
theorem exists_lookup_of_steady {node : NodeConfig} (h : node.Steady) {k : String}
    (hk : k ∈ modelledNames ++ ptpDomainAliases) :
    ∃ other, (node.extra.get? k).or ((modelledVars node).lookup k) =
      (modelledVars other).lookup k := by
  cases hget : node.extra.get? k with
  | none => exact ⟨node, rfl⟩
  | some v =>
      obtain ⟨other, hother⟩ := h.writable k hk v hget
      exact ⟨other, hother.symm⟩

/-- An alias is written exactly with the domain. -/
theorem lookup_modelledVars_alias (node : NodeConfig) {k : String}
    (h : k ∈ ptpDomainAliases) :
    (modelledVars node).lookup k =
      node.ptpDomainNumber.map fun _ => .str "\x7b\x7b ptp_domain_number \x7d\x7d" := by
  simp only [ptpDomainAliases, List.mem_cons, List.not_mem_nil, or_false] at h
  rcases h with rfl | rfl <;>
    simp [modelledVars, List.lookup_append, lookup_optionalVar, lookup_listVar, lookup_ptpVars,
      Dict.lookup_cons_ite, ptpDomainAliases]

section Second

variable (rt : Runtime)

/-- A field of a rendered file is read from what the written dictionary holds. -/
theorem overlaid_eq_read {α : Type} {node : NodeConfig} {k : String} (read : Option Value → α)
    {own : α} (hown : read ((modelledVars node).lookup k) = own) :
    overlaid node.extra k read own =
      read ((node.extra.get? k).or ((modelledVars node).lookup k)) := by
  unfold overlaid
  cases node.extra.get? k with
  | some v => rfl
  | none => exact hown.symm

theorem extra_of_effective {node node' : NodeConfig} (h : effective rt node = .ok node') :
    node'.extra = keptExtra node := by
  obtain ⟨converted, -, h⟩ := bind_eq_ok.mp h
  exact extra_of_construct h

theorem ptpDomainNumber_isSome_iff {node domain : NodeConfig}
    (h : (node.extra.get? "ptp_domain_number").or
      ((modelledVars node).lookup "ptp_domain_number") =
        (modelledVars domain).lookup "ptp_domain_number") :
    domain.ptpDomainNumber.isSome ↔
      ("ptp_domain_number" ∈ node.extra.keys ∨ node.ptpDomainNumber.isSome) := by
  obtain ⟨-, -, -, -, -, -, w, -⟩ := lookup_modelledVars node
  obtain ⟨-, -, -, -, -, -, w', -⟩ := lookup_modelledVars domain
  have hsome := congrArg Option.isSome h
  rw [w, w', Option.isSome_or, Option.isSome_map, Option.isSome_map] at hsome
  rw [← hsome, ← Dict.contains_iff]
  simp [Dict.contains]

/-- An alias stands in the dictionary exactly when the domain does. -/
theorem lookup_alias_of_steady {node machine : NodeConfig} (h : node.Steady)
    (hdomain : (node.extra.get? "ptp_domain_number").or
      ((modelledVars node).lookup "ptp_domain_number") =
        (modelledVars machine).lookup "ptp_domain_number")
    {k : String} (hk : k ∈ ptpDomainAliases) :
    (modelledVars machine).lookup k =
      (node.extra.get? k).or ((modelledVars node).lookup k) := by
  have hiff := (h.aliases k hk).trans (ptpDomainNumber_isSome_iff hdomain).symm
  rw [lookup_modelledVars_alias _ hk, lookup_modelledVars_alias _ hk]
  cases hget : node.extra.get? k with
  | some v =>
      have hmem : k ∈ node.extra.keys := Dict.contains_iff.mp (by simp [Dict.contains, hget])
      obtain ⟨n, hn⟩ := Option.isSome_iff_exists.mp (hiff.mp (.inl hmem))
      obtain ⟨other, hother⟩ := h.writable k (List.mem_append_right _ hk) v hget
      rw [lookup_modelledVars_alias _ hk] at hother
      obtain ⟨m, -, rfl⟩ := Option.map_eq_some_iff.mp hother
      simp [hn]
  | none =>
      have hnot : k ∉ node.extra.keys := Dict.get?_eq_none_iff.mp hget
      have hsame : machine.ptpDomainNumber.isSome = node.ptpDomainNumber.isSome := by
        rw [Bool.eq_iff_iff, ← hiff]
        simp [hnot]
      rw [Option.none_or]
      cases hn : machine.ptpDomainNumber <;> cases hm : node.ptpDomainNumber <;>
        simp [hn, hm] at hsame ⊢

/-- There is one machine of which the renderer writes all that the dictionary of a steady
node holds. -/
theorem exists_machine_of_steady {node : NodeConfig} (h : node.Steady) :
    ∃ machine : NodeConfig, ∀ k ∈ writtenNames, (modelledVars machine).lookup k =
      (node.extra.get? k).or ((modelledVars node).lookup k) := by
  -- for each field a machine that is written so
  obtain ⟨host, hhost⟩ := exists_lookup_of_steady h (k := "ansible_host") (by decide)
  obtain ⟨interface, hinterface⟩ :=
    exists_lookup_of_steady h (k := "network_interface") (by decide)
  obtain ⟨subnet, hsubnet⟩ := exists_lookup_of_steady h (k := "subnet") (by decide)
  obtain ⟨gateway, hgateway⟩ := exists_lookup_of_steady h (k := "gateway_addr") (by decide)
  obtain ⟨dns, hdns⟩ := exists_lookup_of_steady h (k := "dns_servers") (by decide)
  obtain ⟨ptp, hptp⟩ := exists_lookup_of_steady h (k := "ptp_interface") (by decide)
  obtain ⟨domain, hdomain⟩ := exists_lookup_of_steady h (k := "ptp_domain_number") (by decide)
  obtain ⟨ntp, hntp⟩ := exists_lookup_of_steady h (k := "ntp_servers") (by decide)
  obtain ⟨admin, hadmin⟩ := exists_lookup_of_steady h (k := "admin_user") (by decide)
  obtain ⟨grub, hgrub⟩ := exists_lookup_of_steady h (k := "grub_password") (by decide)
  let machine : NodeConfig :=
    { node with
      ansibleHost := host.ansibleHost
      networkInterface := interface.networkInterface
      subnet := subnet.subnet
      gatewayAddr := gateway.gatewayAddr
      dnsServers := dns.dnsServers
      ptpInterface := ptp.ptpInterface
      ptpDomainNumber := domain.ptpDomainNumber
      ntpServers := ntp.ntpServers
      adminUser := admin.adminUser
      grubPassword := grub.grubPassword }
  obtain ⟨whost, winterface, wsubnet, wgateway, wdns, wptp, wdomain, wntp, wadmin, wgrub, -⟩ :=
    lookup_modelledVars machine
  have hnumber : (modelledVars domain).lookup "ptp_domain_number" =
      (modelledVars machine).lookup "ptp_domain_number" := by
    obtain ⟨-, -, -, -, -, -, w, -⟩ := lookup_modelledVars domain
    exact w.trans wdomain.symm
  refine ⟨machine, fun k hk => ?_⟩
  simp only [writtenNames, ptpDomainAliases, List.cons_append, List.nil_append, List.mem_cons,
    List.not_mem_nil, or_false] at hk
  rcases hk with rfl | rfl | rfl | rfl | rfl | rfl | rfl | rfl | rfl | rfl | rfl | rfl
  · obtain ⟨w, -⟩ := lookup_modelledVars host
    exact whost.trans (hhost.trans w).symm
  · obtain ⟨-, w, -⟩ := lookup_modelledVars interface
    exact winterface.trans (hinterface.trans w).symm
  · obtain ⟨-, -, w, -⟩ := lookup_modelledVars subnet
    exact wsubnet.trans (hsubnet.trans w).symm
  · obtain ⟨-, -, -, w, -⟩ := lookup_modelledVars gateway
    exact wgateway.trans (hgateway.trans w).symm
  · obtain ⟨-, -, -, -, w, -⟩ := lookup_modelledVars dns
    exact wdns.trans (hdns.trans w).symm
  · obtain ⟨-, -, -, -, -, w, -⟩ := lookup_modelledVars ptp
    exact wptp.trans (hptp.trans w).symm
  · exact (hdomain.trans hnumber).symm
  · exact lookup_alias_of_steady h (hdomain.trans hnumber) (by decide)
  · exact lookup_alias_of_steady h (hdomain.trans hnumber) (by decide)
  · obtain ⟨-, -, -, -, -, -, -, w, -⟩ := lookup_modelledVars ntp
    exact wntp.trans (hntp.trans w).symm
  · obtain ⟨-, -, -, -, -, -, -, -, w, -⟩ := lookup_modelledVars admin
    exact wadmin.trans (hadmin.trans w).symm
  · obtain ⟨-, -, -, -, -, -, -, -, -, w, -⟩ := lookup_modelledVars grub
    exact wgrub.trans (hgrub.trans w).symm

/-- A normalised machine is written as it was. -/
theorem modelledVars_normalise (machine : NodeConfig) :
    modelledVars (normalise machine) = modelledVars machine := by
  have hoptional : ∀ (name : String) (value : Option String),
      optionalVar name (value.filter (· ≠ "")) = optionalVar name value := by
    intro name value
    cases value with
    | none => rfl
    | some text =>
        rw [Option.filter_some]
        by_cases htext : text = "" <;> simp [optionalVar, htext]
  simp only [modelledVars, normalise, hoptional]

/-- Nothing is written under isolcpus, so a steady `extra` has nothing there. -/
theorem isolcpus_of_steady {node : NodeConfig} (h : node.Steady) :
    node.extra.get? "isolcpus" = none := by
  cases hget : node.extra.get? "isolcpus" with
  | none => rfl
  | some v =>
      obtain ⟨other, hother⟩ := h.writable _ (by decide) v hget
      obtain ⟨-, -, -, -, -, -, -, -, -, -, hnone⟩ := lookup_modelledVars other
      rw [hnone] at hother
      cases hother

/-- The second reading of a steady node: the fields of the renderer hold again what
they held. -/
theorem effective_of_steady {node : NodeConfig} (h : node.Steady) :
    ∃ node', effective rt node = .ok node' ∧
      (∀ k ∈ writtenNames, (modelledVars node').lookup k =
        (node.extra.get? k).or ((modelledVars node).lookup k)) ∧
      node'.isolcpus = node.isolcpus.filter (· ≠ "") := by
  obtain ⟨machine, hmachine⟩ := exists_machine_of_steady h
  let node' : NodeConfig :=
    { normalise machine with
      isolcpus := node.isolcpus.filter (· ≠ "")
      extra := keptExtra node }
  refine ⟨node', ?_, fun k hk => ?_, rfl⟩
  · have hoverlay : overlay rt node = .ok node'.converted := by
      obtain ⟨rhost, rinterface, rsubnet, rgateway, rdns, rptp, rdomain, rntp, radmin, rgrub⟩ :=
        read_modelledVars rt node
      obtain ⟨whost, winterface, wsubnet, wgateway, wdns, wptp, wdomain, wntp, wadmin, wgrub⟩ :=
        read_modelledVars rt machine
      unfold overlay
      simp only [overlaid_eq_read _ rhost, overlaid_eq_read _ rinterface,
        overlaid_eq_read _ rsubnet, overlaid_eq_read _ rgateway, overlaid_eq_read _ rdns,
        overlaid_eq_read _ rptp, overlaid_eq_read _ rdomain, overlaid_eq_read _ rntp,
        overlaid_eq_read _ radmin, overlaid_eq_read _ rgrub]
      rw [← hmachine _ (by decide), ← hmachine _ (by decide), ← hmachine _ (by decide),
        ← hmachine _ (by decide), ← hmachine _ (by decide), ← hmachine _ (by decide),
        ← hmachine _ (by decide), ← hmachine _ (by decide), ← hmachine _ (by decide),
        ← hmachine _ (by decide), whost, winterface, wsubnet, wgateway, wdns, wptp, wdomain,
        wntp, wadmin, wgrub]
      simp only [overlaid, isolcpus_of_steady h]
      rfl
    unfold effective
    rw [hoverlay]
    exact construct_converted node' .hypervisor (keptExtra node)
  · rw [← hmachine k hk, ← modelledVars_normalise machine]
    rfl

/-- What the dictionary of a second write holds. -/
theorem get?_hostVars_second {node node' : NodeConfig}
    (hextra : node'.extra = keptExtra node) (k : String) :
    (hostVars node').get? k = (fixedHostVars.lookup k).or
      (if k ∈ reservedNames then (modelledVars node').lookup k else node.extra.get? k) := by
  rw [get?_hostVars, Option.or_assoc, hextra, keptExtra, Dict.get?_filterKeys]
  by_cases hk : k ∈ reservedNames
  · simp [hk]
  · have hnone : (modelledVars node').lookup k = none := by
      refine Dict.lookup_eq_none_iff_not_mem.mpr fun hmem => hk ?_
      exact writtenNames_subset_reserved k ((keys_modelledVars node').subset hmem)
    simp [hk, hnone]

/-- The names of a second write are in the canonical order. -/
theorem keys_hostVars_second {node node' : NodeConfig}
    (hextra : node'.extra = keptExtra node) :
    (hostVars node').keys.Sublist (canonicalNames node.extra) := by
  have hkeys : node'.extra.keys = node.extra.keys.filter fun k => k ∉ reservedNames := by
    rw [hextra]
    unfold keptExtra Dict.keys Dict.filterKeys
    rw [List.filter_map]
    rfl
  rw [keys_hostVars, hkeys]
  exact ((keys_modelledVars node').append List.filter_sublist).append List.filter_sublist

/-- Steady is enough: the second write holds the same, in the same order. -/
theorem hostVars_of_steady {node node' : NodeConfig} (h : node.Steady)
    (hextra : node'.extra = keptExtra node)
    (hfields : ∀ k ∈ writtenNames, (modelledVars node').lookup k =
      (node.extra.get? k).or ((modelledVars node).lookup k)) :
    hostVars node' = hostVars node := by
  have hget : ∀ k, (hostVars node').get? k = (hostVars node).get? k := by
    intro k
    rw [get?_hostVars_second hextra, get?_hostVars, Option.or_assoc]
    by_cases hfixed : k ∈ fixedHostVarNames
    · cases hlookup : fixedHostVars.lookup k with
      | none => exact (Dict.lookup_eq_none_iff_not_mem.mp hlookup hfixed).elim
      | some v => rfl
    · refine congrArg _ ?_
      by_cases hwritten : k ∈ writtenNames
      · rw [if_pos (writtenNames_subset_reserved k hwritten), hfields k hwritten]
      · have hnone : ∀ other, (modelledVars other).lookup k = none := fun other =>
          Dict.lookup_eq_none_iff_not_mem.mpr fun hmem =>
            hwritten ((keys_modelledVars other).subset hmem)
        rw [hnone, hnone, Option.or_none]
        split
        · -- isolcpus, the one field that is written elsewhere
          rename_i hreserved
          have hisolcpus : ∀ k ∈ reservedNames, k ∉ fixedHostVarNames → k ∉ writtenNames →
              k ∈ modelledNames ++ ptpDomainAliases := by decide
          cases hv : node.extra.get? k with
          | none => rfl
          | some v =>
              obtain ⟨other, hother⟩ :=
                h.writable k (hisolcpus k hreserved hfixed hwritten) v hv
              rw [hnone] at hother
              cases hother
        · rfl
  refine Dict.ext_of_get? ?_ hget
  have horder : (hostVars node).keys.Sublist (canonicalNames node.extra) := by
    rw [keys_hostVars]
    exact h.order
  refine (List.Nodup.perm_iff_eq_of_sublist (nodup_canonicalNames node.extra)
    (keys_hostVars_second hextra) horder).mp ?_
  refine (List.perm_ext_iff_of_nodup (Dict.nodup_keys _) (Dict.nodup_keys _)).mpr fun k => ?_
  rw [← Dict.contains_iff, ← Dict.contains_iff, Dict.contains, Dict.contains, hget]

/-- And necessary. -/
theorem steady_of_hostVars {node node' : NodeConfig}
    (hextra : node'.extra = keptExtra node)
    (h : hostVars node' = hostVars node) : node.Steady := by
  have hget : ∀ k ∈ modelledNames ++ ptpDomainAliases, (modelledVars node').lookup k =
      (node.extra.get? k).or ((modelledVars node).lookup k) := by
    intro k hk
    have hreserved : ∀ k ∈ modelledNames ++ ptpDomainAliases,
        k ∈ reservedNames ∧ k ∉ fixedHostVarNames := by decide
    have hsecond := get?_hostVars_second hextra k
    rw [h, get?_hostVars_modelled (hreserved k hk).2, if_pos (hreserved k hk).1,
      Dict.lookup_eq_none_iff_not_mem.mpr (hreserved k hk).2, Option.none_or] at hsecond
    exact hsecond.symm
  refine ⟨?_, ?_, ?_⟩
  · intro k hk v hv
    refine ⟨node', ?_⟩
    rw [hget k hk, hv]
    rfl
  · intro k hk
    have hdomain := ptpDomainNumber_isSome_iff (hget "ptp_domain_number" (by decide)).symm
    have hk' := congrArg Option.isSome (hget k (List.mem_append_right _ hk))
    rw [lookup_modelledVars_alias _ hk, lookup_modelledVars_alias _ hk, Option.isSome_map,
      Option.isSome_or, Option.isSome_map] at hk'
    rw [← hdomain, hk', ← Dict.contains_iff]
    simp [Dict.contains]
  · rw [← keys_hostVars, ← h]
    exact keys_hostVars_second hextra

/-- A rendered document says what it says of each host. -/
theorem hostVars_eq_of_document {inventory inventory' : Inventory} {name name' : String}
    {node node' : NodeConfig} (hhosts : inventory.hosts.entries = [(name, node)])
    (hhosts' : inventory'.hosts.entries = [(name', node')])
    (h : standaloneDocument inventory' = standaloneDocument inventory) :
    hostVars node' = hostVars node := by
  simp only [standaloneDocument, hostsVars, hhosts, hhosts', List.map_cons, List.map_nil,
    Value.map.injEq, List.cons.injEq, Prod.mk.injEq, Value.ofDict] at h
  obtain ⟨⟨-, ⟨-, ⟨-, hentries⟩, -⟩, -⟩, -⟩ := h
  have hinjective : Function.Injective fun e : String × Value => (Scalar.str e.1, e.2) := by
    rintro ⟨k, v⟩ ⟨k', v'⟩ heq
    simpa using heq
  exact Dict.ext (List.map_injective_iff.mpr hinjective hentries)

/-- And everything it says comes from the variables and from isolcpus. -/
theorem standaloneDocument_eq {inventory inventory' : Inventory} {name : String}
    {node node' : NodeConfig} (hhosts : inventory.hosts.entries = [(name, node)])
    (hhosts' : inventory'.hosts.entries = [(name, node')])
    (hvars : hostVars node' = hostVars node)
    (hisolcpus : node'.isolcpus.filter (· ≠ "") = node.isolcpus.filter (· ≠ "")) :
    standaloneDocument inventory' = standaloneDocument inventory := by
  have hsets : isolatedSets inventory' = isolatedSets inventory := by
    rw [isolatedSets_single hhosts, isolatedSets_single hhosts', hisolcpus]
  have hnames : inventory'.hostNames = inventory.hostNames := by
    simp [Inventory.hostNames, Dict.keys, hhosts, hhosts']
  -- whatever the role, the group names the one host
  have hgroup : ∀ {inv : Inventory} {n : NodeConfig}, inv.hosts.entries = [(name, n)] →
      (if inv.hypervisors = [] then inv.hostNames else inv.hypervisors) = [name] := by
    intro inv n hentries
    cases hrole : n.role <;>
      simp [Inventory.hypervisors, Inventory.hostNames, Dict.keys, hentries, hrole]
  have hisolated : groupWithIsolcpus inventory' = groupWithIsolcpus inventory := by
    unfold groupWithIsolcpus
    rw [hsets, hgroup hhosts, hgroup hhosts']
  unfold standaloneDocument hostsVars
  rw [hisolated, hnames, hhosts, hhosts', List.map_cons, List.map_cons, hvars]

/-- The next write of what is read back from a write is the same text. -/
def RewritesAlike (inventory : Inventory) : Prop :=
  ∃ text, render rt inventory = .ok text ∧
    ∃ inventory', parse rt text = .ok inventory' ∧ render rt inventory' = .ok text

/-- One node, written twice. -/
theorem rewritesAlike_iff {inventory : Inventory} {name : String} {node : NodeConfig}
    (hmode : inventory.mode = .standalone) (hhosts : inventory.hosts.entries = [(name, node)])
    (hyaml : ReadsBack rt (standaloneDocument inventory))
    (hyaml' : ∀ inventory',
      parse rt (documentText rt (standaloneDocument inventory)) = .ok inventory' →
        ReadsBack rt (standaloneDocument inventory')) :
    RewritesAlike rt inventory ↔ node.Steady := by
  have hparse := parse_documentText rt hhosts hyaml
  have hrender := render_standalone rt hmode
  constructor
  · rintro ⟨text, htext, inventory', hread, hagain⟩
    obtain rfl := Except.ok.inj (hrender.symm.trans htext)
    have hyaml' := hyaml' inventory' hread
    rw [hparse] at hread
    cases heffective : effective rt node with
    | error e =>
        rw [heffective] at hread
        cases hread
    | ok node' =>
        rw [heffective] at hread
        obtain rfl := Except.ok.inj hread
        have hdocument := document_eq_of_text rt hyaml hyaml' (Except.ok.inj hagain)
        have hvars := hostVars_eq_of_document hhosts rfl hdocument
        exact steady_of_hostVars (extra_of_effective rt heffective) hvars
  · intro hsteady
    obtain ⟨node', heffective, hfields, hisolcpus⟩ := effective_of_steady rt hsteady
    rw [heffective] at hparse
    refine ⟨_, hrender, _, hparse, ?_⟩
    have hvars := hostVars_of_steady hsteady (extra_of_effective rt heffective) hfields
    have hdocument : standaloneDocument (singleHost name node') = standaloneDocument inventory := by
      refine standaloneDocument_eq hhosts rfl hvars ?_
      rw [hisolcpus, Option.filter_filter]
      simp
    exact congrArg (fun d => Except.ok (documentText rt d)) hdocument

/-! ## The keys of the document -/

/-- The keys of the variables a host is given. -/
def keysOfHost (raw : Value) : List Scalar :=
  match hostVariables raw with
  | .error _ => []
  | .ok vars => vars.keys

/-- The keys of the variables a document gives its hosts. -/
def variableKeys (document : String) : List Scalar :=
  match rt.safeLoad document with
  | .error _ => []
  | .ok loaded =>
      match loaded.asDict with
      | none => []
      | some groups =>
          (groupHosts (groups.get? (.str "all"))).entries.flatMap fun e => keysOfHost e.2

/-- A name of `extra` is read from a key `_node` leaves to it. -/
theorem exists_key_of_mem_extra {vars : Dict Scalar Value} {isObserver : Bool}
    {groupIsolcpus : Option Value} {config : NodeConfig}
    (h : Inventory.node rt vars isObserver groupIsolcpus = .ok config) {k : String}
    (hk : k ∈ config.extra.keys) :
    ∃ key ∈ vars.keys, isExtra key = true ∧ keyText key = some k := by
  obtain ⟨pairs, hpairs, hdict⟩ := bind_eq_ok.mp (extra_of_node rt h)
  rw [← Except.ok.inj hdict] at hk
  obtain ⟨e, he, rfl⟩ := List.mem_map.mp hk
  obtain ⟨⟨key, value⟩, hentry, htext⟩ := mem_of_mapM_eq_ok hpairs e (Dict.mem_of_mem_ofList he)
  have hkey : key ∈ (vars.filterKeys isExtra).keys := List.mem_map_of_mem (f := Prod.fst) hentry
  exact ⟨key, (Dict.mem_keys_filterKeys.mp hkey).1, (Dict.mem_keys_filterKeys.mp hkey).2,
    (textEntry_eq_ok htext).1⟩

/-- A host of a parsed inventory, where it is read from. -/
theorem exists_host_of_parse {document : String} {inventory : Inventory}
    (h : parse rt document = .ok inventory) {e : String × NodeConfig}
    (he : e ∈ inventory.hosts.entries) :
    ∃ loaded groups key raw vars isObserver groupIsolcpus, rt.safeLoad document = .ok loaded ∧
      loaded.asDict = some groups ∧ (key, raw) ∈ (groupHosts (groups.get? (.str "all"))).entries ∧
      hostVariables raw = .ok vars ∧
      Inventory.node rt vars isObserver groupIsolcpus = .ok e.2 := by
  obtain ⟨loaded, groups, parsed, hload, hgroups, hparsed, hhosts, -⟩ := parse_eq_ok rt h
  obtain ⟨pairs, hpairs, hdict⟩ := bind_eq_ok.mp hhosts
  rw [← Except.ok.inj hdict] at he
  obtain ⟨⟨key, config⟩, hentry, htext⟩ := mem_of_mapM_eq_ok hpairs e (Dict.mem_of_mem_ofList he)
  obtain ⟨⟨key', raw⟩, hraw, hread⟩ := mem_of_mapM_eq_ok hparsed _ hentry
  obtain ⟨-, vars, hvars, hnode⟩ := read_of_hostNode rt hread
  obtain ⟨-, heq⟩ := textEntry_eq_ok htext
  exact ⟨loaded, groups, key', raw, vars, _, _, hload, hgroups, hraw, hvars, heq ▸ hnode⟩

/-- Where no other key is read as a name of the renderer's, `extra` is clear. -/
theorem clear_of_parse {document : String} {inventory : Inventory}
    (h : parse rt document = .ok inventory)
    (hkeys : ∀ key ∈ variableKeys rt document, ∀ k ∈ reservedNames, keyText key = some k →
      key = .str k) {e : String × NodeConfig} (he : e ∈ inventory.hosts.entries) : e.2.Clear := by
  intro k hk hreserved
  obtain ⟨loaded, groups, name, raw, vars, _, _, hload, hgroups, hraw, hvars, hnode⟩ :=
    exists_host_of_parse rt h he
  obtain ⟨key, hkey, hextra, htext⟩ := exists_key_of_mem_extra rt hnode hk
  have hmem : key ∈ variableKeys rt document := by
    simp only [variableKeys, hload, hgroups]
    refine List.mem_flatMap.mpr ⟨_, hraw, ?_⟩
    simpa only [keysOfHost, hvars] using hkey
  obtain rfl := hkeys key hmem k hreserved htext
  simp [isExtra, hreserved] at hextra

/-- The second write of a parsed inventory of one host is the same text exactly if
its node is steady; and it is, where the document gives the host no variable under a
key that is no text and is read as a name of the renderer's own. -/
theorem rewriting_stable_iff {document : String} {inventory : Inventory} {name : String}
    {node : NodeConfig} (hparse : parse rt document = .ok inventory)
    (hmode : inventory.mode = .standalone) (hhosts : inventory.hosts.entries = [(name, node)])
    (hyaml : ReadsBack rt (standaloneDocument inventory))
    (hyaml' : ∀ inventory',
      parse rt (documentText rt (standaloneDocument inventory)) = .ok inventory' →
        ReadsBack rt (standaloneDocument inventory')) :
    (RewritesAlike rt inventory ↔ node.Steady) ∧
      ((∀ key ∈ variableKeys rt document, ∀ k ∈ reservedNames, keyText key = some k →
        key = .str k) → node.Steady) := by
  refine ⟨rewritesAlike_iff rt hmode hhosts hyaml hyaml', fun hkeys => ?_⟩
  have hclear := clear_of_parse rt hparse hkeys (e := (name, node)) (by simp [hhosts])
  exact steady_of_clear hclear

end Second

/-- The library, knowing the reference inventory. -/
def referenceRuntime : Runtime :=
  knowing [(standaloneDocument (singleHost "seapath-machine" reference), referenceText)]

theorem rewriting_stable_iff_reference :
    (RewritesAlike referenceRuntime (singleHost "seapath-machine" reference) ↔
      reference.Steady) ∧
    ((∀ key ∈ variableKeys referenceRuntime
        (documentText referenceRuntime
          (standaloneDocument (singleHost "seapath-machine" reference))),
      ∀ k ∈ reservedNames, keyText key = some k → key = .str k) → reference.Steady) := by
  have hyaml : ReadsBack referenceRuntime
      (standaloneDocument (singleHost "seapath-machine" reference)) := readsBack_knowing _ _
  have hparse := parse_documentText_of_sayable referenceRuntime rfl rfl sayable_reference hyaml
  refine rewriting_stable_iff referenceRuntime hparse rfl rfl hyaml fun inventory' h => ?_
  obtain rfl := Except.ok.inj (hparse.symm.trans h)
  exact hyaml

/-! ### A variable whose key is bytes -/

/-- A hand written inventory: the host has a variable `!!binary c3VibmV0`. -/
def binaryKeyed : Value :=
  .map [(.str "all", .map [(.str "hosts", .map [(.str "node",
    .map [(.str "ansible_host", .str "10.0.0.5"),
      (.str "network_interface", .str "eno1"),
      (.bytes "subnet".toUTF8.toList, .str "12")])])])]

def binaryKeyedText : String :=
  "all:\n" ++
  "  hosts:\n" ++
  "    node:\n" ++
  "      ansible_host: 10.0.0.5\n" ++
  "      network_interface: eno1\n" ++
  "      !!binary c3VibmV0: '12'\n"

/-- What it is read as. -/
def firstReading : NodeConfig where
  ansibleHost := "10.0.0.5"
  networkInterface := "eno1"
  extra := Dict.ofList [("subnet", .str "12")]

/-- What its first write is read as. -/
def secondReading : NodeConfig where
  ansibleHost := "10.0.0.5"
  networkInterface := "eno1"
  subnet := ⟨12, by decide⟩

/-- The file of either reading, with the text the prefix length is dumped as. -/
def readingText (subnet : String) : String :=
  "all:\n" ++
  "  hosts:\n" ++
  "    node:\n" ++
  "      ansible_host: 10.0.0.5\n" ++
  "      network_interface: eno1\n" ++
  "      subnet: " ++ subnet ++ "\n" ++
  fixedLines ++
  "standalone_machine:\n" ++
  "  hosts:\n" ++
  "    node: null\n" ++
  "hypervisors:\n" ++
  "  hosts:\n" ++
  "    node: null\n" ++
  "cluster_machines: null\n" ++
  "observers: null\n"

/-- The library, knowing the three files. -/
def binaryKeyedRuntime : Runtime :=
  knowing [(binaryKeyed, binaryKeyedText),
    (standaloneDocument (singleHost "node" firstReading), readingText "'12'"),
    (standaloneDocument (singleHost "node" secondReading), readingText "12")]

theorem beginsWithAll_readingText (subnet : String) : BeginsWithAll (readingText subnet) := by
  unfold readingText
  simp only [String.append_assoc]
  exact ⟨_, rfl⟩

theorem beginsWithAll_binaryKeyedRuntime :
    ∀ e ∈ [(binaryKeyed, binaryKeyedText),
      (standaloneDocument (singleHost "node" firstReading), readingText "'12'"),
      (standaloneDocument (singleHost "node" secondReading), readingText "12")],
      BeginsWithAll e.2 := by
  simp only [List.forall_mem_cons]
  refine ⟨?_, beginsWithAll_readingText _, beginsWithAll_readingText _, nofun⟩
  unfold binaryKeyedText
  simp only [String.append_assoc]
  exact ⟨_, rfl⟩

theorem readsBack_firstReading :
    ReadsBack binaryKeyedRuntime (standaloneDocument (singleHost "node" firstReading)) := by
  have hdump : binaryKeyedRuntime.dump (standaloneDocument (singleHost "node" firstReading)) =
      readingText "'12'" := by decide +kernel
  have hload : binaryKeyedRuntime.safeLoad (readingText "'12'") =
      .ok (standaloneDocument (singleHost "node" firstReading)) := by decide +kernel
  exact readsBack_knowing_of_dump rfl hdump hload (beginsWithAll_readingText _)
    beginsWithAll_binaryKeyedRuntime

theorem readsBack_secondReading :
    ReadsBack binaryKeyedRuntime (standaloneDocument (singleHost "node" secondReading)) := by
  have hdump : binaryKeyedRuntime.dump (standaloneDocument (singleHost "node" secondReading)) =
      readingText "12" := by decide +kernel
  have hload : binaryKeyedRuntime.safeLoad (readingText "12") =
      .ok (standaloneDocument (singleHost "node" secondReading)) := by decide +kernel
  exact readsBack_knowing_of_dump rfl hdump hload (beginsWithAll_readingText _)
    beginsWithAll_binaryKeyedRuntime

/-- Its first write holds the prefix length as a text, its second as a number. -/
theorem rewriting_can_differ :
    parse binaryKeyedRuntime binaryKeyedText = .ok (singleHost "node" firstReading) ∧
    ReadsBack binaryKeyedRuntime (standaloneDocument (singleHost "node" firstReading)) ∧
    (∀ inventory', parse binaryKeyedRuntime (documentText binaryKeyedRuntime
        (standaloneDocument (singleHost "node" firstReading))) = .ok inventory' →
      ReadsBack binaryKeyedRuntime (standaloneDocument inventory')) ∧
    ¬ RewritesAlike binaryKeyedRuntime (singleHost "node" firstReading) := by
  have hread : effective binaryKeyedRuntime firstReading = .ok secondReading := by decide +kernel
  have hparse := parse_documentText binaryKeyedRuntime rfl readsBack_firstReading
  rw [hread] at hparse
  refine ⟨by decide +kernel, readsBack_firstReading, ?_, ?_⟩
  · intro inventory' h
    obtain rfl := Except.ok.inj (hparse.symm.trans h)
    exact readsBack_secondReading
  · rintro ⟨text, htext, inventory', h, hagain⟩
    obtain rfl := Except.ok.inj htext
    obtain rfl := Except.ok.inj (hparse.symm.trans h)
    have hdocument := document_eq_of_text binaryKeyedRuntime readsBack_firstReading
      readsBack_secondReading (Except.ok.inj hagain)
    exact absurd hdocument (by decide +kernel)

end SeapathWebui.Inventory
