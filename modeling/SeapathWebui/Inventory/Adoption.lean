/-
  Inventory/Adoption.lean --- what a hand written inventory keeps when it is adopted.

  The first save through the forms rewrites the file: what is written is
  `render` of what `parse` read.  For the playbooks nothing may change, so the
  measure is the value the configuration manager resolves for a variable on a
  host: the host's own, else one of a group it belongs to, else one of `all`.  A
  host has variables of its own in the mapping under its name in any group.

  The first section is that reading of a document, and names nothing of this
  service.  Which hosts a key names (`names`), and which of several values wins
  (`Precedence`), is the configuration manager's business, and a parameter here.
-/
import SeapathWebui.Inventory.Stability

set_option autoImplicit false

namespace SeapathWebui.Inventory

open SeapathWebui.Foundation

/-! ## The variables of a host -/

/-- The group every host is in. -/
def allGroup (loaded : Value) : Option Value := loaded.asDict.bind (·.get? (.str "all"))

/-- A variable of every host. -/
def allVariable (loaded : Value) (name : String) : Option Value :=
  (groupVars (allGroup loaded)).get? (.str name)

/-- The document says something of the group `key`, on its own or as a child of
another.  It may do so in several places. -/
inductive Mentions (loaded : Value) : Scalar → Value → Prop
  | top {groups : Dict Scalar Value} {key : Scalar} {group : Value} :
      loaded.asDict = some groups → groups.get? key = some group → Mentions loaded key group
  | child {parent key : Scalar} {group sub : Value} : Mentions loaded parent group →
      (groupMapping "children" (some group)).get? key = some sub → Mentions loaded key sub

section Names

variable (names : Scalar → String → Prop)

/-- The group has a key for the host, and under it the variable. -/
def Gives (group : Option Value) (host name : String) (v : Value) : Prop :=
  ∃ key raw vars, (groupHosts group).get? key = some raw ∧ names key host ∧
    hostVariables raw = .ok vars ∧ vars.get? (.str name) = some v

/-- A variable of the host itself: any group may give it one. -/
def HostVariable (loaded : Value) (host name : String) (v : Value) : Prop :=
  ∃ key group, Mentions loaded key group ∧ Gives names (some group) host name v

/-- The host belongs to the group `key`, or to a child of it. -/
inductive BelongsTo (loaded : Value) (host : String) : Scalar → Prop
  | own {key pattern : Scalar} {group raw : Value} : Mentions loaded key group →
      (groupHosts (some group)).get? pattern = some raw → names pattern host →
      BelongsTo loaded host key
  | child {key sub : Scalar} {group body : Value} : Mentions loaded key group →
      (groupMapping "children" (some group)).get? sub = some body →
      BelongsTo loaded host sub → BelongsTo loaded host key

/-- A variable of a group the host belongs to. -/
def GroupVariable (loaded : Value) (host name : String) (v : Value) : Prop :=
  ∃ key group, key ≠ .str "all" ∧ BelongsTo names loaded host key ∧ Mentions loaded key group ∧
    (groupVars (some group)).get? (.str name) = some v

/-- Which of the values that a host is given wins, of its own and of its groups': one of them,
where there is one. -/
structure Precedence where
  own : Value → String → String → Option Value
  ownSound : ∀ {loaded : Value} {host name : String} {v : Value},
    own loaded host name = some v → HostVariable names loaded host name v
  ownComplete : ∀ {loaded : Value} {host name : String} {v : Value},
    HostVariable names loaded host name v → own loaded host name ≠ none
  winner : Value → String → String → Option Value
  sound : ∀ {loaded : Value} {host name : String} {v : Value},
    winner loaded host name = some v → GroupVariable names loaded host name v
  complete : ∀ {loaded : Value} {host name : String} {v : Value},
    GroupVariable names loaded host name v → winner loaded host name ≠ none

variable {names} (p : Precedence names)

/-- The value of a variable on a host. -/
def resolve (loaded : Value) (host name : String) : Option Value :=
  (p.own loaded host name).or ((p.winner loaded host name).or (allVariable loaded name))

variable {loaded : Value} {host name : String} {v : Value}

/-- Of the values a host is given, if there is one, that is the one that wins. -/
theorem Precedence.own_eq_some (h : ∀ w, HostVariable names loaded host name w ↔ w = v) :
    p.own loaded host name = some v := by
  cases hown : p.own loaded host name with
  | none => exact (p.ownComplete ((h v).mpr rfl) hown).elim
  | some w => rw [(h w).mp (p.ownSound hown)]

theorem Precedence.own_eq_none (h : ∀ w, ¬ HostVariable names loaded host name w) :
    p.own loaded host name = none := by
  cases hown : p.own loaded host name with
  | none => rfl
  | some w => exact (h w (p.ownSound hown)).elim

variable (loaded host name)

/-- The host's own value that wins is the one that `all` gives it. -/
def OwnInAll : Prop :=
  ∃ v, p.own loaded host name = some v ∧
    ∀ w, Gives names (allGroup loaded) host name w ↔ w = v

variable {loaded host name}

/-- What `all` gives a host is its own. -/
theorem hostVariable_of_gives (h : Gives names (allGroup loaded) host name v) :
    HostVariable names loaded host name v := by
  cases hgroup : allGroup loaded with
  | none =>
      rw [hgroup] at h
      obtain ⟨_, _, _, hraw, -⟩ := h
      cases hraw
  | some group =>
      obtain ⟨groups, hgroups, hget⟩ := Option.bind_eq_some_iff.mp hgroup
      exact ⟨_, group, .top hgroups hget, hgroup ▸ h⟩

end Names

/-- Some value of which it is true. -/
noncomputable def someValue (P : Value → Prop) : Option Value := by
  classical exact if h : ∃ v, P v then some h.choose else none

theorem of_someValue {P : Value → Prop} {v : Value} (h : someValue P = some v) : P v := by
  unfold someValue at h
  split at h
  · rename_i hexists
    exact Option.some.inj h ▸ hexists.choose_spec
  · cases h

theorem someValue_ne_none {P : Value → Prop} {v : Value} (h : P v) : someValue P ≠ none := by
  rw [someValue, dif_pos ⟨v, h⟩]
  exact Option.some_ne_none _

/-- A plain name names itself. -/
def plainNames (key : Scalar) (host : String) : Prop := key = .str host

/-- Some precedence. -/
noncomputable def Precedence.any : Precedence plainNames where
  own loaded host name := someValue (HostVariable _ loaded host name)
  ownSound h := of_someValue h
  ownComplete h := someValue_ne_none h
  winner loaded host name := someValue (GroupVariable _ loaded host name)
  sound h := of_someValue h
  complete h := someValue_ne_none h

/-! ## The variables of a rendered document -/

theorem groupWithIsolcpus_eq (inventory : Inventory) :
    ∃ hosts, groupWithIsolcpus inventory = .map [(.str "hosts", hostSet hosts)] ∨
      ∃ isolated, groupWithIsolcpus inventory =
        .map [(.str "hosts", hostSet hosts),
          (.str "vars", .map [(.str "isolcpus", .str isolated)])] := by
  refine ⟨if inventory.hypervisors = [] then inventory.hostNames else inventory.hypervisors, ?_⟩
  simp only [groupWithIsolcpus]
  rcases isolatedSets inventory with _ | ⟨isolated, _ | _⟩
  · exact Or.inl rfl
  · exact Or.inr ⟨isolated, rfl⟩
  · exact Or.inl rfl

/-- A group at the top of a rendered document. -/
def TopGroup (inventory : Inventory) (key : Scalar) (group : Value) : Prop :=
  key = .str "all" ∧ group = .map [(.str "hosts", hostsVars inventory)] ∨
    key = .str "standalone_machine" ∧ group = .map [(.str "hosts", hostSet inventory.hostNames)] ∨
    key = .str "hypervisors" ∧ group = groupWithIsolcpus inventory ∨ group = .null

theorem childless_of_topGroup {inventory : Inventory} {key : Scalar} {group : Value}
    (h : TopGroup inventory key group) : groupMapping "children" (some group) = ∅ := by
  rcases h with ⟨-, rfl⟩ | ⟨-, rfl⟩ | ⟨-, rfl⟩ | rfl
  · rfl
  · rfl
  · obtain ⟨hosts, hgroup | ⟨isolated, hgroup⟩⟩ := groupWithIsolcpus_eq inventory
    · rw [hgroup]
      rfl
    · rw [hgroup]
      rfl
  · rfl

/-- The groups of a rendered document are those at its top, none a child of another. -/
theorem topGroup_of_mentions {inventory : Inventory} {key : Scalar} {group : Value}
    (h : Mentions (standaloneDocument inventory) key group) : TopGroup inventory key group := by
  induction h with
  | top hgroups hget =>
      obtain rfl := Option.some.inj hgroups
      have hmem := Dict.mem_of_mem_ofList (Dict.mem_entries_iff.mpr hget)
      simp only [List.mem_cons, Prod.mk.injEq, List.not_mem_nil, or_false] at hmem
      rcases hmem with hall | hmachine | hhypervisors | ⟨-, hnull⟩ | ⟨-, hnull⟩
      · exact .inl hall
      · exact .inr (.inl hmachine)
      · exact .inr (.inr (.inl hhypervisors))
      · exact .inr (.inr (.inr hnull))
      · exact .inr (.inr (.inr hnull))
  | child _ hget ih =>
      rw [childless_of_topGroup ih] at hget
      cases hget

/-- No group of a rendered document has children. -/
theorem childless_standaloneDocument {inventory : Inventory} {key : Scalar} {group : Value}
    (h : Mentions (standaloneDocument inventory) key group) :
    groupMapping "children" (some group) = ∅ := childless_of_topGroup (topGroup_of_mentions h)

/-- No group of a rendered document has a variable but isolcpus. -/
theorem groupVars_standaloneDocument {inventory : Inventory} {key : Scalar} {group : Value}
    (h : Mentions (standaloneDocument inventory) key group) {name : String}
    (hname : name ≠ "isolcpus") : (groupVars (some group)).get? (.str name) = none := by
  rcases topGroup_of_mentions h with ⟨-, rfl⟩ | ⟨-, rfl⟩ | ⟨-, rfl⟩ | rfl
  · rfl
  · rfl
  · obtain ⟨hosts, hgroup | ⟨isolated, hgroup⟩⟩ := groupWithIsolcpus_eq inventory
    · rw [hgroup]
      rfl
    · rw [hgroup]
      exact Dict.get?_set_of_ne ∅ _ fun heq => hname (Scalar.str.inj heq).symm
  · rfl

/-- A set of hosts gives them no variable. -/
theorem not_gives_hostSet {names : Scalar → String → Prop} {group : Option Value}
    {members : List String} {host name : String} {v : Value}
    (h : groupHosts group = Dict.ofList (members.map fun name => (.str name, .null))) :
    ¬ Gives names group host name v := by
  rintro ⟨key, raw, vars, hraw, -, hvars, hget⟩
  rw [h] at hraw
  obtain ⟨name', -, heq⟩ :=
    List.mem_map.mp (Dict.mem_of_mem_ofList (Dict.mem_entries_iff.mpr hraw))
  obtain ⟨-, rfl⟩ := Prod.mk.inj heq
  obtain rfl := Except.ok.inj hvars
  cases hget

/-- The variables under a key of `all` are those `_host_vars` wrote for it. -/
theorem gives_hostsVars {names : Scalar → String → Prop} {inventory : Inventory}
    {host name : String} {v : Value} :
    Gives names (some (.map [(.str "hosts", hostsVars inventory)])) host name v ↔
      ∃ key node, inventory.hosts.get? key = some node ∧ names (.str key) host ∧
        (hostVars node).get? name = some v := by
  let written (node : NodeConfig) : Value := .ofDict (hostVars node)
  have hhosts : groupHosts (some (.map [(.str "hosts", hostsVars inventory)])) =
      Dict.ofList (inventory.hosts.entries.map fun e => (.str e.1, written e.2)) := rfl
  have hnodup := Scalar.nodup_map_str written inventory.hosts
  constructor
  · rintro ⟨key, raw, vars, hraw, hname, hvars, hget⟩
    rw [hhosts] at hraw
    obtain ⟨⟨key, node⟩, hmem, heq⟩ :=
      List.mem_map.mp (Dict.mem_of_mem_ofList (Dict.mem_entries_iff.mpr hraw))
    obtain ⟨rfl, rfl⟩ := Prod.mk.inj heq
    obtain ⟨vars', hvars', hloaded⟩ := hostVariables_ofDict (entries_hostVars_ne_nil node)
    obtain rfl := Except.ok.inj (hvars'.symm.trans hvars)
    exact ⟨key, node, Dict.mem_entries_iff.mp hmem, hname, hloaded.get? name ▸ hget⟩
  · rintro ⟨key, node, hnode, hname, hget⟩
    obtain ⟨vars, hvars, hloaded⟩ := hostVariables_ofDict (entries_hostVars_ne_nil node)
    refine ⟨.str key, written node, vars, ?_, hname, hvars, (hloaded.get? name).trans hget⟩
    have hlookup := Scalar.lookup_map_str written inventory.hosts.entries key
    rw [hhosts, Dict.get?_ofList hnodup, hlookup]
    exact congrArg (Option.map written) hnode

/-- No host of a rendered document has a variable but under a key of `all`. -/
theorem hostVariable_standaloneDocument {names : Scalar → String → Prop} {inventory : Inventory}
    {host name : String} {v : Value} :
    HostVariable names (standaloneDocument inventory) host name v ↔
      ∃ key node, inventory.hosts.get? key = some node ∧ names (.str key) host ∧
        (hostVars node).get? name = some v := by
  rw [← gives_hostsVars]
  constructor
  · rintro ⟨key, group, hmention, hgives⟩
    rcases topGroup_of_mentions hmention with ⟨-, rfl⟩ | ⟨-, rfl⟩ | ⟨-, rfl⟩ | rfl
    · exact hgives
    · exact (not_gives_hostSet rfl hgives).elim
    · obtain ⟨hosts, hgroup | ⟨isolated, hgroup⟩⟩ := groupWithIsolcpus_eq inventory
      · rw [hgroup] at hgives
        exact (not_gives_hostSet rfl hgives).elim
      · rw [hgroup] at hgives
        exact (not_gives_hostSet rfl hgives).elim
    · obtain ⟨key, raw, -, hraw, -⟩ := hgives
      cases hraw
  · exact fun hgives => ⟨.str "all", _, .top rfl rfl, hgives⟩

/-- Under plain names the variables of a host are those `_host_vars` wrote for it. -/
theorem own_standaloneDocument (p : Precedence plainNames) {inventory : Inventory}
    {host name : String} :
    p.own (standaloneDocument inventory) host name =
      (inventory.hosts.get? host).bind fun node => (hostVars node).get? name := by
  have hiff : ∀ w, HostVariable plainNames (standaloneDocument inventory) host name w ↔
      ((inventory.hosts.get? host).bind fun node => (hostVars node).get? name) = some w := by
    intro w
    rw [hostVariable_standaloneDocument, Option.bind_eq_some_iff]
    constructor
    · rintro ⟨key, node, hnode, hkey, hget⟩
      obtain rfl := Scalar.str.inj hkey
      exact ⟨node, hnode, hget⟩
    · rintro ⟨node, hnode, hget⟩
      exact ⟨host, node, hnode, rfl, hget⟩
  cases hwritten : (inventory.hosts.get? host).bind fun node => (hostVars node).get? name with
  | none =>
      refine p.own_eq_none fun w hw => ?_
      rw [hiff, hwritten] at hw
      cases hw
  | some v =>
      refine p.own_eq_some fun w => ?_
      rw [hiff, hwritten, Option.some.injEq, eq_comm]

/-- A rendered document gives a host its own variables, and isolcpus. -/
theorem resolve_standaloneDocument {names : Scalar → String → Prop} (p : Precedence names)
    {inventory : Inventory} {host name : String} (h : name ≠ "isolcpus") :
    resolve p (standaloneDocument inventory) host name =
      p.own (standaloneDocument inventory) host name := by
  have hgroup : p.winner (standaloneDocument inventory) host name = none := by
    cases hwinner : p.winner (standaloneDocument inventory) host name with
    | none => rfl
    | some v =>
        obtain ⟨key, group, -, -, hmention, hvar⟩ := p.sound hwinner
        rw [groupVars_standaloneDocument hmention h] at hvar
        cases hvar
  have hall : allVariable (standaloneDocument inventory) name = none := rfl
  rw [resolve, hgroup, hall, Option.none_or, Option.or_none]

/-! ## What the parser keeps -/

/-- A machine that has a PTP domain is named for the host. -/
def HasDomain (names : Scalar → String → Prop) (inventory : Inventory) (host : String) : Prop :=
  ∃ key node, inventory.hosts.get? key = some node ∧ names (.str key) host ∧
    node.ptpDomainNumber ≠ none

/-- The names of the hosts, and of their variables, are texts. -/
def TextKeyed (loaded : Value) : Prop :=
  ∀ e ∈ (groupHosts (allGroup loaded)).entries, (∃ host, e.1 = .str host) ∧
    ∀ vars, hostVariables e.2 = .ok vars → ∀ key ∈ vars.keys, ∃ name, key = .str name

/-- Entries under texts are those of a dictionary of texts. -/
theorem exists_dict_of_text {V : Type} (entries : List (Scalar × V))
    (hnodup : (entries.map Prod.fst).Nodup) (htext : ∀ e ∈ entries, ∃ name, e.1 = .str name) :
    ∃ d : Dict String V, entries = d.entries.map fun e => (.str e.1, e.2) := by
  have hlist : ∃ l : List (String × V), entries = l.map fun e => (.str e.1, e.2) := by
    clear hnodup
    induction entries with
    | nil => exact ⟨[], rfl⟩
    | cons e rest ih =>
        obtain ⟨name, hname⟩ := htext e List.mem_cons_self
        obtain ⟨l, rfl⟩ := ih fun e' he' => htext e' (List.mem_cons_of_mem _ he')
        exact ⟨(name, e.2) :: l, by rw [List.map_cons, ← hname]⟩
  obtain ⟨l, rfl⟩ := hlist
  have hl : (l.map Prod.fst).Nodup := by
    refine List.Nodup.of_map Scalar.str ?_
    rw [List.map_map] at hnodup ⊢
    exact hnodup
  exact ⟨⟨l, hl⟩, rfl⟩

/-- `extra` is what the host has under names that are not the renderer's. -/
theorem get?_extra_of_text {rt : Runtime} {vars : Dict Scalar Value} {isObserver : Bool}
    {groupIsolcpus : Option Value} {config : NodeConfig}
    (h : Inventory.node rt vars isObserver groupIsolcpus = .ok config)
    (htext : ∀ key ∈ vars.keys, ∃ name, key = .str name) (name : String) :
    config.extra.get? name = if name ∈ reservedNames then none else vars.get? (.str name) := by
  have hextra := extra_of_node rt h
  obtain ⟨d, hd⟩ := exists_dict_of_text _ (vars.filterKeys isExtra).nodup fun e he =>
    htext e.1 (Dict.mem_keys_filterKeys.mp (List.mem_map_of_mem (f := Prod.fst) he)).1
  rw [hd, textKeys_map_str] at hextra
  have hget : (vars.filterKeys isExtra).get? (.str name) = d.get? name :=
    IsLoaded.get? (d := d) hd name
  rw [Dict.get?_filterKeys] at hget
  rw [← Except.ok.inj hextra, ← hget]
  by_cases hname : name ∈ reservedNames <;> simp [isExtra, hname]

/-- A list read entry by entry, each under its own key, holds each. -/
theorem lookup_of_mapM_eq_ok {ε K V W : Type} [DecidableEq K] {f : K × V → Except ε (K × W)}
    (hf : ∀ e b, f e = .ok b → b.1 = e.1) {k : K} {v : V} {entries : List (K × V)} :
    ∀ {results : List (K × W)}, entries.mapM f = .ok results → entries.lookup k = some v →
      ∃ w, results.lookup k = some w ∧ f (k, v) = .ok (k, w) := by
  induction entries with
  | nil => exact fun _ h => nomatch h
  | cons e rest ih =>
      intro results h hlookup
      rw [List.mapM_cons] at h
      obtain ⟨first, hfirst, h⟩ := bind_eq_ok.mp h
      obtain ⟨others, hothers, h⟩ := bind_eq_ok.mp h
      obtain rfl := Except.ok.inj h
      obtain ⟨k', v'⟩ := e
      obtain ⟨k'', w⟩ := first
      obtain rfl : k'' = k' := hf _ _ hfirst
      rw [Dict.lookup_cons_ite] at hlookup ⊢
      by_cases hk : k'' = k
      · rw [if_pos hk] at hlookup ⊢
        obtain rfl := Option.some.inj hlookup
        exact ⟨w, rfl, hk ▸ hfirst⟩
      · rw [if_neg hk] at hlookup ⊢
        exact ih hothers hlookup

/-- The hosts of the parsed inventory are those of the document, read one after the other. -/
theorem hostNodes_of_parse {rt : Runtime} {document : String} {inventory : Inventory}
    {loaded : Value} (h : parse rt document = .ok inventory)
    (hload : rt.safeLoad document = .ok loaded) (htext : TextKeyed loaded) :
    ∃ groups, groups.get? (.str "all") = allGroup loaded ∧
      hostNodes rt groups =
        .ok (inventory.hosts.entries.map fun e : String × NodeConfig => (.str e.1, e.2)) := by
  obtain ⟨loaded', groups, parsed, hload', hgroups, hparsed, hhosts, -⟩ := parse_eq_ok rt h
  obtain rfl := Except.ok.inj (hload'.symm.trans hload)
  have hall : groups.get? (.str "all") = allGroup loaded' := by rw [allGroup, hgroups]; rfl
  have hread := hparsed
  unfold hostNodes at hread
  rw [hall] at hread
  have hkeys := keys_of_mapM_eq_ok (fun e b hb => (read_of_hostNode rt hb).1) hread
  -- the names are texts, and stand for themselves in the model
  have hnodup : (parsed.map Prod.fst).Nodup := hkeys ▸ (groupHosts (allGroup loaded')).nodup
  have hnames : ∀ e ∈ parsed, ∃ name, e.1 = .str name := by
    intro e he
    have hmem : e.1 ∈ (groupHosts (allGroup loaded')).entries.map Prod.fst :=
      hkeys ▸ List.mem_map_of_mem (f := Prod.fst) he
    obtain ⟨e', he', heq⟩ := List.mem_map.mp hmem
    exact heq ▸ (htext e' he').1
  obtain ⟨d, rfl⟩ := exists_dict_of_text parsed hnodup hnames
  rw [textKeys_map_str] at hhosts
  rw [← Except.ok.inj hhosts]
  exact ⟨groups, hall, hparsed⟩

section Parsed

variable {rt : Runtime} {document : String} {inventory : Inventory} {loaded : Value}
  (h : parse rt document = .ok inventory) (hload : rt.safeLoad document = .ok loaded)
  (htext : TextKeyed loaded)

include h hload htext

/-- What the next save writes for a host of the document: under a name that is not the
renderer's the host's own variable, and under an alias the PTP domain, where it has one. -/
theorem written_of_parse {key : String} {raw : Value}
    (hraw : (groupHosts (allGroup loaded)).get? (.str key) = some raw) :
    ∃ vars node, hostVariables raw = .ok vars ∧ inventory.hosts.get? key = some node ∧
      (∀ name, name ∉ reservedNames → (hostVars node).get? name = vars.get? (.str name)) ∧
      ∀ name ∈ ptpDomainAliases, (hostVars node).get? name =
        node.ptpDomainNumber.map fun _ => .str "\x7b\x7b ptp_domain_number \x7d\x7d" := by
  obtain ⟨groups, hall, hparsed⟩ := hostNodes_of_parse h hload htext
  unfold hostNodes at hparsed
  rw [hall] at hparsed
  obtain ⟨node, hlookup, hread⟩ :=
    lookup_of_mapM_eq_ok (fun e b hb => (read_of_hostNode rt hb).1) hparsed hraw
  obtain ⟨-, vars, hvars, hread⟩ := read_of_hostNode rt hread
  have hnode : inventory.hosts.get? key = some node := by
    rw [Dict.get?, ← hlookup]
    exact ((Scalar.lookup_map_str id inventory.hosts.entries key).trans Option.map_id_apply).symm
  have hkeys := (htext _ (Dict.mem_entries_iff.mpr hraw)).2 vars hvars
  have hextra := get?_extra_of_text hread hkeys
  refine ⟨vars, node, hvars, hnode, fun name hname => ?_, fun name hname => ?_⟩
  · have hfixed : name ∉ fixedHostVarNames := by
      intro hmem
      have hreserved : ∀ k ∈ fixedHostVarNames, k ∈ reservedNames := by decide
      exact hname (hreserved name hmem)
    have hwritten : (modelledVars node).lookup name = none := by
      refine Dict.lookup_eq_none_iff_not_mem.mpr fun hmem => hname ?_
      exact writtenNames_subset_reserved name ((keys_modelledVars node).subset hmem)
    rw [get?_hostVars_modelled hfixed, hwritten, Option.or_none, hextra, if_neg hname]
  · have hnames : ∀ k ∈ ptpDomainAliases, k ∉ fixedHostVarNames ∧ k ∈ reservedNames := by decide
    obtain ⟨hfixed, hreserved⟩ := hnames name hname
    rw [get?_hostVars_modelled hfixed, hextra, if_pos hreserved, Option.none_or,
      lookup_modelledVars_alias node hname]

/-- A host of the parsed inventory is one of the document. -/
theorem raw_of_parse {key : String} {node : NodeConfig}
    (hnode : inventory.hosts.get? key = some node) :
    ∃ raw, (groupHosts (allGroup loaded)).get? (.str key) = some raw := by
  obtain ⟨groups, hall, hparsed⟩ := hostNodes_of_parse h hload htext
  unfold hostNodes at hparsed
  rw [hall] at hparsed
  have hkeys := keys_of_mapM_eq_ok (fun e b hb => (read_of_hostNode rt hb).1) hparsed
  have hmem : (Scalar.str key) ∈ (groupHosts (allGroup loaded)).keys := by
    rw [Dict.keys, ← hkeys, List.map_map]
    exact List.mem_map_of_mem (f := fun e : String × NodeConfig => Scalar.str e.1)
      (Dict.mem_entries_iff.mpr hnode)
  exact Option.ne_none_iff_exists'.mp fun hnone => Dict.get?_eq_none_iff.mp hnone hmem

/-- What the hosts have of their own after the next save: under a name that is not the
renderer's what `all` gives them. -/
theorem hostVariable_rendered {names : Scalar → String → Prop} {host name : String}
    (hname : name ∉ reservedNames) (v : Value) :
    HostVariable names (standaloneDocument inventory) host name v ↔
      Gives names (allGroup loaded) host name v := by
  rw [hostVariable_standaloneDocument]
  constructor
  · rintro ⟨key, node, hnode, hkey, hget⟩
    obtain ⟨raw, hraw⟩ := raw_of_parse h hload htext hnode
    obtain ⟨vars, node', hvars, hnode', hkept, -⟩ := written_of_parse h hload htext hraw
    obtain rfl := Option.some.inj (hnode.symm.trans hnode')
    exact ⟨.str key, raw, vars, hraw, hkey, hvars, hkept name hname ▸ hget⟩
  · rintro ⟨key, raw, vars, hraw, hkey, hvars, hget⟩
    obtain ⟨key, rfl⟩ := (htext _ (Dict.mem_entries_iff.mpr hraw)).1
    obtain ⟨vars', node, hvars', hnode, hkept, -⟩ := written_of_parse h hload htext hraw
    obtain rfl := Except.ok.inj (hvars'.symm.trans hvars)
    exact ⟨key, node, hnode, hkey, (hkept name hname).trans hget⟩

/-- Under an alias they have the reference to their PTP domain, if they have one. -/
theorem alias_rendered {names : Scalar → String → Prop} {host name : String}
    (hname : name ∈ ptpDomainAliases) (v : Value) :
    HostVariable names (standaloneDocument inventory) host name v ↔
      v = .str "\x7b\x7b ptp_domain_number \x7d\x7d" ∧ HasDomain names inventory host := by
  rw [hostVariable_standaloneDocument]
  constructor
  · rintro ⟨key, node, hnode, hkey, hget⟩
    obtain ⟨raw, hraw⟩ := raw_of_parse h hload htext hnode
    obtain ⟨vars, node', -, hnode', -, halias⟩ := written_of_parse h hload htext hraw
    obtain rfl := Option.some.inj (hnode.symm.trans hnode')
    rw [halias name hname] at hget
    obtain ⟨domain, hdomain, rfl⟩ := Option.map_eq_some_iff.mp hget
    exact ⟨rfl, key, node, hnode, hkey, by simp [hdomain]⟩
  · rintro ⟨rfl, key, node, hnode, hkey, hdomain⟩
    obtain ⟨raw, hraw⟩ := raw_of_parse h hload htext hnode
    obtain ⟨vars, node', -, hnode', -, halias⟩ := written_of_parse h hload htext hraw
    obtain rfl := Option.some.inj (hnode.symm.trans hnode')
    obtain ⟨domain, hdomain⟩ := Option.ne_none_iff_exists'.mp hdomain
    exact ⟨key, node, hnode, hkey, by rw [halias name hname, hdomain]; rfl⟩

end Parsed

/-- The next save of a hand written inventory without a cluster.  A variable that is
not the renderer's own resolves as it did, where the host's own value that wins is the one
under `all` or nothing has the variable; the PTP aliases follow the PTP domain. -/
theorem adoption_keeps_variables {rt : Runtime} {names : Scalar → String → Prop}
    (p : Precedence names) {document : String} {inventory : Inventory} {loaded : Value}
    (hload : rt.safeLoad document = .ok loaded)
    (hparse : parse rt document = .ok inventory) (hmode : inventory.mode = .standalone)
    (htext : TextKeyed loaded) (hyaml : ReadsBack rt (standaloneDocument inventory)) :
    ∃ text rendered, render rt inventory = .ok text ∧ rt.safeLoad text = .ok rendered ∧
      ∀ host,
        (∀ name, name ∉ reservedNames →
          (OwnInAll p loaded host name ∨ resolve p loaded host name = none) →
          resolve p rendered host name = resolve p loaded host name) ∧
        ∀ name ∈ ptpDomainAliases,
          (HasDomain names inventory host → resolve p rendered host name =
            some (.str "\x7b\x7b ptp_domain_number \x7d\x7d")) ∧
          (¬ HasDomain names inventory host → resolve p rendered host name = none) := by
  refine ⟨_, standaloneDocument inventory, render_standalone rt hmode,
    hyaml.comments.trans hyaml.inverts, fun host => ⟨fun name hname hown => ?_,
    fun name hname => ?_⟩⟩
  · have hisolcpus : name ≠ "isolcpus" := by
      rintro rfl
      exact hname (by decide)
    have hafter : ∀ w, HostVariable names (standaloneDocument inventory) host name w ↔
        Gives names (allGroup loaded) host name w :=
      fun w => hostVariable_rendered hparse hload htext hname w
    rw [resolve_standaloneDocument p hisolcpus]
    rcases hown with ⟨v, hwins, hall⟩ | hnone
    · rw [resolve, hwins, Option.some_or]
      exact p.own_eq_some fun w => (hafter w).trans (hall w)
    · obtain ⟨hown, -⟩ := Option.or_eq_none_iff.mp hnone
      rw [hnone]
      exact p.own_eq_none fun w hw =>
        p.ownComplete (hostVariable_of_gives ((hafter w).mp hw)) hown
  · have hisolcpus : ∀ k ∈ ptpDomainAliases, k ≠ "isolcpus" := by decide
    have hafter : ∀ w, HostVariable names (standaloneDocument inventory) host name w ↔
        w = .str "\x7b\x7b ptp_domain_number \x7d\x7d" ∧ HasDomain names inventory host :=
      fun w => alias_rendered hparse hload htext hname w
    rw [resolve_standaloneDocument p (hisolcpus name hname)]
    constructor
    · exact fun hdomain => p.own_eq_some fun w => (hafter w).trans (and_iff_left hdomain)
    · exact fun hnot => p.own_eq_none fun w hw => hnot ((hafter w).mp hw).2

/-- A rendered document has texts for keys. -/
theorem textKeyed_standaloneDocument (inventory : Inventory) :
    TextKeyed (standaloneDocument inventory) := by
  have hhosts : groupHosts (allGroup (standaloneDocument inventory)) =
      Dict.ofList (inventory.hosts.entries.map fun e => (.str e.1, .ofDict (hostVars e.2))) := rfl
  intro e he
  rw [hhosts] at he
  obtain ⟨⟨name, node⟩, -, rfl⟩ := List.mem_map.mp (Dict.mem_of_mem_ofList he)
  refine ⟨⟨name, rfl⟩, fun vars hvars key hkey => ?_⟩
  obtain ⟨vars', hvars', hloaded⟩ := hostVariables_ofDict (entries_hostVars_ne_nil node)
  obtain rfl := Except.ok.inj (hvars'.symm.trans hvars)
  rw [Dict.keys, hloaded] at hkey
  obtain ⟨e, -, rfl⟩ := List.mem_map.mp (List.map_map ▸ hkey)
  exact ⟨e.1, rfl⟩

/-! ### The reference inventory, and one with an alias of its own -/

theorem adoption_keeps_variables_reference :
    ∃ text rendered,
      render referenceRuntime (singleHost "seapath-machine" reference) = .ok text ∧
      referenceRuntime.safeLoad text = .ok rendered ∧
      ∀ host,
        (∀ name, name ∉ reservedNames →
          (OwnInAll .any (standaloneDocument (singleHost "seapath-machine" reference)) host name ∨
            resolve .any (standaloneDocument (singleHost "seapath-machine" reference)) host name =
              none) →
          resolve .any rendered host name =
            resolve .any (standaloneDocument (singleHost "seapath-machine" reference)) host name) ∧
        ∀ name ∈ ptpDomainAliases,
          (HasDomain plainNames (singleHost "seapath-machine" reference) host →
            resolve .any rendered host name =
              some (.str "\x7b\x7b ptp_domain_number \x7d\x7d")) ∧
          (¬ HasDomain plainNames (singleHost "seapath-machine" reference) host →
            resolve .any rendered host name = none) := by
  have hyaml : ReadsBack referenceRuntime
      (standaloneDocument (singleHost "seapath-machine" reference)) := readsBack_knowing _ _
  have hparse := parse_documentText_of_sayable referenceRuntime rfl rfl sayable_reference hyaml
  exact adoption_keeps_variables .any (hyaml.comments.trans hyaml.inverts) hparse rfl
    (textKeyed_standaloneDocument _) hyaml

/-- A host that sets the PTP domain of timemaster itself. -/
def ownAliasVars : List (Scalar × Value) :=
  [(.str "ansible_host", .str "10.0.0.5"), (.str "network_interface", .str "eno1"),
    (.str "ptp_domain_number", .scalar (.int 0)),
    (.str "timemaster_ptp_domain_number", .scalar (.int 4))]

/-- A hand written inventory of it. -/
def ownAlias : Value :=
  .map [(.str "all", .map [(.str "hosts", .map [(.str "node", .map ownAliasVars)])])]

def ownAliasText : String :=
  "all:\n" ++
  "  hosts:\n" ++
  "    node:\n" ++
  "      ansible_host: 10.0.0.5\n" ++
  "      network_interface: eno1\n" ++
  "      ptp_domain_number: 0\n" ++
  "      timemaster_ptp_domain_number: 4\n"

/-- What it is read as. -/
def ownAliasReading : NodeConfig where
  ansibleHost := "10.0.0.5"
  networkInterface := "eno1"
  ptpDomainNumber := some ⟨0, ptpDomain_zero⟩

/-- The text it is rewritten to. -/
def ownAliasRewritten : String :=
  "all:\n" ++
  "  hosts:\n" ++
  "    node:\n" ++
  "      ansible_host: 10.0.0.5\n" ++
  "      network_interface: eno1\n" ++
  "      subnet: 24\n" ++
  "      ptp_domain_number: 0\n" ++
  "      timemaster_ptp_domain_number: '\x7b\x7b ptp_domain_number \x7d\x7d'\n" ++
  "      ptp_status_vsock_domain_number: '\x7b\x7b ptp_domain_number \x7d\x7d'\n" ++
  fixedLines ++
  "standalone_machine:\n" ++
  "  hosts:\n" ++
  "    node: null\n" ++
  "hypervisors:\n" ++
  "  hosts:\n" ++
  "    node: null\n" ++
  "cluster_machines: null\n" ++
  "observers: null\n"

/-- The library, knowing the two files. -/
def ownAliasRuntime : Runtime :=
  knowing [(ownAlias, ownAliasText),
    (standaloneDocument (singleHost "node" ownAliasReading), ownAliasRewritten)]

theorem readsBack_ownAliasReading :
    ReadsBack ownAliasRuntime (standaloneDocument (singleHost "node" ownAliasReading)) := by
  have hdump : ownAliasRuntime.dump (standaloneDocument (singleHost "node" ownAliasReading)) =
      ownAliasRewritten := by decide +kernel
  have hload : ownAliasRuntime.safeLoad ownAliasRewritten =
      .ok (standaloneDocument (singleHost "node" ownAliasReading)) := by decide +kernel
  have hown : BeginsWithAll ownAliasText := by
    unfold ownAliasText
    simp only [String.append_assoc]
    exact ⟨_, rfl⟩
  have hrewritten : BeginsWithAll ownAliasRewritten := by
    unfold ownAliasRewritten
    simp only [String.append_assoc]
    exact ⟨_, rfl⟩
  refine readsBack_knowing_of_dump rfl hdump hload hrewritten ?_
  simp only [List.forall_mem_cons]
  exact ⟨hown, hrewritten, nofun⟩

/-- It has the value under one name only, and no other value there. -/
theorem ownAlias_value {names : Scalar → String → Prop} {host : String} {v : Value}
    (h : HostVariable names ownAlias host "timemaster_ptp_domain_number" v) :
    v = .scalar (.int 4) := by
  have hgroup : ∀ {key : Scalar} {group : Value}, Mentions ownAlias key group →
      group = .map [(.str "hosts", .map [(.str "node", .map ownAliasVars)])] := by
    intro key group hmention
    induction hmention with
    | top hgroups hget =>
        obtain rfl := Option.some.inj hgroups
        have hmem := Dict.mem_of_mem_ofList (Dict.mem_entries_iff.mpr hget)
        exact (Prod.mk.inj (List.mem_singleton.mp hmem)).2
    | child _ hget ih =>
        rw [ih] at hget
        cases hget
  obtain ⟨key, group, hmention, pattern, raw, vars, hraw, -, hvars, hget⟩ := h
  rw [hgroup hmention] at hraw
  have hmem : (pattern, raw) ∈ [(Scalar.str "node", Value.map ownAliasVars)] :=
    Dict.mem_of_mem_ofList (Dict.mem_entries_iff.mpr hraw)
  obtain ⟨-, rfl⟩ := Prod.mk.inj (List.mem_singleton.mp hmem)
  obtain rfl := Except.ok.inj hvars
  exact (Option.some.inj hget).symm

/-- The host's own value of an alias is replaced by the PTP domain. -/
theorem adoption_replaces_alias :
    ∃ text rendered,
      parse ownAliasRuntime ownAliasText = .ok (singleHost "node" ownAliasReading) ∧
      ReadsBack ownAliasRuntime (standaloneDocument (singleHost "node" ownAliasReading)) ∧
      render ownAliasRuntime (singleHost "node" ownAliasReading) = .ok text ∧
      ownAliasRuntime.safeLoad text = .ok rendered ∧
      "timemaster_ptp_domain_number" ∉ modelledNames ++ fixedHostVarNames ∧
      ∀ (names : Scalar → String → Prop) (p : Precedence names), names (.str "node") "node" →
        resolve p rendered "node" "timemaster_ptp_domain_number" ≠
          resolve p ownAlias "node" "timemaster_ptp_domain_number" := by
  have hread := readsBack_ownAliasReading
  refine ⟨_, standaloneDocument (singleHost "node" ownAliasReading), by decide +kernel,
    hread, rfl, hread.comments.trans hread.inverts, by decide,
    fun names p hnames heq => ?_⟩
  have hbefore : p.own ownAlias "node" "timemaster_ptp_domain_number" =
      some (.scalar (.int 4)) := by
    refine p.own_eq_some fun w => ⟨ownAlias_value, ?_⟩
    rintro rfl
    exact hostVariable_of_gives ⟨.str "node", _, _, rfl, hnames, rfl, rfl⟩
  have hafter : p.own (standaloneDocument (singleHost "node" ownAliasReading)) "node"
      "timemaster_ptp_domain_number" = some (.str "\x7b\x7b ptp_domain_number \x7d\x7d") := by
    refine p.own_eq_some fun w => ?_
    rw [hostVariable_standaloneDocument]
    constructor
    · rintro ⟨key, node, hnode, -, hget⟩
      have hmem := Dict.mem_entries_iff.mpr hnode
      obtain ⟨-, rfl⟩ := Prod.mk.inj (List.mem_singleton.mp hmem)
      exact (Option.some.inj hget).symm
    · rintro rfl
      exact ⟨"node", ownAliasReading, rfl, hnames, rfl⟩
  rw [resolve, resolve, hbefore, hafter] at heq
  cases heq

end SeapathWebui.Inventory
