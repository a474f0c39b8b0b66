/-
  Inventory/Readable.lean --- which files the parser can read or refuse.

  Source: app/inventory/parser.py.

  `parse` has two ways to end that its callers know: an inventory, or
  `InvalidInventory`.  Everything after the loader can end in a third one, since the
  conversions and the model raise exceptions of their own.  `DocumentReadable` says,
  of what the file holds, exactly when none of them does (`parses_or_refuses_iff`): one
  condition for each conversion of `_node`, one for each key.
-/
import SeapathWebui.Inventory.Validation

set_option autoImplicit false

namespace SeapathWebui.Inventory

open SeapathWebui.Foundation SeapathWebui.Hosts

/-! ## What each conversion accepts -/

/-- `str()` writes the value, if there is one. -/
def HasText (value : Option Value) : Prop := ∀ v, value = some v → v.overlong = false

/-- `_as_list` makes a list of it: it is null, a text, or can be iterated over, and
each item can be written. -/
def Listable : Value → Prop
  | .scalar .null | .scalar (.str _) | .scalar (.bytes _) => True
  | .scalar _ => False
  | .seq _ items => ∀ item ∈ items, item.overlong = false
  | .map entries => ∀ e ∈ entries, e.1.overlong = false

/-- `subnet` is absent, false, or a number from 1 to 32. -/
def SubnetReadable (value : Option Value) : Prop :=
  ∀ v, value = some v → v.truthy = true → ∃ n, v.toInt = .ok n ∧ 1 ≤ n ∧ n ≤ 32

/-- `ptp_domain_number` is not infinite, and from 0 to 255 where it is a number. -/
def PtpDomainReadable (value : Option Value) : Prop :=
  ∀ v, value = some v →
    v.toInt ≠ .error .overflowError ∧ ∀ n, v.toInt = .ok n → 0 ≤ n ∧ n ≤ 255

section Conversions

variable (rt : Runtime)

theorem raising_ne_refusal {α : Type} (x : Except Raised α) (message : String) :
    raising x ≠ .error (.invalidInventory message) := by
  cases x <;> simp [raising]

theorem returns_toText {value : Value} :
    Returns (value.toText rt.repr) ↔ value.overlong = false := by
  unfold Value.toText
  split <;> simp_all

/-- An overlong value is true. -/
theorem truthy_of_overlong {value : Value} (h : value.overlong = true) :
    value.truthy = true := by
  cases value with
  | scalar s =>
      cases s with
      | int n =>
          have hne : n ≠ 0 := by
            rintro rfl
            revert h
            decide
          simp [Value.truthy, hne]
      | _ => cases h
  | seq kind items =>
      cases items with
      | nil => cases h
      | cons item rest => rfl
  | map entries =>
      cases entries with
      | nil => cases h
      | cons e rest => rfl

theorem returns_textOrEmpty {value : Option Value} :
    Returns (textOrEmpty rt value) ↔ HasText value := by
  cases value with
  | none => simp [textOrEmpty, HasText]
  | some v =>
      simp only [textOrEmpty, HasText, Option.some.injEq, forall_eq']
      split
      · exact returns_toText rt
      · rename_i hfalse
        refine iff_of_true (returns_ok _) ?_
        cases hlong : v.overlong with
        | false => rfl
        | true => exact (hfalse (truthy_of_overlong hlong)).elim

theorem returns_optionalStr {value : Option Value} :
    Returns (optionalStr rt value) ↔ HasText value := by
  unfold optionalStr
  split
  · simp [HasText]
  · simp [HasText, Value.overlong, Scalar.overlong]
  · rename_i v _
    rw [HasText]
    simp only [Option.some.injEq, forall_eq', ← returns_toText rt]
    cases v.toText rt.repr <;> simp [Except.map]

/-- The items of what can be iterated over can all be written exactly where it is
listable. -/
theorem returns_iterate {value : Value} (hnull : value ≠ .null) (hstr : ∀ s, value ≠ .str s) :
    (∃ items, value.iterate = .ok items ∧ ∀ item ∈ items, item.overlong = false) ↔
      Listable value := by
  cases value with
  | scalar s =>
      cases s with
      | null => exact (hnull rfl).elim
      | str s => exact (hstr s rfl).elim
      | bytes b =>
          -- a byte is a number of at most three digits
          have hshort : ∀ n < 256, (Value.scalar (.int (n : Nat))).overlong = false := by
            decide +kernel
          refine iff_of_true ⟨_, rfl, fun item hitem => ?_⟩ trivial
          obtain ⟨c, -, rfl⟩ := List.mem_map.mp hitem
          exact hshort c.toNat c.toNat_lt
      | bool _ | int _ | float _ | timestamp _ =>
          refine iff_of_false ?_ id
          rintro ⟨items, h, -⟩
          cases h
  | seq kind items => simp [Value.iterate, Listable]
  | map entries =>
      simp only [Value.iterate, Except.ok.injEq, exists_eq_left', Listable, List.forall_mem_map]
      constructor
      · intro h e he
        exact h e.1 (Dict.mem_keys_ofList.mpr (List.mem_map_of_mem he))
      · intro h k hk
        obtain ⟨e, he, rfl⟩ := List.mem_map.mp (Dict.mem_keys_ofList.mp hk)
        exact h e he

theorem returns_asList {value : Option Value} :
    Returns (asList rt value) ↔ ∀ v, value = some v → Listable v := by
  unfold asList
  split
  · simp
  · simp [Listable]
  · simp [Listable]
  · rename_i v hnull hstr
    simp only [Option.some.injEq, forall_eq']
    rw [← returns_iterate hnull hstr]
    constructor
    · rintro ⟨texts, h⟩
      obtain ⟨items, hitems, htexts⟩ := bind_eq_ok.mp h
      exact ⟨items, hitems, fun item hitem =>
        (returns_toText rt).mp (returns_mapM.mp ⟨texts, htexts⟩ item hitem)⟩
    · rintro ⟨items, hitems, hall⟩
      obtain ⟨texts, htexts⟩ := returns_mapM.mpr fun item hitem =>
        (returns_toText rt).mpr (hall item hitem)
      exact ⟨texts, bind_eq_ok.mpr ⟨items, hitems, htexts⟩⟩

theorem subnet_readable {value : Option Value} :
    (∃ n, subnetOr24 value = .ok n ∧ 1 ≤ n ∧ n ≤ 32) ↔ SubnetReadable value := by
  cases value with
  | none => exact iff_of_true ⟨24, rfl, by omega⟩ (by rintro v ⟨⟩)
  | some v =>
      simp only [subnetOr24, SubnetReadable, Option.some.injEq, forall_eq']
      split
      · rename_i htrue
        simp [htrue]
      · rename_i hfalse
        exact iff_of_true ⟨24, rfl, by omega⟩ fun htrue => (hfalse htrue).elim

theorem ptpDomain_readable {value : Option Value} :
    (∃ domain, optionalInt value = .ok domain ∧ ∀ n, domain = some n → 0 ≤ n ∧ n ≤ 255) ↔
      PtpDomainReadable value := by
  cases value with
  | none => exact iff_of_true ⟨none, rfl, by rintro n ⟨⟩⟩ (by rintro v ⟨⟩)
  | some v =>
      simp only [optionalInt, PtpDomainReadable, Option.some.injEq, forall_eq']
      cases v.toInt with
      | ok n => simp
      | error e => cases e <;> simp

/-! ## A host -/

/-- What the variables of a host must be for `_node` to return. -/
structure VarsReadable (vars : Dict Scalar Value) (groupIsolcpus : Option Value) : Prop where
  texts : ∀ name ∈ ["ansible_host", "network_interface", "gateway_addr", "ptp_interface",
    "admin_user", "grub_password"], HasText (vars.get? (.str name))
  isolcpus : HasText ((vars.get? (.str "isolcpus")).or groupIsolcpus)
  lists : ∀ name ∈ ["dns_servers", "ntp_servers"],
    ∀ v, vars.get? (.str name) = some v → Listable v
  subnet : SubnetReadable (vars.get? (.str "subnet"))
  ptpDomainNumber : PtpDomainReadable (vars.get? (.str "ptp_domain_number"))
  /-- the model reads every other key as a text -/
  keys : ∀ key ∈ vars.keys, isExtra key = true → (keyText key).isSome

theorem returns_textEntry {V : Type} {e : Scalar × V} :
    Returns (textEntry e) ↔ (keyText e.1).isSome := by
  unfold textEntry
  split
  · rename_i name hname
    simp [hname]
  · rename_i hnone
    simp [hnone]

theorem returns_textKeys {V : Type} {entries : List (Scalar × V)} :
    Returns (textKeys entries) ↔ ∀ e ∈ entries, (keyText e.1).isSome := by
  simp only [← returns_textEntry, ← returns_mapM]
  constructor
  · rintro ⟨d, h⟩
    obtain ⟨pairs, hpairs, -⟩ := bind_eq_ok.mp h
    exact ⟨pairs, hpairs⟩
  · rintro ⟨pairs, hpairs⟩
    exact ⟨_, bind_eq_ok.mpr ⟨pairs, hpairs, rfl⟩⟩

/-- What the conversions go through when they return. -/
theorem convert_eq_ok {known : String → Option Value} {groupIsolcpus : Option Value}
    {c : Converted} : convert rt known groupIsolcpus = .ok c ↔
      textOrEmpty rt (known "ansible_host") = .ok c.ansibleHost ∧
      textOrEmpty rt (known "network_interface") = .ok c.networkInterface ∧
      subnetOr24 (known "subnet") = .ok c.subnet ∧
      optionalStr rt (known "gateway_addr") = .ok c.gatewayAddr ∧
      asList rt (known "dns_servers") = .ok c.dnsServers ∧
      optionalStr rt (known "ptp_interface") = .ok c.ptpInterface ∧
      optionalInt (known "ptp_domain_number") = .ok c.ptpDomainNumber ∧
      asList rt (known "ntp_servers") = .ok c.ntpServers ∧
      optionalStr rt (known "admin_user") = .ok c.adminUser ∧
      optionalStr rt (known "grub_password") = .ok c.grubPassword ∧
      optionalStr rt ((known "isolcpus").or groupIsolcpus) = .ok c.isolcpus := by
  obtain ⟨host, interface, subnet, gateway, dns, ptp, domain, ntp, admin, grub, cpus⟩ := c
  constructor
  · intro h
    obtain ⟨_, h1, h⟩ := bind_eq_ok.mp h
    obtain ⟨_, h2, h⟩ := bind_eq_ok.mp h
    obtain ⟨_, h3, h⟩ := bind_eq_ok.mp h
    obtain ⟨_, h4, h⟩ := bind_eq_ok.mp h
    obtain ⟨_, h5, h⟩ := bind_eq_ok.mp h
    obtain ⟨_, h6, h⟩ := bind_eq_ok.mp h
    obtain ⟨_, h7, h⟩ := bind_eq_ok.mp h
    obtain ⟨_, h8, h⟩ := bind_eq_ok.mp h
    obtain ⟨_, h9, h⟩ := bind_eq_ok.mp h
    obtain ⟨_, h10, h⟩ := bind_eq_ok.mp h
    obtain ⟨_, h11, h⟩ := bind_eq_ok.mp h
    cases h
    exact ⟨h1, h2, h3, h4, h5, h6, h7, h8, h9, h10, h11⟩
  · rintro ⟨h1, h2, h3, h4, h5, h6, h7, h8, h9, h10, h11⟩
    simp only [convert, h1, h2, h3, h4, h5, h6, h7, h8, h9, h10, h11]
    rfl

/-- The checks of the model. -/
theorem returns_construct {role : Role} {c : Converted} {extra : Dict String Value} :
    Returns (construct role c extra) ↔
      (1 ≤ c.subnet ∧ c.subnet ≤ 32) ∧ ∀ n, c.ptpDomainNumber = some n → 0 ≤ n ∧ n ≤ 255 := by
  constructor
  · rintro ⟨config, h⟩
    obtain ⟨subnet, hsubnet, h⟩ := bind_eq_ok.mp h
    obtain ⟨domain, hdomain, -⟩ := bind_eq_ok.mp h
    constructor
    · by_contra hout
      rw [subnetField, dif_neg hout] at hsubnet
      cases hsubnet
    · intro n hn
      by_contra hout
      rw [hn, ptpDomainField, dif_neg hout] at hdomain
      cases hdomain
  · rintro ⟨hsubnet, hdomain⟩
    have hfield : Returns (ptpDomainField c.ptpDomainNumber) := by
      cases hc : c.ptpDomainNumber with
      | none => exact ⟨none, rfl⟩
      | some n => exact ⟨_, dif_pos (hdomain n hc)⟩
    obtain ⟨domain, hdomain⟩ := hfield
    exact ⟨_, bind_eq_ok.mpr ⟨_, dif_pos hsubnet, bind_eq_ok.mpr ⟨domain, hdomain, rfl⟩⟩⟩

/-- `_node` returns exactly on the variables that are readable. -/
theorem returns_node {vars : Dict Scalar Value} {isObserver : Bool}
    {groupIsolcpus : Option Value} :
    Returns (node rt vars isObserver groupIsolcpus) ↔ VarsReadable vars groupIsolcpus := by
  have hextra : Returns (textKeys (vars.filterKeys isExtra).entries) ↔
      ∀ key ∈ vars.keys, isExtra key = true → (keyText key).isSome := by
    rw [returns_textKeys]
    constructor
    · intro h key hkey hisExtra
      obtain ⟨e, he, rfl⟩ := List.mem_map.mp hkey
      exact h e (List.mem_filter.mpr ⟨he, hisExtra⟩)
    · intro h e he
      obtain ⟨hmem, hisExtra⟩ := List.mem_filter.mp he
      exact h e.1 (List.mem_map_of_mem hmem) hisExtra
  constructor
  · rintro ⟨config, h⟩
    obtain ⟨c, hconvert, h⟩ := bind_eq_ok.mp h
    obtain ⟨extra, htext, h⟩ := bind_eq_ok.mp h
    obtain ⟨hsubnet, hdomain⟩ := returns_construct.mp ⟨config, h⟩
    obtain ⟨h1, h2, h3, h4, h5, h6, h7, h8, h9, h10, h11⟩ :=
      (convert_eq_ok rt).mp (raising_eq_ok.mp hconvert)
    refine ⟨?_, (returns_optionalStr rt).mp ⟨_, h11⟩, ?_, subnet_readable.mp ⟨_, h3, hsubnet⟩,
      ptpDomain_readable.mp ⟨_, h7, hdomain⟩, hextra.mp ⟨_, htext⟩⟩
    · simp only [List.forall_mem_cons]
      exact ⟨(returns_textOrEmpty rt).mp ⟨_, h1⟩, (returns_textOrEmpty rt).mp ⟨_, h2⟩,
        (returns_optionalStr rt).mp ⟨_, h4⟩, (returns_optionalStr rt).mp ⟨_, h6⟩,
        (returns_optionalStr rt).mp ⟨_, h9⟩, (returns_optionalStr rt).mp ⟨_, h10⟩,
        List.forall_mem_nil _⟩
    · simp only [List.forall_mem_cons]
      exact ⟨(returns_asList rt).mp ⟨_, h5⟩, (returns_asList rt).mp ⟨_, h8⟩,
        List.forall_mem_nil _⟩
  · intro h
    have htexts := h.texts
    have hlists := h.lists
    simp only [List.forall_mem_cons, ← returns_asList rt] at htexts hlists
    obtain ⟨hhost, hinterface, hgateway, hptp, hadmin, hgrub, -⟩ := htexts
    obtain ⟨⟨dns, h5⟩, ⟨ntp, h8⟩, -⟩ := hlists
    obtain ⟨host, h1⟩ := (returns_textOrEmpty rt).mpr hhost
    obtain ⟨interface, h2⟩ := (returns_textOrEmpty rt).mpr hinterface
    obtain ⟨subnet, h3, hsubnet⟩ := subnet_readable.mpr h.subnet
    obtain ⟨gateway, h4⟩ := (returns_optionalStr rt).mpr hgateway
    obtain ⟨ptp, h6⟩ := (returns_optionalStr rt).mpr hptp
    obtain ⟨domain, h7, hdomain⟩ := ptpDomain_readable.mpr h.ptpDomainNumber
    obtain ⟨admin, h9⟩ := (returns_optionalStr rt).mpr hadmin
    obtain ⟨grub, h10⟩ := (returns_optionalStr rt).mpr hgrub
    obtain ⟨cpus, h11⟩ := (returns_optionalStr rt).mpr h.isolcpus
    obtain ⟨extra, htext⟩ := hextra.mpr h.keys
    let c : Converted :=
      ⟨host, interface, subnet, gateway, dns, ptp, domain, ntp, admin, grub, cpus⟩
    have hconvert : convert rt (fun name => vars.get? (.str name)) groupIsolcpus = .ok c :=
      (convert_eq_ok rt).mpr ⟨h1, h2, h3, h4, h5, h6, h7, h8, h9, h10, h11⟩
    obtain ⟨config, hconfig⟩ := returns_construct.mpr
      (show (1 ≤ c.subnet ∧ c.subnet ≤ 32) ∧ ∀ n, c.ptpDomainNumber = some n → 0 ≤ n ∧ n ≤ 255
        from ⟨hsubnet, hdomain⟩)
    exact ⟨config, bind_eq_ok.mpr ⟨c, raising_eq_ok.mpr hconvert,
      bind_eq_ok.mpr ⟨extra, htext, hconfig⟩⟩⟩

/-! ## A document -/

/-- What `_node` takes from the group of the hypervisors. -/
def groupIsolcpus (groups : Dict Scalar Value) : Option Value :=
  (groupVars (groups.get? (.str "hypervisors"))).get? (.str "isolcpus")

/-- What a host must be: its key is read as a text, `dict()` makes a dictionary of it,
and its variables are readable. -/
def HostReadable (groups : Dict Scalar Value) (e : Scalar × Value) : Prop :=
  (keyText e.1).isSome ∧
    ∃ vars, hostVariables e.2 = .ok vars ∧ VarsReadable vars (groupIsolcpus groups)

/-- What a document must be for `parse` to read or refuse it: the loader raises nothing
but its own error, and every host of the group `all` is readable. -/
structure DocumentReadable (document : String) : Prop where
  loads : rt.safeLoad document ≠ .error .other
  hosts : ∀ loaded groups, rt.safeLoad document = .ok loaded → loaded.asDict = some groups →
    ∀ e ∈ (groupHosts (groups.get? (.str "all"))).entries, HostReadable groups e

/-- `parse` ends in one of the two ways its callers know. -/
def ParsesOrRefuses (document : String) : Prop :=
  (∃ inventory, parse rt document = .ok inventory) ∨
    ∃ message, parse rt document = .error (.invalidInventory message)

/-- The keys and the hosts are not refused: what they raise is something else. -/
theorem textKeys_ne_refusal {V : Type} (entries : List (Scalar × V)) (message : String) :
    textKeys entries ≠ .error (.invalidInventory message) := by
  have hentry : ∀ e : Scalar × V, textEntry e ≠ .error (.invalidInventory message) := by
    intro e h
    unfold textEntry at h
    split at h <;> cases h
  exact bind_ne_error (mapM_ne_error hentry entries) fun _ => ok_ne_error _ _

theorem node_ne_refusal (vars : Dict Scalar Value) (isObserver : Bool)
    (groupIsolcpus : Option Value) (message : String) :
    node rt vars isObserver groupIsolcpus ≠ .error (.invalidInventory message) := by
  refine bind_ne_error (raising_ne_refusal _ _) fun c => ?_
  refine bind_ne_error (textKeys_ne_refusal _ _) fun extra => ?_
  refine bind_ne_error ?_ fun subnet => bind_ne_error ?_ fun _ => ok_ne_error _ _
  · unfold subnetField
    split <;> simp
  · unfold ptpDomainField
    split
    · simp
    · split <;> simp

theorem hostNodes_ne_refusal (groups : Dict Scalar Value) (message : String) :
    hostNodes rt groups ≠ .error (.invalidInventory message) := by
  refine mapM_ne_error (fun e => ?_) _
  refine bind_ne_error (raising_ne_refusal _ _) fun vars => ?_
  exact bind_ne_error (node_ne_refusal rt _ _ _ _) fun _ => ok_ne_error _ _

theorem returns_hostNodes {groups : Dict Scalar Value} :
    Returns (hostNodes rt groups) ↔ ∀ e ∈ (groupHosts (groups.get? (.str "all"))).entries,
      ∃ vars, hostVariables e.2 = .ok vars ∧ VarsReadable vars (groupIsolcpus groups) := by
  unfold hostNodes
  rw [returns_mapM]
  refine forall₂_congr fun e _ => ?_
  constructor
  · rintro ⟨b, h⟩
    obtain ⟨-, vars, hvars, hnode⟩ := read_of_hostNode rt h
    exact ⟨vars, hvars, (returns_node rt).mp ⟨b.2, hnode⟩⟩
  · rintro ⟨vars, hvars, hreadable⟩
    have hnode : ∀ isObserver, Returns (node rt vars isObserver (groupIsolcpus groups)) :=
      fun _ => (returns_node rt).mpr hreadable
    obtain ⟨config, hconfig⟩ := hnode (e.1 ∈ groupHostNames (groups.get? (.str "observers")))
    exact ⟨_, bind_eq_ok.mpr ⟨vars, raising_eq_ok.mpr hvars,
      bind_eq_ok.mpr ⟨config, hconfig, rfl⟩⟩⟩

/-- From the groups on, `parse` returns or refuses exactly where every host is
readable. -/
theorem parseGroups_iff {groups : Dict Scalar Value} :
    (Returns (parseGroups rt groups) ∨
        ∃ message, parseGroups rt groups = .error (.invalidInventory message)) ↔
      ∀ e ∈ (groupHosts (groups.get? (.str "all"))).entries, HostReadable groups e := by
  unfold parseGroups
  split
  · rename_i hnone
    rw [hnone]
    exact iff_of_true (.inr ⟨_, rfl⟩) (List.forall_mem_nil _)
  · constructor
    · rintro (⟨inventory, h⟩ | ⟨message, h⟩)
      · obtain ⟨parsed, hparsed, h⟩ := bind_eq_ok.mp h
        obtain ⟨hosts, hhosts, -⟩ := bind_eq_ok.mp h
        have hkeys := keys_of_mapM_eq_ok (fun e b hb => (read_of_hostNode rt hb).1) hparsed
        intro e he
        refine ⟨?_, (returns_hostNodes rt).mp ⟨parsed, hparsed⟩ e he⟩
        obtain ⟨b, hb, heq⟩ := List.mem_map.mp (hkeys ▸ List.mem_map_of_mem (f := Prod.fst) he)
        exact heq ▸ returns_textKeys.mp ⟨hosts, hhosts⟩ b hb
      · refine absurd h (bind_ne_error (hostNodes_ne_refusal rt _ _) fun parsed => ?_)
        exact bind_ne_error (textKeys_ne_refusal _ _) fun _ => ok_ne_error _ _
    · intro h
      obtain ⟨parsed, hparsed⟩ := (returns_hostNodes rt).mpr fun e he => (h e he).2
      have hkeys := keys_of_mapM_eq_ok (fun e b hb => (read_of_hostNode rt hb).1) hparsed
      have htexts : ∀ b ∈ parsed, (keyText b.1).isSome := by
        intro b hb
        obtain ⟨e, he, heq⟩ := List.mem_map.mp (hkeys ▸ List.mem_map_of_mem (f := Prod.fst) hb)
        exact heq ▸ (h e he).1
      obtain ⟨hosts, hhosts⟩ := returns_textKeys.mpr htexts
      exact .inl ⟨_, bind_eq_ok.mpr ⟨parsed, hparsed, bind_eq_ok.mpr ⟨hosts, hhosts, rfl⟩⟩⟩

/-- **`parse` returns an inventory or raises `InvalidInventory`, exactly on the documents
that are readable.** -/
theorem parses_or_refuses_iff (document : String) :
    ParsesOrRefuses rt document ↔ DocumentReadable rt document := by
  have hsplit : ∀ {loaded : Value}, rt.safeLoad document = .ok loaded →
      parse rt document = parseLoaded rt loaded := fun h => by rw [parse, h]
  cases hload : rt.safeLoad document with
  | error e =>
      cases e with
      | yaml text =>
          refine iff_of_true (.inr ⟨_, by rw [parse, hload]⟩) ⟨by rw [hload]; simp, ?_⟩
          intro loaded groups h
          rw [hload] at h
          cases h
      | other =>
          refine iff_of_false ?_ fun h => h.loads hload
          rintro (⟨inventory, h⟩ | ⟨message, h⟩) <;> rw [parse, hload] at h <;> cases h
  | ok loaded =>
      have hreadable : DocumentReadable rt document ↔ ∀ groups, loaded.asDict = some groups →
          ∀ e ∈ (groupHosts (groups.get? (.str "all"))).entries, HostReadable groups e := by
        constructor
        · exact fun h groups => h.hosts loaded groups hload
        · intro h
          refine ⟨by rw [hload]; simp, fun loaded' groups hload' => ?_⟩
          obtain rfl := Except.ok.inj (hload.symm.trans hload')
          exact h groups
      rw [hreadable, ParsesOrRefuses, hsplit hload, parseLoaded]
      split
      · cases hdict : loaded.asDict with
        | none => exact iff_of_true (.inr ⟨_, rfl⟩) (by rintro groups ⟨⟩)
        | some groups =>
            simp only [Option.some.injEq, forall_eq']
            exact parseGroups_iff rt
      · rename_i hfalse
        -- an empty mapping is the only one that is false
        refine iff_of_true ((parseGroups_iff rt).mpr (List.forall_mem_nil _)) ?_
        intro groups hdict
        cases loaded with
        | map entries =>
            have hempty : entries = [] := by simpa [Value.truthy] using hfalse
            obtain rfl := hempty
            obtain rfl := Option.some.inj hdict
            exact List.forall_mem_nil _
        | scalar _ | seq _ _ => cases hdict

/-! ## The machines of a document -/

/-- The variables of a host. -/
def variablesOf (raw : Value) : Dict Scalar Value :=
  match hostVariables raw with
  | .ok vars => vars
  | .error _ => ∅

/-- The machines of a document by their names, each with what is read of its variables. -/
def machinesOf {α : Type} (groups : Dict Scalar Value) (read : Dict Scalar Value → α) :
    List (String × α) :=
  (groupHosts (groups.get? (.str "all"))).entries.filterMap fun e =>
    (keyText e.1).map fun name => (name, read (variablesOf e.2))

/-- What `_node` makes of the variables of a host, the hosts of the parsed inventory have; of
two machines under one name the later counts. -/
theorem read_of_parse {α : Type} {f : NodeConfig → α}
    {read : Dict Scalar Value → Dict Scalar Value → α}
    (hf : ∀ {groups vars : Dict Scalar Value} {isObserver : Bool} {config : NodeConfig},
      node rt vars isObserver (groupIsolcpus groups) = .ok config → f config = read groups vars)
    {document : String} {inventory : Inventory} (h : parse rt document = .ok inventory) :
    ∃ loaded groups, rt.safeLoad document = .ok loaded ∧ loaded.asDict = some groups ∧
      inventory.hosts.entries.map (fun e => (e.1, f e.2)) =
        (Dict.ofList (machinesOf groups (read groups))).entries := by
  obtain ⟨loaded, groups, parsed, hload, hgroups, hparsed, hhosts, -⟩ := parse_eq_ok rt h
  obtain ⟨pairs, hpairs, hdict⟩ := bind_eq_ok.mp hhosts
  refine ⟨loaded, groups, hload, hgroups, ?_⟩
  rw [← Except.ok.inj hdict]
  refine (Dict.entries_ofList_map f pairs).symm.trans ?_
  congr 2
  -- both lists, entry by entry
  have hread := mapM_eq_ok.mp hparsed
  have hnames := mapM_eq_ok.mp hpairs
  unfold machinesOf
  clear hparsed hhosts hpairs hdict
  generalize (groupHosts (groups.get? (.str "all"))).entries = entries at hread ⊢
  induction hread generalizing pairs with
  | nil =>
      cases hnames
      rfl
  | cons hfirst _ ih =>
      cases hnames with
      | cons hname hmore =>
          obtain ⟨hkey, vars, hvars, hnode⟩ := read_of_hostNode rt hfirst
          obtain ⟨hname, hsame⟩ := textEntry_eq_ok hname
          rw [hkey] at hname
          have hvalue := hf hnode
          simp only [List.map_cons, List.filterMap_cons, hname, Option.map_some, ih _ hmore,
            variablesOf, hvars, hsame, hvalue]

/-! ### Their CPU lists -/

/-- The text `_optional_str` makes of a value it can write. -/
def cpusText : Option Value → Option String
  | none => none
  | some (.scalar .null) => none
  | some v => some (v.text rt.repr)

/-- The machines of a document by their names, each with its CPU list. -/
def machineCpus (groups : Dict Scalar Value) : List (String × Option String) :=
  machinesOf groups fun vars =>
    cpusText rt ((vars.get? (.str "isolcpus")).or (groupIsolcpus groups))

/-- No machine of the document is given more CPUs than a list can have items; of two
machines under one name the later counts. -/
def CpusCountable (document : String) : Prop :=
  ∀ loaded groups, rt.safeLoad document = .ok loaded → loaded.asDict = some groups →
    ∀ e ∈ (Dict.ofList (machineCpus rt groups)).entries, ∀ cpus, e.2 = some cpus →
      cpuCount cpus ≤ rt.listLimit

theorem cpusText_of_optionalStr {value : Option Value} {text : Option String}
    (h : optionalStr rt value = .ok text) : text = cpusText rt value := by
  unfold optionalStr at h
  unfold cpusText
  split at h
  · exact (Except.ok.inj h).symm
  · exact (Except.ok.inj h).symm
  · rename_i v _
    cases htext : v.toText rt.repr with
    | error e =>
        rw [htext] at h
        cases h
    | ok s =>
        rw [htext] at h
        obtain rfl := Except.ok.inj h
        simp [(Value.toText_eq_ok.mp htext).2]

theorem isolcpus_of_node {vars : Dict Scalar Value} {isObserver : Bool}
    {groupIsolcpus : Option Value} {config : NodeConfig}
    (h : node rt vars isObserver groupIsolcpus = .ok config) :
    config.isolcpus = cpusText rt ((vars.get? (.str "isolcpus")).or groupIsolcpus) := by
  obtain ⟨c, hconvert, h⟩ := bind_eq_ok.mp h
  obtain ⟨extra, -, h⟩ := bind_eq_ok.mp h
  obtain ⟨subnet, -, h⟩ := bind_eq_ok.mp h
  obtain ⟨domain, -, h⟩ := bind_eq_ok.mp h
  obtain rfl := Except.ok.inj h
  obtain ⟨-, -, -, -, -, -, -, -, -, -, hcpus⟩ :=
    (convert_eq_ok rt).mp (raising_eq_ok.mp hconvert)
  exact cpusText_of_optionalStr rt hcpus

/-- The hosts of a parsed inventory have the CPU lists of the document's machines. -/
theorem isolcpus_of_parse {document : String} {inventory : Inventory}
    (h : parse rt document = .ok inventory) :
    ∃ loaded groups, rt.safeLoad document = .ok loaded ∧ loaded.asDict = some groups ∧
      inventory.hosts.entries.map (fun e => (e.1, e.2.isolcpus)) =
        (Dict.ofList (machineCpus rt groups)).entries :=
  read_of_parse rt (fun hnode => isolcpus_of_node rt hnode) h

/-- A document that is refused has no host. -/
theorem no_host_of_refusal {document message : String} {loaded : Value}
    {groups : Dict Scalar Value} (h : parse rt document = .error (.invalidInventory message))
    (hload : rt.safeLoad document = .ok loaded) (hgroups : loaded.asDict = some groups) :
    (groupHosts (groups.get? (.str "all"))).entries = [] := by
  have hrefused : ∀ g : Dict Scalar Value,
      parseGroups rt g = .error (.invalidInventory message) →
        (groupHosts (g.get? (.str "all"))).entries = [] := by
    intro g hg
    by_contra hsome
    rw [parseGroups, if_neg hsome] at hg
    refine absurd hg (bind_ne_error (hostNodes_ne_refusal rt _ _) fun parsed => ?_)
    exact bind_ne_error (textKeys_ne_refusal _ _) fun _ => ok_ne_error _ _
  rw [parse, hload] at h
  simp only [parseLoaded, hgroups] at h
  split at h
  · exact hrefused groups h
  · rename_i hfalse
    -- an empty mapping
    cases loaded with
    | map entries =>
        have hempty : entries = [] := by simpa [Value.truthy] using hfalse
        obtain rfl := hempty
        obtain rfl := Option.some.inj hgroups
        rfl
    | scalar _ | seq _ _ => cases hgroups

/-- `validate` of what is parsed returns exactly if the CPUs of each machine can be
listed. -/
theorem validateRaises_of_parse {document : String} {inventory : Inventory}
    (h : parse rt document = .ok inventory) :
    validateRaises rt inventory = false ↔ CpusCountable rt document := by
  obtain ⟨loaded, groups, hload, hgroups, hcpus⟩ := isolcpus_of_parse rt h
  have hcountable : CpusCountable rt document ↔
      ∀ e ∈ inventory.hosts.entries, ∀ cpus, e.2.isolcpus = some cpus →
        cpuCount cpus ≤ rt.listLimit := by
    constructor
    · intro hall e he cpus heq
      refine hall loaded groups hload hgroups (e.1, e.2.isolcpus) ?_ cpus heq
      exact hcpus ▸ List.mem_map_of_mem he
    · intro hall loaded' groups' hload' hgroups' e he cpus heq
      obtain rfl := Except.ok.inj (hload.symm.trans hload')
      obtain rfl := Option.some.inj (hgroups.symm.trans hgroups')
      rw [← hcpus] at he
      obtain ⟨e', he', rfl⟩ := List.mem_map.mp he
      exact hall e' he' cpus heq
  -- an empty text names no CPU
  have hempty : cpuCount "" = 0 := by decide
  rw [hcountable, validateRaises, List.any_eq_false]
  refine forall₂_congr fun e _ => ?_
  cases e.2.isolcpus with
  | none => simp
  | some cpus =>
      by_cases hblank : cpus = ""
      · simp [hblank, hempty, Option.filter]
      · simp [hblank, Option.filter]

/-! ### Their variables that are not modelled -/

/-- The variables of a host that the model keeps as they are. -/
def extraOf (vars : Dict Scalar Value) : Dict String Value :=
  Dict.ofList ((vars.filterKeys isExtra).entries.filterMap fun e =>
    (keyText e.1).map fun name => (name, e.2))

/-- Each machine's variables that are not modelled are all of this kind. -/
def ExtrasAre (kind : Value → Bool) (document : String) : Prop :=
  ∀ loaded groups, rt.safeLoad document = .ok loaded → loaded.asDict = some groups →
    ∀ e ∈ (Dict.ofList (machinesOf groups extraOf)).entries, ∀ x ∈ e.2.entries, kind x.2 = true

theorem extra_eq_extraOf {vars : Dict Scalar Value} {isObserver : Bool}
    {groupIsolcpus : Option Value} {config : NodeConfig}
    (h : node rt vars isObserver groupIsolcpus = .ok config) : config.extra = extraOf vars := by
  obtain ⟨pairs, hpairs, hdict⟩ := bind_eq_ok.mp (extra_of_node rt h)
  have hentries : pairs = (vars.filterKeys isExtra).entries.filterMap fun e =>
      (keyText e.1).map fun name => (name, e.2) := by
    have hread := mapM_eq_ok.mp hpairs
    clear hpairs hdict
    generalize (vars.filterKeys isExtra).entries = entries at hread
    induction hread with
    | nil => rfl
    | cons hfirst _ ih =>
        obtain ⟨hname, hsame⟩ := textEntry_eq_ok hfirst
        simp only [List.filterMap_cons, hname, Option.map_some, ← hsame, ← ih]
  rw [← Except.ok.inj hdict, hentries, extraOf]

/-- The variables that a parsed inventory keeps are those of the document's machines. -/
theorem extras_of_parse {kind : Value → Bool} {document : String} {inventory : Inventory}
    (h : parse rt document = .ok inventory) :
    (∀ e ∈ inventory.hosts.entries, ∀ x ∈ e.2.extra.entries, kind x.2 = true) ↔
      ExtrasAre rt kind document := by
  obtain ⟨loaded, groups, hload, hgroups, hextras⟩ :=
    @read_of_parse rt _ (fun config => config.extra) (fun _ vars => extraOf vars)
      (fun hnode => extra_eq_extraOf rt hnode) _ _ h
  constructor
  · intro hall loaded' groups' hload' hgroups' e he x hx
    obtain rfl := Except.ok.inj (hload.symm.trans hload')
    obtain rfl := Option.some.inj (hgroups.symm.trans hgroups')
    rw [← hextras] at he
    obtain ⟨e', he', rfl⟩ := List.mem_map.mp he
    exact hall e' he' x hx
  · intro hall e he x hx
    refine hall loaded groups hload hgroups (e.1, e.2.extra) ?_ x hx
    exact hextras ▸ List.mem_map_of_mem he

end Conversions

end SeapathWebui.Inventory
