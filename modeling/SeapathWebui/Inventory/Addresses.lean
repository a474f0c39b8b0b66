/-
  Inventory/Addresses.lean --- which machines of an accepted inventory share an address.

  Source: `_validate_across_hosts` of app/inventory/validation.py.

  The rule keeps a table of the texts it has seen, so an inventory without an error has
  no text twice (`noError_across`).  An address of the first family has one text; one of
  the second has many, and two machines given one such address in two spellings pass.
-/
import SeapathWebui.Inventory.Validation

set_option autoImplicit false

namespace SeapathWebui.Inventory

open SeapathWebui.Foundation

/-- The texts of the administration addresses, in order. -/
def spellings (inventory : Inventory) : List String :=
  inventory.hosts.entries.map fun e => e.2.ansibleHost

/-- The administration addresses are addresses of different machines. -/
def DistinctAddresses (inventory : Inventory) : Prop :=
  ((spellings inventory).map fun s => address (some s)).Nodup

/-- No address of the second family is given in two spellings. -/
def OneSpelling (inventory : Inventory) : Prop :=
  ∀ s ∈ spellings inventory, ∀ t ∈ spellings inventory, ∀ ip scope,
    address (some s) = some (.v6 ip scope) → address (some t) = some (.v6 ip scope) → s = t

/-- The one pass over the machines: no text is there twice, nor in the table already. -/
theorem noError_across {entries : List (String × NodeConfig)} :
    ∀ {seen : Dict String String}, NoError (validateAcrossHosts seen entries) ↔
      (∀ e ∈ entries, seen.get? e.2.ansibleHost = none) ∧
        (entries.map fun e => e.2.ansibleHost).Nodup := by
  induction entries with
  | nil => exact fun {seen} => ⟨fun _ => ⟨List.forall_mem_nil _, List.nodup_nil⟩,
      fun _ f hf => nomatch hf⟩
  | cons e rest ih =>
      obtain ⟨name, node⟩ := e
      intro seen
      have hlater : (∀ e ∈ rest, (seen.set node.ansibleHost name).get? e.2.ansibleHost = none) ↔
          (∀ e ∈ rest, seen.get? e.2.ansibleHost = none) ∧
            ∀ e ∈ rest, e.2.ansibleHost ≠ node.ansibleHost := by
        rw [← forall₂_and]
        refine forall₂_congr fun e _ => ?_
        rw [Dict.get?_set]
        split
        · rename_i heq
          simp [heq]
        · rename_i hne
          exact ⟨fun h => ⟨h, Ne.symm hne⟩, fun h => h.1⟩
      rw [validateAcrossHosts, noError_append, ih, hlater, List.forall_mem_cons, List.map_cons,
        List.nodup_cons]
      simp only [List.mem_map, not_exists, not_and]
      cases seen.get? node.ansibleHost with
      | none =>
          have hnothing : NoError [] := fun f hf => nomatch hf
          simp only [hnothing, true_and]
          tauto
      | some owner =>
          -- the text has an owner: the first finding is an error
          refine iff_of_false (fun h => ?_) fun h => nomatch h.1.1
          exact h.1 _ (List.mem_singleton_self _) rfl

variable (rt : Runtime)

theorem nodup_spellings {inventory : Inventory} (h : Accepts rt inventory) :
    (spellings inventory).Nodup := by
  have hnone := valid_iff_noError.mp h.2
  simp only [validate] at hnone
  exact (noError_across.mp (noError_append.mp hnone).2).2

theorem isSome_address {inventory : Inventory} (h : Accepts rt inventory) {s : String}
    (hs : s ∈ spellings inventory) : ∃ ip, address (some s) = some ip := by
  obtain ⟨⟨name, node⟩, he, rfl⟩ := List.mem_map.mp hs
  have hnone := valid_iff_noError.mp h.2
  simp only [validate] at hnone
  have hhosts := (noError_append.mp (noError_append.mp hnone).1).2
  have hhost : NoError (validateHost rt name node) :=
    fun f hf => hhosts f (List.mem_flatMap.mpr ⟨(name, node), he, hf⟩)
  obtain ⟨ip, hip, -⟩ := ((noError_validateHost rt).mp hhost).address
  exact ⟨ip, hip⟩

/-- Where every address of the second family is written as `str` writes it, none is given in
two spellings. -/
theorem oneSpelling_of_text {inventory : Inventory}
    (h : ∀ s ∈ spellings inventory, ∀ ip scope, address (some s) = some (.v6 ip scope) →
      s = (IpAddress.v6 ip scope).text) : OneSpelling inventory :=
  fun s hs t ht ip scope hs6 ht6 => (h s hs ip scope hs6).trans (h t ht ip scope ht6).symm

/-- **The machines of an accepted inventory have different addresses exactly if no two of them
are given one IPv6 address in two spellings.** -/
theorem distinct_addresses_iff {inventory : Inventory} (h : Accepts rt inventory) :
    DistinctAddresses inventory ↔ OneSpelling inventory := by
  have hnodup := nodup_spellings rt h
  constructor
  · intro hdistinct s hs t ht ip scope hs6 ht6
    exact List.inj_on_of_nodup_map hdistinct hs ht (hs6.trans ht6.symm)
  · intro hone
    refine (List.nodup_map_iff_inj_on hnodup).mpr fun s hs t ht heq => ?_
    obtain ⟨ip, hip⟩ := isSome_address rt h hs
    cases ip with
    | v4 ip => exact IpAddress.eq_of_parse_v4 hip (heq.symm.trans hip)
    | v6 ip scope => exact hone s hs t ht ip scope hip (heq.symm.trans hip)

/-! ### One address, two texts -/

/-- A machine at this address. -/
def machineAt (text : String) : NodeConfig where
  ansibleHost := text
  networkInterface := "eno1"

/-- A cluster of two. -/
def pairAt (text other : String) : Inventory where
  mode := .cluster
  hosts := Dict.ofList [("node1", machineAt text), ("node2", machineAt other)]

theorem accepts_pairAt_v4 :
    Accepts Runtime.silent (pairAt "192.168.200.125" "192.168.200.126") := by
  decide +kernel

theorem distinct_addresses_v4 :
    DistinctAddresses (pairAt "192.168.200.125" "192.168.200.126") ↔
      OneSpelling (pairAt "192.168.200.125" "192.168.200.126") :=
  distinct_addresses_iff Runtime.silent accepts_pairAt_v4

/-- The zeros of an address may be left out, or not. -/
theorem two_machines_share_an_address :
    Accepts Runtime.silent (pairAt "fd00::1" "fd00:0::1") ∧
      ¬ DistinctAddresses (pairAt "fd00::1" "fd00:0::1") := by
  have hvalid : Accepts Runtime.silent (pairAt "fd00::1" "fd00:0::1") := by decide +kernel
  have hone : address (some "fd00::1") = address (some "fd00:0::1") := by decide +kernel
  refine ⟨hvalid, fun hdistinct => ?_⟩
  have htwo : spellings (pairAt "fd00::1" "fd00:0::1") = ["fd00::1", "fd00:0::1"] := by
    decide +kernel
  rw [DistinctAddresses, htwo] at hdistinct
  simp [hone] at hdistinct

end SeapathWebui.Inventory
