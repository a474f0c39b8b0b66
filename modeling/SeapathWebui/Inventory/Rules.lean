/-
  Inventory/Rules.lean --- which rule reports what, and what the host name rule lets pass.

  Source: `_validate_host` and `_HOSTNAME` of app/inventory/validation.py.

  Every finding about a machine names the machine, and each block of `_validate_host` has
  rules of its own.  So a finding is known by its rule to come from one block
  (`mem_block_iff`).

  The pattern of a host name ignores case over all of Unicode, and its `$` matches before
  a newline: a name is matched as if it were another, `asMatched`.
-/
import Mathlib.Data.List.Pairwise
import SeapathWebui.Inventory.Validation

set_option autoImplicit false

namespace SeapathWebui.Inventory

open SeapathWebui.Foundation SeapathWebui.Hosts

/-! ## Who reports a finding -/

/-- The findings are about one machine, by these rules. -/
def Reports (name : String) (rules : List String) (findings : List Finding) : Prop :=
  ∀ f ∈ findings, f.host = some name ∧ f.rule ∈ rules

variable (rt : Runtime)

theorem reports_append {name : String} {rules more : List String}
    {findings others : List Finding} (h : Reports name rules findings)
    (hmore : Reports name more others) : Reports name (rules ++ more) (findings ++ others) := by
  intro f hf
  rcases List.mem_append.mp hf with hf | hf
  · exact ⟨(h f hf).1, List.mem_append_left _ (h f hf).2⟩
  · exact ⟨(hmore f hf).1, List.mem_append_right _ (hmore f hf).2⟩

/-- The rules of the blocks of `_validate_host`. -/
def ruleTable : List (List String) :=
  [["host_key_is_a_hostname"],
    ["administration_address_is_an_address", "administration_address_is_not_loopback"],
    ["administration_interface_is_named"],
    ["gateway_is_an_address", "gateway_is_reachable"],
    ["dns_servers_are_addresses"],
    ["observer_has_no_ptp", "hypervisor_has_ptp", "ptp_is_not_the_administration_interface"],
    ["ntp_fallback_exists"],
    ["grub_password_is_a_hash"],
    ["isolation_is_configured", "isolcpus_is_a_cpu_list", "cpu_zero_stays_housekeeping"]]

/-- The blocks of `_validate_host`, each with its rules. -/
def blocks (name : String) (node : NodeConfig) : List (List String × List Finding) :=
  ruleTable.zip
    [hostnameFindings rt name, addressFindings rt name node, interfaceFindings name node,
      gatewayFindings rt name node, dnsFindings rt name node, ptpFindings name node,
      ntpFindings name node, grubFindings name node, isolcpusFindings rt name node]

theorem rules_blocks (name : String) (node : NodeConfig) :
    (blocks rt name node).map (·.1) = ruleTable := rfl

theorem validateHost_eq_blocks (name : String) (node : NodeConfig) :
    validateHost rt name node = (blocks rt name node).flatMap (·.2) := by
  simp [validateHost, blocks, ruleTable]

theorem reports_blocks (name : String) (node : NodeConfig) :
    ∀ block ∈ blocks rt name node, Reports name block.1 block.2 := by
  simp only [blocks, ruleTable, List.zip_cons_cons, List.zip_nil_left, List.forall_mem_cons]
  refine ⟨?_, ?_, ?_, ?_, ?_, ?_, ?_, ?_, ?_, List.forall_mem_nil _⟩
  · unfold hostnameFindings
    split <;> simp [Reports]
  · unfold addressFindings
    split
    · simp [Reports]
    · split <;> simp [Reports]
  · unfold interfaceFindings
    split <;> simp [Reports]
  · unfold gatewayFindings
    split
    · simp [Reports]
    · split
      · simp [Reports]
      · split <;> simp [Reports]
      · simp [Reports]
  · intro f hf
    obtain ⟨server, -, hf⟩ := List.mem_flatMap.mp hf
    split at hf
    · obtain rfl := List.mem_singleton.mp hf
      exact ⟨rfl, List.mem_cons_self⟩
    · cases hf
  · unfold ptpFindings
    refine @reports_append _ [_, _] _ _ _ (@reports_append _ [_] _ _ _ ?_ ?_) ?_
    all_goals split <;> simp [Reports]
  · unfold ntpFindings
    split <;> simp [Reports]
  · unfold grubFindings
    split
    · simp [Reports]
    · split <;> simp [Reports]
  · unfold isolcpusFindings
    split
    · simp [Reports]
    · split
      · simp [Reports]
      · split <;> simp [Reports]

/-- No rule stands in two blocks. -/
theorem block_eq_of_rule {name : String} {node : NodeConfig}
    {block other : List String × List Finding} (h : block ∈ blocks rt name node)
    (hother : other ∈ blocks rt name node) {rule : String} (hrule : rule ∈ block.1)
    (hsame : rule ∈ other.1) : block = other := by
  have htable : ruleTable.Pairwise fun rules more => ∀ r ∈ rules, r ∉ more := by decide +kernel
  rw [← rules_blocks rt name node, List.pairwise_map] at htable
  have hsymmetric : Std.Symm fun b b' : List String × List Finding => ∀ r ∈ b.1, r ∉ b'.1 :=
    ⟨fun b b' hdisjoint r hr hr' => hdisjoint r hr' hr⟩
  by_contra hne
  exact htable.forall h hother hne rule hrule hsame

theorem rule_of_across {f : Finding} {entries : List (String × NodeConfig)} :
    ∀ {seen : Dict String String}, f ∈ validateAcrossHosts seen entries →
      f.rule = "addresses_are_unique" := by
  induction entries with
  | nil => exact fun hf => nomatch hf
  | cons e rest ih =>
      intro seen hf
      rcases List.mem_append.mp hf with hf | hf
      · split at hf
        · cases hf
        · obtain rfl := List.mem_singleton.mp hf
          rfl
      · exact ih hf

/-- What `validate` says of a machine by the rules of a block is what the block says. -/
theorem mem_block_iff {inventory : Inventory} {name : String} {node : NodeConfig}
    (h : (name, node) ∈ inventory.hosts.entries) {block : List String × List Finding}
    (hblock : block ∈ blocks rt name node) {f : Finding} :
    f ∈ block.2 ↔
      f ∈ (validate rt inventory).findings ∧ f.host = some name ∧ f.rule ∈ block.1 := by
  constructor
  · intro hf
    obtain ⟨hhost, hrule⟩ := reports_blocks rt name node block hblock f hf
    refine ⟨?_, hhost, hrule⟩
    have hvalidated : f ∈ validateHost rt name node := by
      rw [validateHost_eq_blocks]
      exact List.mem_flatMap.mpr ⟨block, hblock, hf⟩
    exact List.mem_append_left _ (List.mem_append_right _
      (List.mem_flatMap.mpr ⟨(name, node), h, hvalidated⟩))
  · rintro ⟨hf, hhost, hrule⟩
    rcases List.mem_append.mp hf with hf | hf
    · rcases List.mem_append.mp hf with hf | hf
      -- about the inventory as a whole
      · rcases List.mem_append.mp hf with hf | hf
        all_goals
          split at hf
          · obtain rfl := List.mem_singleton.mp hf
            cases hhost
          · cases hf
      · obtain ⟨⟨name', node'⟩, hentry, hf⟩ := List.mem_flatMap.mp hf
        rw [validateHost_eq_blocks] at hf
        obtain ⟨other, hother, hf⟩ := List.mem_flatMap.mp hf
        obtain ⟨hhost', hrule'⟩ := reports_blocks rt name' node' other hother f hf
        obtain rfl : name' = name := Option.some.inj (hhost'.symm.trans hhost)
        obtain rfl : node' = node := Option.some.inj
          ((Dict.mem_entries_iff.mp hentry).symm.trans (Dict.mem_entries_iff.mp h))
        rwa [block_eq_of_rule rt hblock hother hrule hrule']
    · rw [rule_of_across hf] at hrule
      have hnone : ∀ rules ∈ ruleTable, "addresses_are_unique" ∉ rules := by decide +kernel
      rw [← rules_blocks rt name node] at hnone
      exact absurd hrule (hnone _ (List.mem_map_of_mem hblock))

/-! ## The host name rule -/

/-- A label of a host name: 1 to 63 ASCII letters, digits and hyphens, no hyphen at either
end. -/
structure IsLabel (name : String) : Prop where
  nonempty : name.toList ≠ []
  length : name.toList.length ≤ 63
  chars : ∀ c ∈ name.toList, c.isAlphanum = true ∨ c = '-'
  first : name.toList.head? ≠ some '-'
  last : name.toList.getLast? ≠ some '-'

/-- The letter that a character is matched as, case ignored. -/
def asMatchedChar (c : Char) : Char :=
  if c.toNat = 0x130 ∨ c.toNat = 0x131 then 'i'
  else if c.toNat = 0x17F then 's'
  else if c.toNat = 0x212A then 'k'
  else c

/-- `$` matches before a newline at the end. -/
def dropFinalNewline (l : List Char) : List Char :=
  if l.getLast? = some '\n' then l.dropLast else l

/-- The name that a name is matched as. -/
def asMatched (name : String) : String :=
  String.ofList ((dropFinalNewline name.toList).map asMatchedChar)

theorem isHostnameChar_iff (c : Char) :
    isHostnameChar c = true ↔ (asMatchedChar c).isAlphanum = true := by
  unfold isHostnameChar asMatchedChar
  split
  · rename_i h
    exact iff_of_true (by rcases h with h | h <;> simp [h]) (by decide)
  · rename_i hi
    split
    · rename_i h
      exact iff_of_true (by simp [h]) (by decide)
    · rename_i hs
      split
      · rename_i h
        exact iff_of_true (by simp [h]) (by decide)
      · rename_i hk
        obtain ⟨hcapital, hdotless⟩ := not_or.mp hi
        simp [hcapital, hdotless, hs, hk]

theorem asMatchedChar_eq_hyphen {c : Char} : asMatchedChar c = '-' ↔ c = '-' := by
  constructor
  · intro h
    unfold asMatchedChar at h
    split at h
    · exact absurd h (by decide)
    · split at h
      · exact absurd h (by decide)
      · split at h
        · exact absurd h (by decide)
        · exact h
  · rintro rfl
    decide

theorem lt_of_isAlphanum {c : Char} (h : c.isAlphanum = true) : c.toNat < 128 := by
  have hbound : ∀ high : UInt32, c.val ≤ high → high.toNat < 128 → c.toNat < 128 :=
    fun high hle hhigh => lt_of_le_of_lt (UInt32.le_iff_toNat_le.mp hle) hhigh
  rcases Bool.or_eq_true_iff.mp h with hletter | hdigit
  · rcases Bool.or_eq_true_iff.mp hletter with hupper | hlower
    · exact hbound 'Z'.val (of_decide_eq_true hupper).2 (by decide)
    · exact hbound 'z'.val (of_decide_eq_true (Bool.and_eq_true_iff.mp hlower).2) (by decide)
  · exact hbound '9'.val (of_decide_eq_true (Bool.and_eq_true_iff.mp hdigit).2) (by decide)

/-- Letters, digits and hyphens of ASCII are matched as themselves. -/
theorem asMatchedChar_eq_self {c : Char} (h : c.isAlphanum = true ∨ c = '-') :
    asMatchedChar c = c := by
  rcases h with h | rfl
  · have hascii := lt_of_isAlphanum h
    unfold asMatchedChar
    rw [if_neg (by omega), if_neg (by omega), if_neg (by omega)]
  · decide

theorem matches_body_iff (c : Char) : (isHostnameChar c || c == '-') = true ↔
    (asMatchedChar c).isAlphanum = true ∨ asMatchedChar c = '-' := by
  rw [Bool.or_eq_true, isHostnameChar_iff, beq_iff_eq, asMatchedChar_eq_hyphen]

/-- At either end stands a character of the name that is no hyphen. -/
theorem matches_end_iff {c : Char}
    (h : (asMatchedChar c).isAlphanum = true ∨ asMatchedChar c = '-') :
    isHostnameChar c = true ↔ asMatchedChar c ≠ '-' := by
  rw [isHostnameChar_iff]
  rcases h with h | h
  · refine iff_of_true h fun heq => ?_
    rw [heq] at h
    exact absurd h (by decide)
  · rw [h]
    decide

theorem isHostnameBody_iff (l : List Char) :
    isHostnameBody l = true ↔ IsLabel (String.ofList (l.map asMatchedChar)) := by
  unfold isHostnameBody
  simp only [Bool.and_eq_true, decide_eq_true_eq, List.all_eq_true, matches_body_iff,
    Option.any_eq_true]
  constructor
  · rintro ⟨⟨⟨hlength, hchars⟩, first, hfirst, hfirstChar⟩, last, hlast, hlastChar⟩
    have hmemFirst := List.mem_of_mem_head? hfirst
    have hmemLast := List.mem_of_getLast? hlast
    refine ⟨?_, ?_, ?_, ?_, ?_⟩
    · rw [String.toList_ofList]
      exact mt List.map_eq_nil_iff.mp (List.ne_nil_of_mem hmemFirst)
    · rwa [String.toList_ofList, List.length_map]
    · rw [String.toList_ofList, List.forall_mem_map]
      exact hchars
    · rw [String.toList_ofList, List.head?_map, hfirst]
      exact fun heq => (matches_end_iff (hchars _ hmemFirst)).mp hfirstChar (Option.some.inj heq)
    · rw [String.toList_ofList, List.getLast?_map, hlast]
      exact fun heq => (matches_end_iff (hchars _ hmemLast)).mp hlastChar (Option.some.inj heq)
  · rintro ⟨hnonempty, hlength, hchars, hfirst, hlast⟩
    rw [String.toList_ofList] at hnonempty hlength hchars hfirst hlast
    rw [List.forall_mem_map] at hchars
    have hne : l ≠ [] := fun hnil => hnonempty (by rw [hnil]; rfl)
    rw [List.head?_map, List.head?_eq_some_head hne] at hfirst
    rw [List.getLast?_map, List.getLast?_eq_some_getLast hne] at hlast
    refine ⟨⟨⟨by rwa [List.length_map] at hlength, hchars⟩, _, List.head?_eq_some_head hne, ?_⟩,
      _, List.getLast?_eq_some_getLast hne, ?_⟩
    · exact (matches_end_iff (hchars _ (List.head_mem hne))).mpr fun heq =>
        hfirst (congrArg some heq)
    · exact (matches_end_iff (hchars _ (List.getLast_mem hne))).mpr fun heq =>
        hlast (congrArg some heq)

/-- A name is accepted exactly if what it is matched as is a label. -/
theorem isHostname_iff (name : String) : isHostname name = true ↔ IsLabel (asMatched name) := by
  rw [isHostname, Bool.or_eq_true, Bool.and_eq_true, beq_iff_eq, asMatched, dropFinalNewline]
  by_cases hnewline : name.toList.getLast? = some '\n'
  · rw [if_pos hnewline, isHostnameBody_iff, isHostnameBody_iff]
    refine ⟨fun h => ?_, fun h => .inr ⟨hnewline, h⟩⟩
    rcases h with h | h
    -- the newline itself is not matched by a letter
    · have hmem := List.mem_map_of_mem (f := asMatchedChar) (List.mem_of_getLast? hnewline)
      rw [← String.toList_ofList (l := name.toList.map asMatchedChar)] at hmem
      have hchar := h.chars _ hmem
      exact absurd hchar (by decide)
    · exact h.2
  · rw [if_neg hnewline, isHostnameBody_iff]
    exact or_iff_left fun h => hnewline h.1

theorem asMatched_of_isLabel {name : String} (h : IsLabel name) : asMatched name = name := by
  have hnewline : name.toList.getLast? ≠ some '\n' := by
    intro hlast
    exact absurd (h.chars _ (List.mem_of_getLast? hlast)) (by decide)
  have hself : name.toList.map asMatchedChar = name.toList :=
    (List.map_congr_left fun c hc => asMatchedChar_eq_self (h.chars c hc)).trans (List.map_id' _)
  rw [asMatched, dropFinalNewline, if_neg hnewline, hself, String.ofList_toList]

/-- `validate` reports that the host key is no host name. -/
def ReportsHostKey (inventory : Inventory) (name : String) : Prop :=
  ∃ f ∈ (validate rt inventory).findings,
    f.rule = "host_key_is_a_hostname" ∧ f.host = some name

theorem reportsHostKey_iff {inventory : Inventory} {name : String} {node : NodeConfig}
    (h : (name, node) ∈ inventory.hosts.entries) :
    ReportsHostKey rt inventory name ↔ ¬ IsLabel (asMatched name) := by
  have hblock : (["host_key_is_a_hostname"], hostnameFindings rt name) ∈ blocks rt name node :=
    List.mem_cons_self
  rw [← isHostname_iff]
  constructor
  · rintro ⟨f, hf, hrule, hhost⟩ haccepted
    have hmem := (mem_block_iff rt h hblock).mpr ⟨hf, hhost, List.mem_singleton.mpr hrule⟩
    rw [hostnameFindings, if_pos haccepted] at hmem
    cases hmem
  · intro hrefused
    have hfindings : hostnameFindings rt name ≠ [] := by
      rw [hostnameFindings, if_neg hrefused]
      exact List.cons_ne_nil _ _
    obtain ⟨f, hf⟩ := List.exists_mem_of_ne_nil _ hfindings
    obtain ⟨hmem, hhost, hrule⟩ := (mem_block_iff rt h hblock).mp hf
    exact ⟨f, hmem, List.mem_singleton.mp hrule, hhost⟩

/-- **The host key rule reports exactly what is no host name if and only if the name is
matched as itself, or as no label either.** -/
theorem host_key_rule_iff {inventory : Inventory} {name : String} {node : NodeConfig}
    (h : (name, node) ∈ inventory.hosts.entries) :
    (ReportsHostKey rt inventory name ↔ ¬ IsLabel name) ↔
      asMatched name = name ∨ ¬ IsLabel (asMatched name) := by
  rw [reportsHostKey_iff rt h]
  constructor
  · intro hrule
    by_cases hlabel : IsLabel (asMatched name)
    · exact .inl (asMatched_of_isLabel (not_not.mp fun hnot => hrule.mpr hnot hlabel))
    · exact .inr hlabel
  · rintro (hself | hnot)
    · rw [hself]
    · refine iff_of_true hnot fun hlabel => hnot ?_
      rwa [asMatched_of_isLabel hlabel]

/-- A machine with an address. -/
def plainNode : NodeConfig where
  ansibleHost := "192.168.200.125"
  networkInterface := "eno1"

/-- One machine with it. -/
def plainInventory (name : String) : Inventory where
  hosts := Dict.ofList [(name, plainNode)]

theorem mem_plainInventory (name : String) :
    (name, plainNode) ∈ (plainInventory name).hosts.entries := List.mem_cons_self

theorem host_key_rule_node1 :
    (ReportsHostKey Runtime.silent (plainInventory "node1") "node1" ↔ ¬ IsLabel "node1") ↔
      asMatched "node1" = "node1" ∨ ¬ IsLabel (asMatched "node1") :=
  host_key_rule_iff Runtime.silent (mem_plainInventory "node1")

/-- What the pattern matches in spite of a character that no label has. -/
theorem passes_of_char {name : String} {c : Char} (hc : c ∈ name.toList)
    (hother : ¬ (c.isAlphanum = true ∨ c = '-')) (haccepted : isHostname name = true) :
    ¬ IsLabel name ∧ ¬ ReportsHostKey Runtime.silent (plainInventory name) name := by
  rw [reportsHostKey_iff Runtime.silent (mem_plainInventory name), not_not]
  exact ⟨fun hlabel => hother (hlabel.chars c hc), (isHostname_iff name).mp haccepted⟩

/-- A newline at the end passes, and so does a letter that is no ASCII letter. -/
theorem host_key_rule_lets_pass :
    (¬ IsLabel "node1\n" ∧
        ¬ ReportsHostKey Runtime.silent (plainInventory "node1\n") "node1\n") ∧
      (¬ IsLabel "\u017Fite1" ∧
        ¬ ReportsHostKey Runtime.silent (plainInventory "\u017Fite1") "\u017Fite1") :=
  ⟨@passes_of_char "node1\n" '\n' (by decide) (by decide) (by decide +kernel),
    @passes_of_char "\u017Fite1" '\u017F' (by decide) (by decide) (by decide +kernel)⟩

end SeapathWebui.Inventory
