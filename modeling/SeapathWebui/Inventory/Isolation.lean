/-
  Inventory/Isolation.lean --- the isolated CPUs a machine proposes about itself.

  Source: `_propose_isolation` and `discover` of app/inventory/discovery.py, over
  `LocalHostReader.cpu` of app/hosts/local.py.

  A machine that isolates CPUs already proposes those.  One that isolates none proposes
  all but the first four of as many as are online, as if they were numbered without a
  hole; hence `proposed_isolation_possible_iff`.
-/
import SeapathWebui.Hosts.Cpu
import SeapathWebui.Inventory.CpuLists

set_option autoImplicit false

namespace SeapathWebui.Inventory

open SeapathWebui.Foundation SeapathWebui.Foundation.Text SeapathWebui.Hosts

/-- Nothing is to be isolated, or a list of CPUs that are online, CPU 0 not among them. -/
def Isolable (online : List Int) (isolcpus : Option String) : Prop :=
  ∀ text, isolcpus = some text →
    parseCpuList text ≠ [] ∧ (∀ c ∈ parseCpuList text, c ∈ online) ∧ 0 ∉ parseCpuList text

/-- No hole shows among the CPUs after the first four: as many are online, by number. -/
def Contiguous (online : List Int) : Prop :=
  ∀ c, housekeepingCpus ≤ c → c < online.length → c ∈ online

/-! ## CPUs that are isolated already -/

theorem proposeIsolation_of_isolated {cpus : List Int} (hne : cpus ≠ []) (h : Increasing cpus)
    (online : Option Int) : proposeIsolation cpus online = asCpuList cpus := by
  obtain ⟨cpu, rest, rfl⟩ := List.exists_cons_of_ne_nil hne
  rw [asCpuList, if_pos fun c hc => (h.cpu c hc).2]
  rfl

/-- What is proposed is what is isolated. -/
theorem isolable_of_isolated {isolated online : List Int} (hne : isolated ≠ [])
    (h : Increasing isolated) (honline : ∀ c ∈ isolated, c ∈ online) (count : Option Int) :
    Isolable online (proposeIsolation isolated count) ↔ 0 ∉ isolated := by
  obtain ⟨runs, htext, hread, -⟩ := roundTrips_of_increasing hne h
  rw [proposeIsolation_of_isolated hne h, htext]
  constructor
  · intro hpossible
    obtain ⟨-, -, hzero⟩ := hpossible _ rfl
    rwa [hread] at hzero
  · intro hzero text heq
    obtain rfl := Option.some.inj heq
    rw [hread]
    exact ⟨hne, honline, hzero⟩

/-! ## CPUs by their number -/

/-- A single range, written with both its ends. -/
theorem parseCpuList_dash {n m : Nat} (hn : n < 10 ^ maxDigits) (hm : m < 10 ^ maxDigits) :
    parseCpuList (toString (n : Int) ++ "-" ++ toString (m : Int)) = interval n m := by
  have hchars : ∀ c ∈ (toString (n : Int) ++ "-" ++ toString (m : Int)).toList,
      c.isDigit = true ∨ c = '-' := by
    intro c hc
    rw [String.toList_append, String.toList_append] at hc
    rcases List.mem_append.mp hc with hc | hc
    · rcases List.mem_append.mp hc with hc | hc
      · exact .inl ((isDecimal_toString n).2 c hc)
      · exact .inr (List.mem_singleton.mp hc)
    · exact .inl ((isDecimal_toString m).2 c hc)
  rw [parseCpuList_of_chars hchars, parseCpuChunk_dash hn hm,
    sorted_dedup_eq_self (pairwise_interval n m)]

/-- There are no more CPUs than there are numbers. -/
theorem length_lt_of_increasing {cpus : List Int} (h : Increasing cpus) :
    cpus.length - 1 < 10 ^ maxDigits := by
  by_cases hnil : cpus = []
  · subst hnil
    exact Nat.pow_pos (by decide)
  · obtain ⟨last, hlast, hlength⟩ :=
      exists_le_of_increasing hnil h.sorted fun c hc => (h.cpu c hc).1
    refine lt_of_le_of_lt ?_ (h.cpu last hlast).2
    omega

/-- The housekeeping CPUs are all there are. -/
theorem proposeIsolation_of_few {n : Nat} (hfew : (n : Int) ≤ housekeepingCpus) :
    proposeIsolation [] (some (n : Int) |>.filter (· ≠ 0)) = none := by
  rw [Option.filter_some]
  split
  · rw [proposeIsolation, if_pos hfew]
  · rfl

/-- The others are proposed by number. -/
theorem proposeIsolation_of_more {n : Nat} (hmore : ¬ (n : Int) ≤ housekeepingCpus) :
    proposeIsolation [] (some (n : Int) |>.filter (· ≠ 0)) =
      some (toString housekeepingCpus ++ "-" ++ toString ((n - 1 : Nat) : Int)) := by
  have hfour : 4 < n := by
    rw [housekeepingCpus] at hmore
    omega
  have hlast : (n : Int) - 1 = ((n - 1 : Nat) : Int) := by omega
  have hsome : (some (n : Int) |>.filter (· ≠ 0)) = some (n : Int) :=
    Option.filter_some_pos (decide_eq_true (by omega))
  rw [hsome, proposeIsolation, if_neg hmore, hlast]

theorem isolable_of_count {online : List Int} (h : Increasing online) :
    Isolable online (proposeIsolation [] (some (online.length : Int) |>.filter (· ≠ 0))) ↔
      Contiguous online := by
  by_cases hfew : (online.length : Int) ≤ housekeepingCpus
  · rw [proposeIsolation_of_few hfew]
    refine iff_of_true (fun _ heq => nomatch heq) fun c hlow hhigh => ?_
    omega
  · have hfour : (4 : Nat) < 10 ^ maxDigits :=
      lt_of_lt_of_le (by decide) (Nat.le_self_pow (by decide) 10)
    have hread : parseCpuList (toString housekeepingCpus ++ "-" ++
        toString ((online.length - 1 : Nat) : Int)) =
          interval housekeepingCpus ((online.length - 1 : Nat) : Int) :=
      parseCpuList_dash hfour (length_lt_of_increasing h)
    rw [proposeIsolation_of_more hfew]
    rw [housekeepingCpus] at hfew
    constructor
    · intro hpossible c hlow hhigh
      obtain ⟨-, honline, -⟩ := hpossible _ rfl
      refine honline c ?_
      rw [hread, mem_interval]
      omega
    · intro hcontiguous text heq
      obtain rfl := Option.some.inj heq
      rw [hread]
      refine ⟨?_, fun c hc => ?_, fun hzero => ?_⟩
      · exact List.ne_nil_of_mem (mem_interval.mpr ⟨le_refl _, by rw [housekeepingCpus]; omega⟩)
      · obtain ⟨hlow, hhigh⟩ := mem_interval.mp hc
        exact hcontiguous c hlow (by omega)
      · exact absurd (mem_interval.mp hzero).1 (by decide)

/-! ## What `discover` proposes -/

theorem isolcpus_of_discover {reader : HostReading} {discovery : Discovery} {node : NodeConfig}
    (h : discover reader = .ok discovery) (hnode : discovery.proposed = some node) :
    node.isolcpus = proposeIsolation reader.cpu.isolated reader.cpu.online := by
  obtain ⟨admin, address, -, hsubnet, rfl⟩ := propose_eq_some (propose_of_discover h hnode)
  rfl

/-- **What a machine proposes to isolate can be isolated there exactly if it does not isolate
CPU 0 already and, where it isolates none, the CPUs after the first four are online up to the
number of them.**  What it isolates is what `LocalHostReader.cpu` reads: the file in /sys and,
where that names none, the `isolcpus` of /proc/cmdline. -/
theorem proposed_isolation_possible_iff {reader : HostReading} {files : CpuFiles}
    {discovery : Discovery} {node : NodeConfig} (hcpu : reader.cpu = cpu files)
    (hisolated : ∀ c ∈ files.isolatedCpus, c ∈ files.onlineCpus)
    (h : discover reader = .ok discovery) (hnode : discovery.proposed = some node) :
    Isolable files.onlineCpus node.isolcpus ↔
      0 ∉ files.isolatedCpus ∧ (files.isolatedCpus = [] → Contiguous files.onlineCpus) := by
  have honline : Increasing files.onlineCpus := increasing_parseCpuList _
  obtain ⟨text, htext⟩ := isolatedCpus_eq files
  rw [isolcpus_of_discover h hnode, hcpu]
  by_cases hnil : files.isolatedCpus = []
  · have hcount := isolable_of_count honline
    rw [cpu, hnil]
    rw [hcount]
    simp
  · have hincreasing : Increasing files.isolatedCpus := htext ▸ increasing_parseCpuList text
    rw [cpu, isolable_of_isolated hnil hincreasing hisolated]
    exact (and_iff_left fun heq => absurd heq hnil).symm

/-! ### A machine with a hole in its numbering -/

/-- A machine that can be reached, with these CPUs. -/
def machineWith (files : CpuFiles) : HostReading where
  nodeIdentity := { hostname := "node1" }
  network :=
    { interfaces := [{ name := "eno1", kind := some "physical",
                       addresses := [{ address := "192.168.200.125", prefixLength := some 24,
                                       family := "inet" }] }]
      defaultRouteInterface := some "eno1"
      defaultGateway := some "192.168.200.1" }
  cpu := cpu files

/-- Eight CPUs are online, the second four of twelve are not; none is isolated. -/
def holedCpus : CpuFiles where
  present := some "0-11"
  online := some "0-3,8-11"
  isolated := some ""

/-- Without the hole. -/
def eightCpus : CpuFiles where
  present := some "0-7"
  online := some "0-7"
  isolated := some ""

theorem discover_machineWith (files : CpuFiles) :
    ∃ discovery node, discover (machineWith files) = .ok discovery ∧
      discovery.proposed = some node := ⟨_, _, rfl, rfl⟩

theorem proposed_isolation_possible_eight :
    ∃ discovery node, discover (machineWith eightCpus) = .ok discovery ∧
      discovery.proposed = some node ∧
      (Isolable eightCpus.onlineCpus node.isolcpus ↔
        0 ∉ eightCpus.isolatedCpus ∧
          (eightCpus.isolatedCpus = [] → Contiguous eightCpus.onlineCpus)) := by
  obtain ⟨discovery, node, hdiscover, hnode⟩ := discover_machineWith eightCpus
  have hisolated : ∀ c ∈ eightCpus.isolatedCpus, c ∈ eightCpus.onlineCpus := by decide +kernel
  exact ⟨discovery, node, hdiscover, hnode,
    proposed_isolation_possible_iff rfl hisolated hdiscover hnode⟩

/-- The CPUs that are offline are the ones proposed. -/
theorem proposed_isolation_offline :
    ∃ discovery node, discover (machineWith holedCpus) = .ok discovery ∧
      discovery.proposed = some node ∧ node.isolcpus = some "4-7" ∧
      (∀ c ∈ holedCpus.isolatedCpus, c ∈ holedCpus.onlineCpus) ∧
      ¬ Isolable holedCpus.onlineCpus node.isolcpus := by
  obtain ⟨discovery, node, hdiscover, hnode⟩ := discover_machineWith holedCpus
  have htext : proposeIsolation (cpu holedCpus).isolated (cpu holedCpus).online = some "4-7" := by
    decide +kernel
  have hisolcpus : node.isolcpus = some "4-7" :=
    (isolcpus_of_discover hdiscover hnode).trans htext
  refine ⟨discovery, node, hdiscover, hnode, hisolcpus, by decide +kernel, fun hpossible => ?_⟩
  obtain ⟨-, honline, -⟩ := hpossible "4-7" hisolcpus
  have hproposed : 4 ∈ parseCpuList "4-7" := by decide +kernel
  have hoffline : 4 ∉ holedCpus.onlineCpus := by decide +kernel
  exact hoffline (honline 4 hproposed)

end SeapathWebui.Inventory
