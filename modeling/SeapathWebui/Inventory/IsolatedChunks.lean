/-
  Inventory/IsolatedChunks.lean --- the chunks of an isolated CPU set.

  Source: `_validate_isolcpus` of app/inventory/validation.py, over `parse_cpu_list` of
  app/hosts/local.py.

  The rules for `isolcpus` look at the CPUs that `parse_cpu_list` reads, and it skips a
  chunk it cannot read: the flags of the kernel, which is what the skipping is for, and
  whatever else is no number.  So a set is accepted for its readable chunks alone
  (`acceptsIsolcpus_iff`).  Three kinds of chunks get past the rules: those that are
  skipped, ranges that end before they begin, and what only `int()` takes for a number
  (`not_proper_iff`).
-/
import SeapathWebui.Inventory.CpuLists
import SeapathWebui.Inventory.Rules

set_option autoImplicit false

namespace SeapathWebui.Inventory

open SeapathWebui.Foundation SeapathWebui.Foundation.Text SeapathWebui.Hosts

/-! ## Chunks -/

/-- The chunks of a set: trimmed, and not empty. -/
def chunks (s : String) : List String := ((split ',' s).map strip).filter (· ≠ "")

/-- The flags of the kernel's `isolcpus` parameter. -/
def kernelFlags : List String := ["nohz", "domain", "managed_irq"]

/-- The number that decimal digits say. -/
def decimalValue (s : String) : Nat := Nat.ofDigitChars 10 s.toList 0

/-- A chunk as the kernel has it: a CPU number, a range or a flag. -/
inductive ProperChunk (chunk : String) : Prop
  | number (h : IsDecimal chunk)
  | range (first last : String) (heq : chunk = first ++ "-" ++ last) (hfirst : IsDecimal first)
      (hlast : IsDecimal last) (hle : decimalValue first ≤ decimalValue last)
  | flag (h : chunk ∈ kernelFlags)

/-! ### Chunks that are none

`parse_cpu_list` cuts a chunk at its first dash, and gives what it gets to `int()`. -/

/-- The texts it takes for numbers. -/
def parts (chunk : String) : List String :=
  match partition '-' chunk with
  | (first, none) => [first]
  | (first, some last) => [first, last]

/-- It is skipped, and it is no flag: a part is no number, not even to `int()`. -/
def Skipped (chunk : String) : Prop :=
  chunk ∉ kernelFlags ∧ ∃ part ∈ parts chunk, ¬ IsDecimal part ∧ readInt part = none

/-- A range that ends before it begins. -/
def Reversed (chunk : String) : Prop :=
  ∃ first last, parts chunk = [first, last] ∧ IsDecimal first ∧ IsDecimal last ∧
    decimalValue last < decimalValue first

/-- A part is a number to `int()` only: it has a sign, an underscore, blanks or digits of another
script. -/
def Loose (chunk : String) : Prop :=
  ∃ part ∈ parts chunk, ¬ IsDecimal part ∧ readInt part ≠ none

theorem minus_not_mem_decimal {s : String} (h : IsDecimal s) : '-' ∉ s.toList :=
  fun hmem => absurd (h.2 _ hmem) (by decide)

theorem parts_range {first last : String} (h : IsDecimal first) :
    parts (first ++ "-" ++ last) = [first, last] := by
  have hcut := partition_append (minus_not_mem_decimal h) last
  rw [show String.singleton '-' = "-" from rfl] at hcut
  rw [parts, hcut]

/-- Flags are skipped, too. -/
theorem parts_flag : ∀ flag ∈ kernelFlags, parts flag = [flag] ∧ readInt flag = none := by
  decide +kernel

theorem proper_iff {chunk : String} : ProperChunk chunk ↔
    chunk ∈ kernelFlags ∨ (∀ part ∈ parts chunk, IsDecimal part) ∧ ¬ Reversed chunk := by
  constructor
  · rintro (h | ⟨first, last, rfl, hfirst, hlast, hle⟩ | h)
    · have hparts : parts chunk = [chunk] := by
        rw [parts, partition_of_not_mem (minus_not_mem_decimal h)]
      refine .inr ⟨by simpa [hparts] using h, ?_⟩
      rintro ⟨first, last, htwo, -⟩
      rw [hparts] at htwo
      cases htwo
    · refine .inr ⟨by simpa [parts_range hfirst] using ⟨hfirst, hlast⟩, ?_⟩
      rintro ⟨first', last', htwo, -, -, hlt⟩
      rw [parts_range hfirst] at htwo
      obtain ⟨rfl, hrest⟩ := List.cons.inj htwo
      obtain ⟨rfl, -⟩ := List.cons.inj hrest
      omega
    · exact .inl h
  · rintro (hflag | ⟨hdecimal, hordered⟩)
    · exact .flag hflag
    · cases hcut : partition '-' chunk with
      | mk first after =>
          cases after with
          | none =>
              have hparts : parts chunk = [first] := by rw [parts, hcut]
              obtain ⟨rfl, -⟩ := partition_eq_none hcut
              exact .number (hdecimal _ (by rw [hparts]; exact List.mem_singleton_self _))
          | some last =>
              have hparts : parts chunk = [first, last] := by rw [parts, hcut]
              have hfirst := hdecimal first (by simp [hparts])
              have hlast := hdecimal last (by simp [hparts])
              have hle := not_lt.mp fun hlt => hordered ⟨first, last, hparts, hfirst, hlast, hlt⟩
              exact .range first last (partition_eq_some hcut) hfirst hlast hle

/-- A chunk that is no number, no range and no flag is of one of three kinds. -/
theorem not_proper_iff {chunk : String} :
    ¬ ProperChunk chunk ↔ Skipped chunk ∨ Reversed chunk ∨ Loose chunk := by
  rw [proper_iff]
  constructor
  · intro h
    obtain ⟨hflag, hrest⟩ := not_or.mp h
    by_cases hreversed : Reversed chunk
    · exact .inr (.inl hreversed)
    · have hsome : ∃ part ∈ parts chunk, ¬ IsDecimal part := by
        by_contra hnone
        exact hrest ⟨fun part hpart => not_not.mp fun hnot => hnone ⟨part, hpart, hnot⟩, hreversed⟩
      obtain ⟨part, hpart, hnot⟩ := hsome
      by_cases hread : readInt part = none
      · exact .inl ⟨hflag, part, hpart, hnot, hread⟩
      · exact .inr (.inr ⟨part, hpart, hnot, hread⟩)
  · rintro (⟨hflag, part, hpart, hnot, -⟩ | hreversed | ⟨part, hpart, hnot, hread⟩)
      (h | ⟨hall, hordered⟩)
    · exact hflag h
    · exact hnot (hall part hpart)
    · obtain ⟨first, last, htwo, -⟩ := hreversed
      rw [(parts_flag chunk h).1] at htwo
      cases htwo
    · exact hordered hreversed
    · obtain ⟨hone, hskip⟩ := parts_flag chunk h
      rw [hone, List.mem_singleton] at hpart
      exact hread (hpart ▸ hskip)
    · exact hnot (hall part hpart)

/-! ### What is read of a chunk -/

/-- A chunk names a CPU, as `int()` reads its parts. -/
def Covers (chunk : String) (cpu : Int) : Prop :=
  match parts chunk with
  | [one] => readInt one = some cpu
  | [first, last] => ∃ a b, readInt first = some a ∧ readInt last = some b ∧ a ≤ cpu ∧ cpu ≤ b
  | _ => False

theorem mem_parseCpuChunk_iff {chunk : String} {cpu : Int} :
    cpu ∈ parseCpuChunk chunk ↔ Covers chunk cpu := by
  unfold parseCpuChunk Covers parts
  cases partition '-' chunk with
  | mk first after =>
      cases after with
      | none => simp
      | some last =>
          cases hfirst : readInt first with
          | none => simp [hfirst]
          | some a =>
              cases hlast : readInt last with
              | none => simp [hfirst, hlast]
              | some b => simp [hfirst, hlast, cpuRange_eq_interval, mem_interval]

theorem parseCpuChunk_eq_nil_iff {chunk : String} :
    parseCpuChunk chunk = [] ↔ ∀ cpu, ¬ Covers chunk cpu := by
  simp only [List.eq_nil_iff_forall_not_mem, mem_parseCpuChunk_iff]

/-- The rules do not look at a chunk that is skipped, -/
theorem Skipped.not_covers {chunk : String} (h : Skipped chunk) (cpu : Int) :
    ¬ Covers chunk cpu := by
  obtain ⟨-, part, hpart, -, hread⟩ := h
  unfold Covers
  intro hcovers
  split at hcovers
  · rename_i one hone
    rw [hone, List.mem_singleton] at hpart
    rw [← hpart, hread] at hcovers
    cases hcovers
  · rename_i first last htwo
    obtain ⟨a, b, ha, hb, -⟩ := hcovers
    rw [htwo] at hpart
    rcases List.mem_cons.mp hpart with rfl | hrest
    · rw [hread] at ha
      cases ha
    · rw [List.mem_singleton.mp hrest] at hread
      rw [hread] at hb
      cases hb
  · exact hcovers

/-- A decimal number is read as what it says, if it is read. -/
theorem eq_decimalValue_of_readInt {s : String} (h : IsDecimal s) {n : Int}
    (hread : readInt s = some n) : n = decimalValue s := by
  have hne : s.toList ≠ [] := fun hnil => h.1 (String.toList_eq_nil_iff.mp hnil)
  rw [readInt_of_isDecimal h, readNat, readDigits_of_isDigit hne h.2] at hread
  dsimp only at hread
  split at hread
  · rw [foldl_digits] at hread
    exact (Option.some.inj hread).symm
  · cases hread

/-- nor at a range that ends before it begins. -/
theorem Reversed.not_covers {chunk : String} (h : Reversed chunk) (cpu : Int) :
    ¬ Covers chunk cpu := by
  obtain ⟨first, last, htwo, hfirst, hlast, hlt⟩ := h
  unfold Covers
  rw [htwo]
  rintro ⟨a, b, ha, hb, hle, hle'⟩
  have hvalues := And.intro (eq_decimalValue_of_readInt hfirst ha)
    (eq_decimalValue_of_readInt hlast hb)
  omega

-- an underscore for a dash: CPU 47
example : parseCpuChunk "4_7" = [47] := by decide +kernel

/-! ## What the rules accept -/

theorem mem_parseCpuList_iff_chunk {s : String} {cpu : Int} :
    cpu ∈ parseCpuList s ↔ ∃ chunk ∈ chunks s, cpu ∈ parseCpuChunk chunk := by
  have hempty : parseCpuChunk "" = [] := by decide +kernel
  rw [mem_parseCpuList]
  constructor
  · rintro ⟨chunk, hchunk, hcpu⟩
    refine ⟨strip chunk, List.mem_filter.mpr ⟨List.mem_map_of_mem hchunk, ?_⟩, hcpu⟩
    refine decide_eq_true fun heq => ?_
    rw [heq, hempty] at hcpu
    cases hcpu
  · rintro ⟨chunk, hchunk, hcpu⟩
    obtain ⟨part, hpart, rfl⟩ := List.mem_map.mp (List.mem_filter.mp hchunk).1
    exact ⟨part, hpart, hcpu⟩

theorem parseCpuList_ne_nil_iff_chunk {s : String} :
    parseCpuList s ≠ [] ↔ ∃ chunk ∈ chunks s, parseCpuChunk chunk ≠ [] := by
  constructor
  · intro hne
    obtain ⟨cpu, hcpu⟩ := List.exists_mem_of_ne_nil _ hne
    obtain ⟨chunk, hchunk, hread⟩ := mem_parseCpuList_iff_chunk.mp hcpu
    exact ⟨chunk, hchunk, List.ne_nil_of_mem hread⟩
  · rintro ⟨chunk, hchunk, hread⟩
    obtain ⟨cpu, hcpu⟩ := List.exists_mem_of_ne_nil _ hread
    exact List.ne_nil_of_mem (mem_parseCpuList_iff_chunk.mpr ⟨chunk, hchunk, hcpu⟩)

variable (rt : Runtime)

/-- `validate` returns, without an error about the isolated CPUs of a machine. -/
def AcceptsIsolcpus (inventory : Inventory) (name : String) : Prop :=
  validateRaises rt inventory = false ∧
    ∀ f ∈ (validate rt inventory).findings, f.host = some name →
      f.rule ∈ ["isolation_is_configured", "isolcpus_is_a_cpu_list",
        "cpu_zero_stays_housekeeping"] → f.level ≠ .error

/-- The rules look at the CPUs of the set as a whole. -/
theorem acceptsIsolcpus_iff_list {inventory : Inventory} {name : String} {node : NodeConfig}
    (h : (name, node) ∈ inventory.hosts.entries) {isolcpus : String}
    (hisolcpus : node.isolcpus = some isolcpus) (hne : isolcpus ≠ "") :
    AcceptsIsolcpus rt inventory name ↔
      validateRaises rt inventory = false ∧
        parseCpuList isolcpus ≠ [] ∧ 0 ∉ parseCpuList isolcpus := by
  have hblock : (["isolation_is_configured", "isolcpus_is_a_cpu_list",
      "cpu_zero_stays_housekeeping"], isolcpusFindings rt name node) ∈ blocks rt name node := by
    simp [blocks, ruleTable]
  have hfilter : node.isolcpus.filter (· ≠ "") = some isolcpus := by
    rw [hisolcpus]
    exact Option.filter_some_pos (by simpa using hne)
  have hnoError := @noError_isolcpus rt name node
  rw [hfilter] at hnoError
  simp only [Option.some.injEq, forall_eq'] at hnoError
  rw [← hnoError]
  refine and_congr_right fun _ => ?_
  constructor
  · intro haccepts f hf
    obtain ⟨hmem, hhost, hrule⟩ := (mem_block_iff rt h hblock).mp hf
    exact haccepts f hmem hhost hrule
  · intro hnone f hf hhost hrule
    exact hnone f ((mem_block_iff rt h hblock).mpr ⟨hf, hhost, hrule⟩)

/-- A set is accepted if a chunk of it names a CPU, and none names CPU 0. -/
theorem acceptsIsolcpus_iff {inventory : Inventory} {name : String} {node : NodeConfig}
    (h : (name, node) ∈ inventory.hosts.entries) {isolcpus : String}
    (hisolcpus : node.isolcpus = some isolcpus) (hne : isolcpus ≠ "") :
    AcceptsIsolcpus rt inventory name ↔
      validateRaises rt inventory = false ∧
        (∃ chunk ∈ chunks isolcpus, parseCpuChunk chunk ≠ []) ∧
          ∀ chunk ∈ chunks isolcpus, 0 ∉ parseCpuChunk chunk := by
  rw [acceptsIsolcpus_iff_list rt h hisolcpus hne, parseCpuList_ne_nil_iff_chunk,
    mem_parseCpuList_iff_chunk]
  simp only [not_exists, not_and]

/-- The CPUs of some machine are too many for a list. -/
def TooMany (inventory : Inventory) : Prop :=
  ∃ e ∈ inventory.hosts.entries, ∃ cpus, e.2.isolcpus = some cpus ∧ rt.listLimit < cpuCount cpus

theorem validateRaises_iff {inventory : Inventory} :
    validateRaises rt inventory = true ↔ TooMany rt inventory := by
  have hempty : cpuCount "" = 0 := by decide
  rw [validateRaises, List.any_eq_true]
  refine exists_congr fun e => and_congr_right fun _ => ?_
  cases e.2.isolcpus with
  | none => simp
  | some cpus =>
      by_cases hblank : cpus = ""
      · simp [hblank, hempty, Option.filter]
      · simp [hblank, Option.filter]

/-- A set is refused if no chunk names a CPU, one names CPU 0, or a list cannot hold some set. -/
theorem not_acceptsIsolcpus_iff {inventory : Inventory} {name : String} {node : NodeConfig}
    (h : (name, node) ∈ inventory.hosts.entries) {isolcpus : String}
    (hisolcpus : node.isolcpus = some isolcpus) (hne : isolcpus ≠ "") :
    ¬ AcceptsIsolcpus rt inventory name ↔
      (∀ chunk ∈ chunks isolcpus, ∀ cpu, ¬ Covers chunk cpu) ∨
        (∃ chunk ∈ chunks isolcpus, Covers chunk 0) ∨ TooMany rt inventory := by
  have hread : (∀ chunk ∈ chunks isolcpus, ∀ cpu, ¬ Covers chunk cpu) ↔
      ¬ ∃ chunk ∈ chunks isolcpus, parseCpuChunk chunk ≠ [] := by
    push Not
    exact forall₂_congr fun chunk _ => parseCpuChunk_eq_nil_iff.symm
  have hzero : (∃ chunk ∈ chunks isolcpus, Covers chunk 0) ↔
      ¬ ∀ chunk ∈ chunks isolcpus, 0 ∉ parseCpuChunk chunk := by
    push Not
    exact exists_congr fun chunk => and_congr_right fun _ => mem_parseCpuChunk_iff.symm
  rw [acceptsIsolcpus_iff rt h hisolcpus hne, hread, hzero, ← validateRaises_iff]
  cases validateRaises rt inventory <;> simp only [true_and, false_and, not_and_or, or_false,
    or_true, not_false_eq_true, reduceCtorEq]

/-- **Of an accepted set no chunk is ignored or misread exactly if no chunk is one that is skipped
without being a flag, a range that ends before it begins, or a number to `int()` only; or if the
set is not accepted anyway: no chunk names a CPU, one names CPU 0, or a machine has more CPUs than
a list can hold.**  Chunks of the first two kinds are not looked at. -/
theorem accepted_chunks_proper_iff {inventory : Inventory} {name : String} {node : NodeConfig}
    (h : (name, node) ∈ inventory.hosts.entries) {isolcpus : String}
    (hisolcpus : node.isolcpus = some isolcpus) :
    ((AcceptsIsolcpus rt inventory name → ∀ chunk ∈ chunks isolcpus, ProperChunk chunk) ↔
      (∀ chunk ∈ chunks isolcpus, ¬ Skipped chunk ∧ ¬ Reversed chunk ∧ ¬ Loose chunk) ∨
        (∀ chunk ∈ chunks isolcpus, ∀ cpu, ¬ Covers chunk cpu) ∨
          (∃ chunk ∈ chunks isolcpus, Covers chunk 0) ∨ TooMany rt inventory) ∧
      ∀ chunk, Skipped chunk ∨ Reversed chunk → parseCpuChunk chunk = [] := by
  have hkinds : (∀ chunk ∈ chunks isolcpus, ¬ Skipped chunk ∧ ¬ Reversed chunk ∧ ¬ Loose chunk) ↔
      ∀ chunk ∈ chunks isolcpus, ProperChunk chunk := by
    refine forall₂_congr fun chunk _ => ?_
    rw [← not_or, ← not_or, ← not_proper_iff, not_not]
  refine ⟨?_, fun chunk hkind => parseCpuChunk_eq_nil_iff.mpr fun cpu => ?_⟩
  · rw [hkinds]
    by_cases hempty : isolcpus = ""
    -- an empty set has no chunk
    · have hnone : ∀ chunk ∈ chunks isolcpus, ProperChunk chunk := by
        have hchunks : chunks "" = [] := by decide +kernel
        rw [hempty, hchunks]
        exact List.forall_mem_nil _
      exact iff_of_true (fun _ => hnone) (.inl hnone)
    · rw [← not_acceptsIsolcpus_iff rt h hisolcpus hempty, imp_iff_or_not]
  · rcases hkind with hskipped | hreversed
    · exact hskipped.not_covers cpu
    · exact hreversed.not_covers cpu

/-! ### A letter for a digit -/

/-- A machine that isolates this set. -/
def isolating (isolcpus : String) : NodeConfig where
  ansibleHost := "192.168.200.125"
  networkInterface := "eno1"
  isolcpus := some isolcpus

/-- One machine that does. -/
def isolatingInventory (isolcpus : String) : Inventory where
  hosts := Dict.ofList [("node1", isolating isolcpus)]

theorem mem_isolatingInventory (isolcpus : String) :
    ("node1", isolating isolcpus) ∈ (isolatingInventory isolcpus).hosts.entries :=
  List.mem_cons_self

theorem accepted_chunks_proper_flags :
    ((AcceptsIsolcpus Runtime.silent (isolatingInventory "nohz,domain,4-7") "node1" →
      ∀ chunk ∈ chunks "nohz,domain,4-7", ProperChunk chunk) ↔
      (∀ chunk ∈ chunks "nohz,domain,4-7", ¬ Skipped chunk ∧ ¬ Reversed chunk ∧ ¬ Loose chunk) ∨
        (∀ chunk ∈ chunks "nohz,domain,4-7", ∀ cpu, ¬ Covers chunk cpu) ∨
          (∃ chunk ∈ chunks "nohz,domain,4-7", Covers chunk 0) ∨
            TooMany Runtime.silent (isolatingInventory "nohz,domain,4-7")) ∧
      ∀ chunk, Skipped chunk ∨ Reversed chunk → parseCpuChunk chunk = [] :=
  accepted_chunks_proper_iff Runtime.silent (mem_isolatingInventory _) rfl

/-- The letter O is no zero: the chunk is skipped, and with it CPU 0. -/
theorem mistyped_chunk_accepted :
    AcceptsIsolcpus Runtime.silent (isolatingInventory "O-3,4-7") "node1" ∧
      "O-3" ∈ chunks "O-3,4-7" ∧ ¬ ProperChunk "O-3" := by
  have hskipped : Skipped "O-3" :=
    ⟨by decide, "O", by decide +kernel, by decide, by decide +kernel⟩
  refine ⟨?_, by decide +kernel, not_proper_iff.mpr (.inl hskipped)⟩
  rw [acceptsIsolcpus_iff Runtime.silent (mem_isolatingInventory _) rfl (by decide)]
  decide +kernel

end SeapathWebui.Inventory
