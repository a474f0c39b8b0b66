/-
  Inventory/CpuLists.lean --- CPU sets as the kernel's range syntax, and back.

  Source: `_as_cpu_list` and `_range` of app/inventory/discovery.py, against
  `parse_cpu_list` of app/hosts/local.py.

  A CPU set is written as its runs of consecutive CPUs.  What is written is read back as
  the same set, as long as `str` writes its numbers (`roundTrips_of_increasing`); what
  `parse_cpu_list` reads is always such a set (`increasing_parseCpuList`).
-/
import SeapathWebui.Foundation.Decimal
import SeapathWebui.Foundation.Ranges
import SeapathWebui.Inventory.Discovery

set_option autoImplicit false

namespace SeapathWebui.Inventory

open SeapathWebui.Foundation SeapathWebui.Foundation.Text SeapathWebui.Hosts

/-- The interpreter converts the number to a text, and the text to a number. -/
def Printable (n : Int) : Prop := n.natAbs < 10 ^ maxDigits

instance (n : Int) : Decidable (Printable n) := inferInstanceAs (Decidable (_ < _))

/-- `_as_cpu_list`; `none` where it raises: there is no first CPU, or the end of a range has
more digits than `str` writes.  What lies inside a range has no more than its end. -/
def asCpuList : List Int → Option String
  | [] => none
  | cpu :: rest =>
      if ∀ c ∈ cpu :: rest, Printable c then some (",".intercalate (cpuRanges cpu cpu rest))
      else none

/-! ## The text of a range -/

theorem cpuRange_eq_interval (first last : Int) : cpuRange first last = interval first last := by
  have hcast : ∀ l : List Nat, (l.flatMap fun i : Nat => [(i : Int)]) = l.map Nat.cast :=
    fun l => List.map_eq_flatMap.symm
  change ((List.range (last + 1 - first).toNat).flatMap fun i : Nat => [(i : Int)]).map _ = _
  rw [hcast, List.map_map]
  rfl

theorem cpuRanges_eq_map (start previous : Int) (l : List Int) :
    cpuRanges start previous l =
      (runsFrom start previous l).map fun r => rangeText r.1 r.2 := by
  fun_induction cpuRanges start previous l with
  | case1 start previous => rfl
  | case2 start previous rest ih => rw [runsFrom, if_pos rfl, ih]
  | case3 start previous cpu rest hgap ih => rw [runsFrom, if_neg hgap, ih, List.map_cons]

theorem mem_rangeText {first last : Int} (hfirst : 0 ≤ first) (hlast : 0 ≤ last) {c : Char}
    (h : c ∈ (rangeText first last).toList) : c.isDigit = true ∨ c = '-' := by
  obtain ⟨n, rfl⟩ := Int.eq_ofNat_of_zero_le hfirst
  obtain ⟨m, rfl⟩ := Int.eq_ofNat_of_zero_le hlast
  have hdigit : ∀ k : Nat, c ∈ (toString (k : Int)).toList → c.isDigit = true :=
    fun k hk => (isDecimal_toString k).2 c hk
  unfold rangeText at h
  split at h
  · exact .inl (hdigit n h)
  · rw [String.toList_append, String.toList_append] at h
    rcases List.mem_append.mp h with h | h
    · rcases List.mem_append.mp h with h | h
      · exact .inl (hdigit n h)
      · exact .inr (List.mem_singleton.mp h)
    · exact .inl (hdigit m h)

theorem not_mem_minus_toString (n : Nat) : '-' ∉ (toString (n : Int)).toList := fun hmem =>
  absurd ((isDecimal_toString n).2 _ hmem) (by decide)

/-- Two numbers with a dash between them. -/
theorem parseCpuChunk_dash {n m : Nat} (hn : n < 10 ^ maxDigits) (hm : m < 10 ^ maxDigits) :
    parseCpuChunk (toString (n : Int) ++ "-" ++ toString (m : Int)) = interval n m := by
  have hcut := partition_append (not_mem_minus_toString n) (toString (m : Int))
  rw [show String.singleton '-' = "-" from rfl] at hcut
  rw [parseCpuChunk, hcut]
  simp only [readInt_toString hn, readInt_toString hm, cpuRange_eq_interval]

theorem parseCpuChunk_rangeText {first last : Int} (hfirst : 0 ≤ first) (h : first ≤ last)
    (hlast : Printable last) : parseCpuChunk (rangeText first last) = interval first last := by
  obtain ⟨n, rfl⟩ := Int.eq_ofNat_of_zero_le hfirst
  obtain ⟨m, rfl⟩ := Int.eq_ofNat_of_zero_le (hfirst.trans h)
  have hm : m < 10 ^ maxDigits := hlast
  have hn : n < 10 ^ maxDigits := lt_of_le_of_lt (by omega) hm
  by_cases heq : (n : Int) = m
  · rw [rangeText, if_pos heq, parseCpuChunk, partition_of_not_mem (not_mem_minus_toString n),
      ← heq, interval_self]
    simp only [readInt_toString hn, Option.toList_some]
  · rw [rangeText, if_neg heq, parseCpuChunk_dash hn hm]

/-! ## A list of ranges is read back -/

/-- The runs of a set of CPUs, each with numbers that can be written. -/
structure Runs (runs : List (Int × Int)) : Prop where
  separated : Separated runs
  nonneg : ∀ r ∈ runs, 0 ≤ r.1
  printable : ∀ r ∈ runs, Printable r.2

/-- The text of some runs. -/
def runsText (runs : List (Int × Int)) : String :=
  ",".intercalate (runs.map fun r => rangeText r.1 r.2)

theorem parseCpuList_runsText {runs : List (Int × Int)} (hne : runs ≠ []) (h : Runs runs) :
    parseCpuList (runsText runs) = (expand runs).dedup.insertionSort (· ≤ ·) := by
  have hchars : ∀ t ∈ runs.map (fun r => rangeText r.1 r.2), ∀ c ∈ t.toList,
      c.isDigit = true ∨ c = '-' := by
    intro t ht c hc
    obtain ⟨r, hr, rfl⟩ := List.mem_map.mp ht
    exact mem_rangeText (h.nonneg r hr) ((h.nonneg r hr).trans (h.separated.nonempty r hr)) hc
  have hsplit : split ',' (runsText runs) = runs.map fun r => rangeText r.1 r.2 := by
    refine split_intercalate (by simpa using hne) fun t ht hmem => ?_
    rcases hchars t ht ',' hmem with hdigit | heq
    · exact absurd hdigit (by decide)
    · exact absurd heq (by decide)
  have hstrip : ∀ t ∈ runs.map (fun r => rangeText r.1 r.2), strip t = t := by
    intro t ht
    refine strip_eq_self fun c hc => ?_
    rcases hchars t ht c hc with hdigit | rfl
    · exact isSpace_of_isDigit hdigit
    · decide
  have hchunks : (runs.map fun r => rangeText r.1 r.2).flatMap parseCpuChunk = expand runs := by
    rw [List.flatMap_map, expand]
    refine List.flatMap_congr fun r hr => ?_
    exact parseCpuChunk_rangeText (h.nonneg r hr) (h.separated.nonempty r hr) (h.printable r hr)
  rw [parseCpuList, hsplit, List.map_congr_left hstrip, List.map_id', hchunks]

/-- A text of digits and dashes is a single chunk. -/
theorem parseCpuList_of_chars {s : String}
    (h : ∀ c ∈ s.toList, c.isDigit = true ∨ c = '-') :
    parseCpuList s = (parseCpuChunk s).dedup.insertionSort (· ≤ ·) := by
  have hcomma : ',' ∉ s.toList := by
    intro hmem
    rcases h ',' hmem with hdigit | heq
    · exact absurd hdigit (by decide)
    · exact absurd heq (by decide)
  have hsplit : split ',' s = [s] := by
    have hjoined := split_intercalate (List.cons_ne_nil s []) fun t ht =>
      List.mem_singleton.mp ht ▸ hcomma
    rwa [String.intercalate_singleton] at hjoined
  have hstrip : strip s = s := by
    refine strip_eq_self fun c hc => ?_
    rcases h c hc with hdigit | rfl
    · exact isSpace_of_isDigit hdigit
    · decide
  rw [parseCpuList, hsplit, List.map_singleton, hstrip, List.flatMap_singleton]

/-! ## What `parse_cpu_list` reads -/

theorem mem_parseCpuList {s : String} {cpu : Int} :
    cpu ∈ parseCpuList s ↔ ∃ chunk ∈ split ',' s, cpu ∈ parseCpuChunk (strip chunk) := by
  simp only [parseCpuList, List.mem_insertionSort, List.mem_dedup, List.mem_flatMap,
    List.mem_map]
  constructor
  · rintro ⟨_, ⟨chunk, hchunk, rfl⟩, hcpu⟩
    exact ⟨chunk, hchunk, hcpu⟩
  · rintro ⟨chunk, hchunk, hcpu⟩
    exact ⟨_, ⟨chunk, hchunk, rfl⟩, hcpu⟩

/-- The first number of a chunk has no minus before it, and so no number is negative. -/
theorem mem_parseCpuChunk {chunk : String} {cpu : Int} (h : cpu ∈ parseCpuChunk chunk) :
    0 ≤ cpu ∧ Printable cpu := by
  have hfirst := not_mem_partition_fst '-' chunk
  have hprintable : ∀ {n : Int}, 0 ≤ n → n.toNat < 10 ^ maxDigits → Printable n := by
    intro n hn hlt
    rwa [Printable, show n.natAbs = n.toNat by omega]
  unfold parseCpuChunk at h
  split at h
  · rename_i first heq
    rw [heq] at hfirst
    have hread := Option.mem_toList.mp h
    exact ⟨readInt_nonneg hfirst hread,
      hprintable (readInt_nonneg hfirst hread) (readInt_lt hread)⟩
  · rename_i first last heq
    rw [heq] at hfirst
    split at h
    · rename_i low high hlow hhigh
      rw [cpuRange_eq_interval, mem_interval] at h
      have hnonneg : 0 ≤ cpu := (readInt_nonneg hfirst hlow).trans h.1
      refine ⟨hnonneg, hprintable hnonneg (lt_of_le_of_lt ?_ (readInt_lt hhigh))⟩
      omega
    · cases h

/-- The CPUs are in order, none is named twice, and each can be written. -/
structure Increasing (cpus : List Int) : Prop where
  sorted : cpus.Pairwise (· < ·)
  cpu : ∀ c ∈ cpus, 0 ≤ c ∧ Printable c

theorem increasing_parseCpuList (s : String) : Increasing (parseCpuList s) where
  sorted := pairwise_sorted_dedup _
  cpu c hc := by
    obtain ⟨chunk, -, hcpu⟩ := mem_parseCpuList.mp hc
    exact mem_parseCpuChunk hcpu

/-! ## Round trips -/

/-- A set of CPUs is written as separated ranges, and read back from them. -/
def RoundTrips (cpus : List Int) : Prop :=
  ∃ runs, asCpuList cpus = some (runsText runs) ∧ parseCpuList (runsText runs) = cpus ∧
    Separated runs ∧ expand runs = cpus

theorem roundTrips_of_increasing {cpus : List Int} (hne : cpus ≠ []) (h : Increasing cpus) :
    RoundTrips cpus := by
  obtain ⟨cpu, rest, rfl⟩ := List.exists_cons_of_ne_nil hne
  have hexpand : expand (runsFrom cpu cpu rest) = cpu :: rest := by
    rw [expand_runsFrom (le_refl cpu), interval_self, List.singleton_append]
  have hseparated := separated_runsFrom (le_refl cpu) h.sorted
  have hends : ∀ r ∈ runsFrom cpu cpu rest, r.1 ∈ cpu :: rest ∧ r.2 ∈ cpu :: rest := by
    intro r hr
    have hmem := mem_expand_of_mem hr (hseparated.nonempty r hr)
    rwa [hexpand] at hmem
  have hruns : Runs (runsFrom cpu cpu rest) :=
    ⟨hseparated, fun r hr => (h.cpu _ (hends r hr).1).1, fun r hr => (h.cpu _ (hends r hr).2).2⟩
  have hnonempty : runsFrom cpu cpu rest ≠ [] := by
    intro hnil
    rw [hnil] at hexpand
    cases hexpand
  refine ⟨_, ?_, ?_, hseparated, hexpand⟩
  · rw [asCpuList, if_pos fun c hc => (h.cpu c hc).2, cpuRanges_eq_map]
    rfl
  · rw [parseCpuList_runsText hnonempty hruns, hexpand, sorted_dedup_eq_self h.sorted]

/-- **Encoder and decoder are inverse.**  An increasing list of CPU numbers that can be
written is read back from its text, and so is whatever `parse_cpu_list` reads; in the text
no two ranges overlap or touch. -/
theorem cpu_lists_round_trip :
    (∀ cpus : List Nat, cpus ≠ [] → cpus.Pairwise (· < ·) →
      (∀ cpu ∈ cpus, cpu < 10 ^ maxDigits) → RoundTrips (cpus.map Nat.cast)) ∧
      ∀ s, parseCpuList s ≠ [] → RoundTrips (parseCpuList s) := by
  constructor
  · intro cpus hne hsorted hlt
    refine roundTrips_of_increasing (mt List.map_eq_nil_iff.mp hne) ⟨?_, ?_⟩
    · exact List.pairwise_map.mpr (hsorted.imp fun h => Int.ofNat_lt.mpr h)
    · intro c hc
      obtain ⟨cpu, hcpu, rfl⟩ := List.mem_map.mp hc
      exact ⟨Int.natCast_nonneg cpu, hlt cpu hcpu⟩
  · exact fun s hne => roundTrips_of_increasing hne (increasing_parseCpuList s)

/-- A set with a hole. -/
theorem cpu_lists_round_trip_hole : RoundTrips (List.map Nat.cast [0, 1, 2, 3, 8]) :=
  cpu_lists_round_trip.1 [0, 1, 2, 3, 8] (List.cons_ne_nil _ _) (by decide) (by
    have hsmall : ∀ cpu ∈ [0, 1, 2, 3, 8], cpu < 10 := by decide
    exact fun cpu hcpu => (hsmall cpu hcpu).trans_le (Nat.le_self_pow (by decide) 10))

example : asCpuList [0, 1, 2, 3, 8] = some "0-3,8" := by decide +kernel

/-- A number with one digit more than the interpreter converts is not written at all. -/
theorem cpu_too_long_not_written :
    ¬ ∀ cpus : List Nat, cpus ≠ [] → cpus.Pairwise (· < ·) →
      ∃ text, asCpuList (cpus.map Nat.cast) = some text ∧
        parseCpuList text = cpus.map Nat.cast := by
  intro hclaim
  obtain ⟨text, htext, -⟩ :=
    hclaim [10 ^ maxDigits] (List.cons_ne_nil _ _) (List.pairwise_singleton _ _)
  have hlong : ∀ n : Nat, 10 ^ maxDigits ≤ n → ¬ ∀ c ∈ [(n : Int)], Printable c :=
    fun n hn h => Nat.not_lt.mpr hn (h n List.mem_cons_self)
  rw [List.map_singleton, asCpuList, if_neg (hlong _ (le_refl _))] at htext
  cases htext

end SeapathWebui.Inventory
