/-
  Inventory/CpuChunks.lean --- what a CPU list says, chunk by chunk.

  Source: `parse_cpu_list` of app/hosts/local.py.

  A list is written as chunks with commas between them: numbers, ranges, words, or nothing,
  each with blanks around it.  What is read of a chunk is the CPUs it names
  (`parseCpuChunk_text`), and of a list the union of these, in order
  (`parse_is_union`).
-/
import SeapathWebui.Inventory.IsolatedChunks

set_option autoImplicit false

namespace SeapathWebui.Inventory

open SeapathWebui.Foundation SeapathWebui.Foundation.Text SeapathWebui.Hosts

/-! ## Chunks -/

/-- A chunk of a CPU list. -/
inductive CpuChunk
  | number (digits : String)
  | range (first last : String)
  | word (letters : String)
  | empty

namespace CpuChunk

/-- The chunk as it is written. -/
def text : CpuChunk → String
  | number digits => digits
  | range first last => first ++ "-" ++ last
  | word letters => letters
  | empty => ""

/-- The chunk says that this is one of the CPUs. -/
def Names : CpuChunk → Int → Prop
  | number digits, cpu => cpu = decimalValue digits
  | range first last, cpu => decimalValue first ≤ cpu ∧ cpu ≤ decimalValue last
  | word _, _ => False
  | empty, _ => False

/-- How many CPUs the chunk names. -/
def count : CpuChunk → Nat
  | number _ => 1
  | range first last => decimalValue last + 1 - decimalValue first
  | word _ => 0
  | empty => 0

end CpuChunk

/-- A decimal number that `int` converts. -/
def Convertible (digits : String) : Prop := IsDecimal digits ∧ digits.toList.length ≤ maxDigits

/-- The word is no number, nor two of them around a hyphen. -/
def NotANumber (word : String) : Prop :=
  ('-' ∉ word.toList → readInt word = none) ∧
    ∀ first last, word = first ++ "-" ++ last → '-' ∉ first.toList →
      readInt first = none ∨ readInt last = none

/-- The chunk is what its kind says. -/
def CpuChunk.WellFormed : CpuChunk → Prop
  | number digits => Convertible digits
  | range first last => Convertible first ∧ Convertible last
  | word letters => ',' ∉ letters.toList ∧ strip letters = letters ∧ NotANumber letters
  | empty => True

/-- There is nothing but white space. -/
def Blank (s : String) : Prop := ∀ c ∈ s.toList, isSpace c = true

instance (s : String) : Decidable (Blank s) := List.decidableBAll _ _

/-- A chunk with blanks around it. -/
structure PaddedChunk where
  before : String := ""
  chunk : CpuChunk
  after : String := ""

/-- The text between two commas. -/
def PaddedChunk.text (p : PaddedChunk) : String := p.before ++ p.chunk.text ++ p.after

/-- A chunk that is well formed, and blanks. -/
structure PaddedChunk.WellFormed (p : PaddedChunk) : Prop where
  before : Blank p.before
  chunk : p.chunk.WellFormed
  after : Blank p.after

/-- The chunks with commas between them. -/
def listText (chunks : List PaddedChunk) : String := ",".intercalate (chunks.map (·.text))

/-! ## One chunk -/

theorem readInt_convertible {digits : String} (h : Convertible digits) :
    readInt digits = some (decimalValue digits : Int) := by
  have hne : digits.toList ≠ [] := by simpa using h.1.1
  rw [readInt_of_isDecimal h.1, readNat_of_isDigit hne h.1.2 h.2]
  rfl

theorem isSpace_of_decimal {digits : String} (h : IsDecimal digits) :
    ∀ c ∈ digits.toList, isSpace c = false := fun c hc => isSpace_of_isDigit (h.2 c hc)

theorem comma_not_mem_decimal {digits : String} (h : IsDecimal digits) : ',' ∉ digits.toList :=
  fun hmem => absurd (h.2 _ hmem) (by decide)

/-- Nothing of a chunk is stripped. -/
theorem strip_chunk {chunk : CpuChunk} (h : chunk.WellFormed) : strip chunk.text = chunk.text := by
  cases chunk with
  | number digits => exact strip_eq_self (isSpace_of_decimal h.1)
  | range first last =>
      refine strip_eq_self fun c hc => ?_
      simp only [CpuChunk.text, String.toList_append, List.mem_append] at hc
      rcases hc with (hc | hc) | hc
      · exact isSpace_of_decimal h.1.1 c hc
      · obtain rfl := List.mem_singleton.mp hc
        decide
      · exact isSpace_of_decimal h.2.1 c hc
  | word letters => exact h.2.1
  | empty => decide

theorem comma_not_mem_chunk {chunk : CpuChunk} (h : chunk.WellFormed) :
    ',' ∉ chunk.text.toList := by
  cases chunk with
  | number digits => exact comma_not_mem_decimal h.1
  | range first last =>
      simp only [CpuChunk.text, String.toList_append, List.mem_append, not_or]
      exact ⟨⟨comma_not_mem_decimal h.1.1, by decide⟩, comma_not_mem_decimal h.2.1⟩
  | word letters => exact h.1
  | empty => decide

/-- A word is skipped. -/
theorem parseCpuChunk_word {word : String} (h : NotANumber word) : parseCpuChunk word = [] := by
  unfold parseCpuChunk
  split
  · rename_i first hcut
    have hhyphen := not_mem_partition_fst '-' word
    rw [hcut, partition_eq_none hcut] at hhyphen
    rw [partition_eq_none hcut, h.1 hhyphen]
    rfl
  · rename_i first last hcut
    have hhyphen := not_mem_partition_fst '-' word
    rw [hcut] at hhyphen
    rcases h.2 first last (partition_eq_some hcut) hhyphen with hfirst | hlast
    · simp only [hfirst]
    · simp only [hlast]
      split <;> first | rfl | contradiction

/-- What is read of a chunk: the number, the CPUs of the range, or nothing. -/
theorem parseCpuChunk_text {chunk : CpuChunk} (h : chunk.WellFormed) :
    (∀ cpu, cpu ∈ parseCpuChunk chunk.text ↔ chunk.Names cpu) ∧
      (parseCpuChunk chunk.text).length = chunk.count := by
  cases chunk with
  | number digits =>
      have hread : parseCpuChunk digits = [(decimalValue digits : Int)] := by
        rw [parseCpuChunk, partition_of_not_mem (minus_not_mem_decimal h.1)]
        simp only [readInt_convertible h, Option.toList_some]
      rw [CpuChunk.text, hread]
      exact ⟨fun cpu => List.mem_singleton, rfl⟩
  | range first last =>
      have hcut := partition_append (minus_not_mem_decimal h.1.1) last
      have hread : parseCpuChunk (first ++ "-" ++ last) =
          cpuRange (decimalValue first) (decimalValue last) := by
        rw [show "-" = String.singleton '-' from rfl, parseCpuChunk, hcut]
        simp only [readInt_convertible h.1, readInt_convertible h.2]
      rw [CpuChunk.text, hread, cpuRange_eq_interval]
      refine ⟨fun cpu => mem_interval, ?_⟩
      simp only [interval, List.length_map, List.length_range, CpuChunk.count]
      omega
  | word letters =>
      rw [CpuChunk.text, parseCpuChunk_word h.2.2]
      exact ⟨fun cpu => by simp [CpuChunk.Names], rfl⟩
  | empty =>
      have hread : parseCpuChunk CpuChunk.empty.text = [] := by decide +kernel
      rw [hread]
      exact ⟨fun cpu => by simp [CpuChunk.Names], rfl⟩

/-! ## A list of chunks -/

theorem strip_padded {p : PaddedChunk} (h : p.WellFormed) : strip p.text = p.chunk.text := by
  rw [PaddedChunk.text, strip_append h.before h.after, strip_chunk h.chunk]

theorem comma_not_mem_padded {p : PaddedChunk} (h : p.WellFormed) : ',' ∉ p.text.toList := by
  simp only [PaddedChunk.text, String.toList_append, List.mem_append, not_or]
  exact ⟨⟨fun hmem => absurd (h.before _ hmem) (by decide), comma_not_mem_chunk h.chunk⟩,
    fun hmem => absurd (h.after _ hmem) (by decide)⟩

theorem split_listText {chunks : List PaddedChunk} (hne : chunks ≠ [])
    (h : ∀ p ∈ chunks, p.WellFormed) :
    split ',' (listText chunks) = chunks.map (·.text) := by
  refine split_intercalate (by simpa using hne) fun t ht => ?_
  obtain ⟨p, hp, rfl⟩ := List.mem_map.mp ht
  exact comma_not_mem_padded (h p hp)

/-- What is between the commas, stripped. -/
theorem strip_listText {chunks : List PaddedChunk} (hne : chunks ≠ [])
    (h : ∀ p ∈ chunks, p.WellFormed) :
    (split ',' (listText chunks)).map strip = chunks.map (·.chunk.text) := by
  rw [split_listText hne h, List.map_map]
  exact List.map_congr_left fun p hp => strip_padded (h p hp)

/-- `parse_cpu_list`; none where it raises, since more CPUs are named than a list can
hold. -/
def parseCpuListWithin (rt : Runtime) (raw : String) : Option (List Int) :=
  if rt.listLimit < cpuCount raw then none else some (parseCpuList raw)

theorem cpuCount_listText {chunks : List PaddedChunk} (h : ∀ p ∈ chunks, p.WellFormed) :
    cpuCount (listText chunks) = (chunks.map (·.chunk.count)).sum := by
  by_cases hne : chunks = []
  · subst hne
    decide +kernel
  · rw [cpuCount, strip_listText hne h, List.map_map]
    refine congrArg List.sum (List.map_congr_left fun p hp => ?_)
    rw [Function.comp_apply, ← length_parseCpuChunk, (parseCpuChunk_text (h p hp).chunk).2]

theorem mem_parse_listText {chunks : List PaddedChunk} (h : ∀ p ∈ chunks, p.WellFormed)
    (cpu : Int) :
    cpu ∈ parseCpuList (listText chunks) ↔ ∃ p ∈ chunks, p.chunk.Names cpu := by
  by_cases hne : chunks = []
  · subst hne
    have hempty : parseCpuList (listText []) = [] := by decide +kernel
    simp [hempty]
  · rw [mem_parseCpuList, split_listText hne h]
    simp only [List.mem_map, exists_exists_and_eq_and]
    refine exists_congr fun p => and_congr_right fun hp => ?_
    rw [strip_padded (h p hp), (parseCpuChunk_text (h p hp).chunk).1]

/-- **A CPU list is read as the union of its chunks, in order.** -/
theorem parse_is_union (rt : Runtime) {chunks : List PaddedChunk}
    (h : ∀ p ∈ chunks, p.WellFormed)
    (hcount : (chunks.map (·.chunk.count)).sum ≤ rt.listLimit) :
    ∃ cpus, parseCpuListWithin rt (listText chunks) = some cpus ∧ cpus.Pairwise (· < ·) ∧
      ∀ cpu, cpu ∈ cpus ↔ ∃ p ∈ chunks, p.chunk.Names cpu := by
  refine ⟨parseCpuList (listText chunks), ?_, pairwise_sorted_dedup _, mem_parse_listText h⟩
  rw [parseCpuListWithin, cpuCount_listText h, if_neg (Nat.not_lt.mpr hcount)]

/-- Numbers that overlap, a range that is empty, a flag and a chunk of blanks. -/
def mixedChunks : List PaddedChunk :=
  [{ chunk := .word "nohz" }, { before := " ", chunk := .range "8" "9" },
    { chunk := .number "9", after := " " }, { chunk := .range "5" "4" },
    { before := "  ", chunk := .empty }, { chunk := .number "2" }]

theorem wellFormed_mixedChunks : ∀ p ∈ mixedChunks, p.WellFormed := by
  have hdigit : ∀ digits ∈ ["8", "9", "5", "4", "2"], Convertible digits := by
    intro digits hdigits
    have hdecimal : ∀ digits ∈ ["8", "9", "5", "4", "2"],
        IsDecimal digits ∧ digits.toList.length ≤ 1 := by decide
    exact ⟨(hdecimal digits hdigits).1, (hdecimal digits hdigits).2.trans (by decide)⟩
  have hword : NotANumber "nohz" := by
    refine ⟨fun _ => by decide +kernel, fun first last heq => ?_⟩
    have hhyphen : '-' ∈ (first ++ "-" ++ last).toList := by simp
    rw [← heq] at hhyphen
    exact absurd hhyphen (by decide)
  intro p hp
  simp only [mixedChunks, List.mem_cons, List.not_mem_nil, or_false] at hp
  rcases hp with rfl | rfl | rfl | rfl | rfl | rfl
  · exact ⟨by decide, ⟨by decide, by decide +kernel, hword⟩, by decide⟩
  · exact ⟨by decide, ⟨hdigit "8" (by decide), hdigit "9" (by decide)⟩, by decide⟩
  · exact ⟨by decide, hdigit "9" (by decide), by decide⟩
  · exact ⟨by decide, ⟨hdigit "5" (by decide), hdigit "4" (by decide)⟩, by decide⟩
  · exact ⟨by decide, trivial, by decide⟩
  · exact ⟨by decide, hdigit "2" (by decide), by decide⟩

theorem parse_is_union_mixed :
    ∃ cpus, parseCpuListWithin .silent (listText mixedChunks) = some cpus ∧
      cpus.Pairwise (· < ·) ∧ ∀ cpu, cpu ∈ cpus ↔ ∃ p ∈ mixedChunks, p.chunk.Names cpu :=
  parse_is_union .silent wellFormed_mixedChunks (by decide +kernel)

example : parseCpuList (listText mixedChunks) = [2, 8, 9] := by decide +kernel

/-- A number with one digit more than `int` converts. -/
def longNumber : String := String.ofList (List.replicate (maxDigits + 1) '1')

theorem isDecimal_longNumber : IsDecimal longNumber := by
  refine ⟨fun heq => ?_, fun c hc => ?_⟩
  · have hlist := congrArg String.toList heq
    simp [longNumber] at hlist
  · rw [longNumber, String.toList_ofList] at hc
    rw [List.eq_of_mem_replicate hc]
    decide

theorem parse_longNumber : parseCpuChunk longNumber = [] := by
  have hread : readInt longNumber = none := by
    have hdigits : readDigits longNumber.toList =
        some (longNumber.toList.map fun c => c.toNat - 48) :=
      readDigits_of_isDigit (by simp [longNumber]) isDecimal_longNumber.2
    rw [readInt_of_isDecimal isDecimal_longNumber, readNat, hdigits]
    simp [longNumber]
  rw [parseCpuChunk, partition_of_not_mem (minus_not_mem_decimal isDecimal_longNumber)]
  simp only [hread, Option.toList_none]

/-- A number that `int` does not convert is skipped as a word is, and a range that does not fit
into a list raises. -/
theorem parse_is_not_union :
    IsDecimal longNumber ∧
      (∃ cpus, parseCpuListWithin .silent (listText [{ chunk := .number longNumber }]) =
          some cpus ∧ (decimalValue longNumber : Int) ∉ cpus) ∧
      parseCpuListWithin .silent (listText [{ chunk := .range "0" "1152921504606846975" }]) =
        none := by
  have hstrip : strip longNumber = longNumber :=
    strip_eq_self (isSpace_of_decimal isDecimal_longNumber)
  have hsplit : split ',' longNumber = [longNumber] := by
    have hjoined := split_intercalate (List.cons_ne_nil longNumber []) fun t ht =>
      List.mem_singleton.mp ht ▸ comma_not_mem_decimal isDecimal_longNumber
    rwa [String.intercalate_singleton] at hjoined
  have htext : listText [{ chunk := .number longNumber }] = longNumber := by
    simp [listText, PaddedChunk.text, CpuChunk.text]
  refine ⟨isDecimal_longNumber, ⟨[], ?_, List.not_mem_nil⟩, by decide +kernel⟩
  have hcount : cpuCount longNumber = 0 := by
    rw [cpuCount_eq_length, hsplit, List.map_singleton, hstrip, List.flatMap_singleton,
      parse_longNumber, List.length_nil]
  have hparse : parseCpuList longNumber = [] := by
    rw [parseCpuList, hsplit, List.map_singleton, hstrip, List.flatMap_singleton,
      parse_longNumber]
    rfl
  rw [htext, parseCpuListWithin, hcount, hparse, if_neg (Nat.not_lt_zero _)]

end SeapathWebui.Inventory
