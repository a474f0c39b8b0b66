/-
  Runs/Recent.lean --- the list of runs, by when they were started.

  Source: `_new_run_id` of app/runs/service.py, and `list` of app/runs/store.py.

  The store sorts the runs by their identifiers, as texts.  An identifier is the instant of
  the launch in fields of fixed width, the year first, so that is the order of the instants
  (`newRunId_lt_iff`), and what the cut keeps is what was started last.
-/
import SeapathWebui.Foundation.FixedWidth
import SeapathWebui.Runs.Reconcile
import SeapathWebui.Runs.Service

set_option autoImplicit false

namespace SeapathWebui.Runs

open SeapathWebui.Foundation

/-! ## Instants -/

/-- The fields of an instant, the greatest unit first. -/
def Instant.fields (t : Instant) : List Nat :=
  [t.year, t.month, t.day, t.hour, t.minute, t.second, t.microsecond]

/-- One instant is before the other: the first field in which they differ decides. -/
def Instant.Before (s t : Instant) : Prop := s.fields < t.fields

/-- The ranges of the fields, for a year of four digits. -/
structure Instant.Valid (t : Instant) : Prop where
  year : 1000 ≤ t.year ∧ t.year ≤ 9999
  month : 1 ≤ t.month ∧ t.month ≤ 12
  day : 1 ≤ t.day ∧ t.day ≤ 31
  hour : t.hour < 24
  minute : t.minute < 60
  second : t.second < 60
  microsecond : t.microsecond < 1000000

/-- Every field fits into its width. -/
theorem Instant.Valid.widths {t : Instant} (h : t.Valid) :
    t.year < 10 ^ 4 ∧ t.month < 10 ^ 2 ∧ t.day < 10 ^ 2 ∧ t.hour < 10 ^ 2 ∧
      t.minute < 10 ^ 2 ∧ t.second < 10 ^ 2 ∧ t.microsecond < 10 ^ 6 := by
  obtain ⟨⟨-, hyear⟩, ⟨-, hmonth⟩, ⟨-, hday⟩, hhour, hminute, hsecond, hmicrosecond⟩ := h
  omega

theorem Instant.before_or (s t : Instant) : s.Before t ∨ s = t ∨ t.Before s := by
  rcases lt_trichotomy s.fields t.fields with hlt | heq | hlt
  · exact .inl hlt
  · refine .inr (.inl ?_)
    obtain ⟨⟩ := s
    obtain ⟨⟩ := t
    simpa [Instant.fields] using heq
  · exact .inr (.inr hlt)

theorem Instant.before_irrefl (t : Instant) : ¬ t.Before t := lt_irrefl t.fields

/-! ## Identifiers -/

/-- A field of fixed width is compared before what follows it. -/
theorem field_lt_iff {width m n : Nat} {c d : List Char} (hwidth : 0 < width)
    (hm : m < 10 ^ width) (hn : n < 10 ^ width) :
    Text.padDecimal width m ++ c < Text.padDecimal width n ++ d ↔ m < n ∨ (m = n ∧ c < d) := by
  have hlength := (Text.length_padDecimal hwidth hm).trans (Text.length_padDecimal hwidth hn).symm
  rw [Text.append_lt_append_iff hlength, Text.padDecimal_lt_iff hwidth hm hn,
    (Text.padDecimal_injective width).eq_iff]

/-- **Identifiers are ordered as texts as their instants are in time.** -/
theorem newRunId_lt_iff {s t : Instant} (hs : s.Valid) (ht : t.Valid) :
    newRunId s < newRunId t ↔ s.Before t := by
  obtain ⟨hyear, hmonth, hday, hhour, hminute, hsecond, hmicrosecond⟩ := hs.widths
  obtain ⟨hyear', hmonth', hday', hhour', hminute', hsecond', hmicrosecond'⟩ := ht.widths
  rw [String.lt_iff, newRunId, newRunId, String.toList_ofList, String.toList_ofList]
  simp only [List.append_assoc]
  rw [field_lt_iff (by decide) hyear hyear', field_lt_iff (by decide) hmonth hmonth',
    field_lt_iff (by decide) hday hday', List.cons_lt_cons_self,
    field_lt_iff (by decide) hhour hhour', field_lt_iff (by decide) hminute hminute',
    field_lt_iff (by decide) hsecond hsecond', List.cons_lt_cons_self,
    Text.padDecimal_lt_iff (by decide) hmicrosecond hmicrosecond']
  simp only [Instant.Before, Instant.fields, List.cons_lt_cons_iff, List.not_lt_nil, and_false,
    or_false]

/-- Two instants have two identifiers. -/
theorem newRunId_injective {s t : Instant} (hs : s.Valid) (ht : t.Valid)
    (h : newRunId s = newRunId t) : s = t := by
  rcases s.before_or t with hlt | heq | hlt
  · exact absurd ((newRunId_lt_iff hs ht).mpr hlt) (h ▸ lt_irrefl _)
  · exact heq
  · exact absurd ((newRunId_lt_iff ht hs).mpr hlt) (h ▸ lt_irrefl _)

/-! ## The list -/

variable (parse : String → Option RunRecord)

/-- The readable records of the store, in the order of the directory, each with its entry. -/
def RunFiles.stored (files : RunFiles) : List (RunRecord × RunEntry) :=
  files.found.filterMap (RunEntry.listed parse)

/-- What is known of the records of a store: each was created at an instant, no two at the
same one, and the identifier is made of it. -/
structure CreatedAt (createdAt : RunRecord → Instant) (records : List RunRecord) : Prop where
  valid : ∀ record ∈ records, (createdAt record).Valid
  ids : ∀ record ∈ records, record.id = newRunId (createdAt record)
  distinct : (records.map createdAt).Nodup

/-- Sorted by their identifiers, the last one first, they are sorted by their instants. -/
theorem CreatedAt.before {createdAt : RunRecord → Instant}
    {records : List (RunRecord × RunEntry)} (h : CreatedAt createdAt (records.map Prod.fst)) :
    (records.insertionSort fun a b => b.1.id ≤ a.1.id).Pairwise fun a b =>
      (createdAt b.1).Before (createdAt a.1) := by
  have hperm := List.perm_insertionSort (fun a b : RunRecord × RunEntry => b.1.id ≤ a.1.id) records
  have hsorted := List.pairwise_insertionSort
    (fun a b : RunRecord × RunEntry => b.1.id ≤ a.1.id) records
  have hdistinct : (records.insertionSort fun a b => b.1.id ≤ a.1.id).Pairwise fun a b =>
      createdAt a.1 ≠ createdAt b.1 := by
    have hnodup := h.distinct
    rw [List.map_map] at hnodup
    exact List.pairwise_map.mp ((hperm.map _).nodup_iff.mpr hnodup)
  refine (hsorted.and hdistinct).imp_of_mem ?_
  rintro a b ha hb ⟨hle, hne⟩
  have ha' := List.mem_map_of_mem (f := Prod.fst) (hperm.mem_iff.mp ha)
  have hb' := List.mem_map_of_mem (f := Prod.fst) (hperm.mem_iff.mp hb)
  rcases (createdAt b.1).before_or (createdAt a.1) with hlt | heq | hlt
  · exact hlt
  · exact absurd heq.symm hne
  · have hid := (newRunId_lt_iff (h.valid a.1 ha') (h.valid b.1 hb')).mpr hlt
    rw [← h.ids a.1 ha', ← h.ids b.1 hb'] at hid
    exact absurd hle (not_le_of_gt hid)

/-- The first of a list that is sorted by a strict order come before all the others. -/
theorem pairwise_take {α : Type*} {r : α → α → Prop} {l : List α} (h : l.Pairwise r) (n : Nat)
    {a b : α} (ha : a ∈ l.take n) (hb : b ∈ l) : b ∈ l.take n ∨ r a b := by
  rw [← List.take_append_drop n l] at h hb
  rcases List.mem_append.mp hb with hb | hb
  · exact .inl hb
  · exact .inr ((List.pairwise_append.mp h).2.2 a ha b hb)

/-- **The list is the runs that were started last, the last one first.** -/
theorem list_most_recent {σ : Type} {files : RunFiles} (hfiles : files.Listable)
    {createdAt : RunRecord → Instant}
    (hcreated : CreatedAt createdAt ((files.stored parse).map Prod.fst)) (limit : Nat) :
    (∀ s t : Instant, s.Valid → t.Valid → (newRunId s < newRunId t ↔ s.Before t)) ∧
      ∃ listed, (files.list parse limit : Except (Exc σ) _) = .ok listed ∧
        listed.length = min limit (files.stored parse).length ∧
        (∀ a ∈ listed, a ∈ files.stored parse) ∧ listed.Nodup ∧
        listed.Pairwise (fun a b => (createdAt b.1).Before (createdAt a.1)) ∧
        ∀ a ∈ listed, ∀ b ∈ files.stored parse,
          b ∈ listed ∨ (createdAt b.1).Before (createdAt a.1) := by
  refine ⟨fun s t hs ht => newRunId_lt_iff hs ht, files.records parse limit,
    list_eq_ok parse hfiles limit, ?_⟩
  have hperm := List.perm_insertionSort (fun a b : RunRecord × RunEntry => b.1.id ≤ a.1.id)
    (files.stored parse)
  have hsorted := hcreated.before
  have htake : (files.records parse limit).Pairwise fun a b =>
      (createdAt b.1).Before (createdAt a.1) := hsorted.sublist (List.take_sublist _ _)
  refine ⟨?_, fun a ha => hperm.mem_iff.mp (List.mem_of_mem_take ha), ?_, htake,
    fun a ha b hb => pairwise_take hsorted limit ha (hperm.mem_iff.mpr hb)⟩
  · rw [RunFiles.records, newest, List.length_take]
    exact congrArg _ hperm.length_eq
  · refine htake.imp ?_
    rintro a b hbefore rfl
    exact Instant.before_irrefl _ hbefore

/-- A launch in the last microsecond of a year. -/
def newYearsEve : Instant := ⟨2025, 12, 31, 23, 59, 59, 999999⟩

/-- The next microsecond. -/
def newYear : Instant := ⟨2026, 1, 1, 0, 0, 0, 0⟩

/-- The record of a run that was started then. -/
def recordAt (t : Instant) : RunRecord where
  id := newRunId t
  playbook := "seapath.ansible.seapath_setup_main"
  playbookId := "seapath_setup_main"
  launchedBy := "admin"

/-- Its file. -/
def jsonAt (t : Instant) : String :=
  "\x7b\"id\": \"" ++ newRunId t ++ "\", \"playbook\": \"seapath.ansible.seapath_setup_main\", " ++
    "\"playbook_id\": \"seapath_setup_main\", \"launched_by\": \"admin\"\x7d"

/-- The two files, read. -/
def parseAt (text : String) : Option RunRecord :=
  ([newYear, newYearsEve].find? fun t => text = jsonAt t).map recordAt

theorem newRunId_newYearsEve_ne : newRunId newYearsEve ≠ newRunId newYear := by
  have heve : newYearsEve.Valid := by constructor <;> decide
  have hyear : newYear.Valid := by constructor <;> decide
  exact fun h => absurd (newRunId_injective heve hyear h) (by decide)

theorem parseAt_jsonAt {t : Instant} (ht : t ∈ [newYear, newYearsEve]) :
    parseAt (jsonAt t) = some (recordAt t) := by
  have hne : jsonAt newYearsEve ≠ jsonAt newYear := by
    intro h
    have hchars := congrArg String.toList h
    simp only [jsonAt, String.toList_append] at hchars
    have hids := List.append_cancel_left
      (List.append_cancel_right (List.append_cancel_right hchars))
    exact newRunId_newYearsEve_ne (String.toList_inj.mp hids)
  simp only [List.mem_cons, List.not_mem_nil, or_false] at ht
  rcases ht with rfl | rfl
  · simp [parseAt]
  · simp [parseAt, hne]

/-- A directory in the store. -/
def directoryWith (record : Answer ByteArray) : RunEntry where
  directory := .ok true
  record := record
  writeTemporary := .ok ()
  replaceRecord := .ok ()

/-- The two runs, the later one first, a directory without a record, and the lock. -/
def newYearRuns : RunFiles where
  root := .ok true
  entries := .ok
    [directoryWith (.error .noEntry), directoryWith (.ok (jsonAt newYear).toUTF8),
      { directoryWith (.error .notADirectory) with directory := .ok false },
      directoryWith (.ok (jsonAt newYearsEve).toUTF8)]
  unlinkLock := .ok ()

theorem listable_newYearRuns : newYearRuns.Listable where
  root := by
    rintro e ⟨⟩
  entries _ := ⟨_, rfl⟩
  directories := by
    intro entry hentry e he
    have hanswered : entry.directory = .ok true ∨ entry.directory = .ok false := by
      simp only [newYearRuns, RunFiles.found, List.mem_cons, List.not_mem_nil, or_false] at hentry
      rcases hentry with rfl | rfl | rfl | rfl
      · exact .inl rfl
      · exact .inl rfl
      · exact .inr rfl
      · exact .inl rfl
    rcases hanswered with h | h
    · rw [h] at he
      cases he
    · rw [h] at he
      cases he

theorem stored_newYearRuns :
    newYearRuns.stored parseAt =
      [(recordAt newYear, directoryWith (.ok (jsonAt newYear).toUTF8)),
        (recordAt newYearsEve, directoryWith (.ok (jsonAt newYearsEve).toUTF8))] := by
  have hread : ∀ t ∈ [newYear, newYearsEve],
      (directoryWith (.ok (jsonAt t).toUTF8)).listed parseAt =
        some (recordAt t, directoryWith (.ok (jsonAt t).toUTF8)) := by
    intro t ht
    have hrecord : (directoryWith (.ok (jsonAt t).toUTF8)).recordOf parseAt =
        some (recordAt t) := by
      simp only [RunEntry.recordOf, directoryWith, fromUTF8?_toUTF8, Option.bind_some,
        parseAt_jsonAt ht]
    rw [RunEntry.listed, hrecord, if_pos (by rw [directoryWith]), Option.map_some]
  have hbroken : (directoryWith (.error .noEntry)).listed parseAt = none := rfl
  have hlock : RunEntry.listed parseAt
      { directoryWith (.error .notADirectory) with directory := .ok false } = none := rfl
  simp only [RunFiles.stored, newYearRuns, RunFiles.found, List.filterMap_cons,
    List.filterMap_nil, hbroken, hlock, hread newYear (by decide), hread newYearsEve (by decide)]

theorem list_most_recent_newYear :
    ∃ listed, (newYearRuns.list parseAt 1 : Except (Exc Empty) _) = .ok listed ∧
      listed.length = 1 ∧
        ∀ a ∈ listed, ∀ b ∈ newYearRuns.stored parseAt, b ∈ listed ∨
          ((fun record =>
            if record.id = newRunId newYear then newYear else newYearsEve) b.1).Before
            ((fun record =>
              if record.id = newRunId newYear then newYear else newYearsEve) a.1) := by
  have hcreated : CreatedAt
      (fun record => if record.id = newRunId newYear then newYear else newYearsEve)
      ((newYearRuns.stored parseAt).map Prod.fst) := by
    have hnew : (fun record : RunRecord =>
        if record.id = newRunId newYear then newYear else newYearsEve) (recordAt newYear) =
          newYear := if_pos rfl
    have hold : (fun record : RunRecord =>
        if record.id = newRunId newYear then newYear else newYearsEve) (recordAt newYearsEve) =
          newYearsEve := if_neg newRunId_newYearsEve_ne
    rw [stored_newYearRuns]
    refine ⟨fun record hrecord => ?_, ?_, ?_⟩
    · split
      · constructor <;> decide
      · constructor <;> decide
    · simp only [List.map_cons, List.map_nil, List.forall_mem_cons, hnew, hold]
      exact ⟨rfl, rfl, fun _ h => nomatch h⟩
    · simp only [List.map_cons, List.map_nil, hnew, hold]
      decide
  obtain ⟨listed, hlist, hlength, -, -, -, hrecent⟩ :=
    (list_most_recent parseAt listable_newYearRuns hcreated 1).2
  rw [stored_newYearRuns] at hlength
  exact ⟨listed, hlist, hlength, hrecent⟩

end SeapathWebui.Runs
