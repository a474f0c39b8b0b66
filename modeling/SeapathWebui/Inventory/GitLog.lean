/-
  Inventory/GitLog.lean --- the log of the inventory repository, as git writes it and as
  `history` reads it.

  Source: `_LOG_FORMAT`, `history` and `_parse_commit` of app/inventory/repository.py.

  An adopted repository brings a history of its own, and git takes more than the service
  does.  git ends no commit but with a newline; `splitlines` ends a line at other characters
  too, so one of them in a name or a subject makes two lines of one commit.  And git writes
  a time whatever its year and its zone; a `datetime` has four digits for the one and less
  than a day for the other.  `history_decodes_iff` says when what is read is what was written.
-/
import SeapathWebui.Foundation.Files
import SeapathWebui.Foundation.IsoTime
import SeapathWebui.Foundation.Lines
import SeapathWebui.Inventory.Repository

set_option autoImplicit false

namespace SeapathWebui.Inventory

open SeapathWebui.Foundation SeapathWebui.Foundation.Text

/-! ## What git writes -/

/-- The time of a commit: what the clock of its author showed. -/
structure GitTime where
  clock : ClockTime
  zone : Zone
  deriving DecidableEq

/-- `%aI`.  A git since 2.45 writes `Z` for UTC. -/
def GitTime.text (zulu : Bool) (t : GitTime) : String :=
  String.ofList (t.clock.text ++ t.zone.text zulu)

/-- `%x1f` -/
def unitSeparator : Char := '\x1f'

/-- The text of a hash. -/
def Hexadecimal (s : String) : Prop := ∀ c ∈ s.toList, c.isDigit = true ∨ 'a' ≤ c ∧ c ≤ 'f'

instance (s : String) : Decidable (Hexadecimal s) := List.decidableBAll _ _

/-- A commit of git: its hash is hexadecimal, its author, email and subject are each without a
newline, and author and email without the separator, too. -/
structure GitCommit where
  hash : Hash
  author : String
  email : String
  timestamp : GitTime
  subject : String
  hexadecimal : Hexadecimal hash
  author_line : '\n' ∉ author.toList ∧ unitSeparator ∉ author.toList
  email_line : '\n' ∉ email.toList ∧ unitSeparator ∉ email.toList
  subject_line : '\n' ∉ subject.toList

/-- A commit in the format `_LOG_FORMAT`. -/
def logLine (zulu : Bool) (c : GitCommit) : String :=
  (String.singleton unitSeparator).intercalate
    [c.hash, c.author, c.email, c.timestamp.text zulu, c.subject]

/-- `git log --pretty=format:` -/
def logOutput (zulu : Bool) (commits : List GitCommit) : String :=
  "\n".intercalate (commits.map (logLine zulu))

/-! ## What is read -/

/-- `datetime`: the year is one of four digits, and the clock, if it is known how far it is from
UTC, less than a day away. -/
structure Datetime extends ClockTime where
  microsecond : Nat
  /-- in seconds -/
  offset : Option Int
  year_range : 1 ≤ year ∧ year ≤ 9999
  offset_range : ∀ seconds ∈ offset, seconds.natAbs < 24 * 60 * 60
  deriving DecidableEq

/-- There is a `datetime` of that time. -/
def GitTime.Representable (t : GitTime) : Prop :=
  (1 ≤ t.clock.year ∧ t.clock.year ≤ 9999) ∧ t.zone.offset.natAbs < 24 * 60

instance (t : GitTime) : Decidable t.Representable := inferInstanceAs (Decidable (_ ∧ _))

/-- That `datetime`. -/
def GitTime.datetime (t : GitTime) (h : t.Representable) : Datetime where
  toClockTime := t.clock
  microsecond := 0
  offset := some (60 * t.zone.offset)
  year_range := h.1
  offset_range := by
    rintro seconds ⟨⟩
    have hminutes := h.2
    omega

/-- `datetime.fromisoformat`. -/
structure IsoFormat where
  parse : String → Option Datetime
  /-- It reads the times that git writes, where it can represent them. -/
  reads : ∀ (zulu : Bool) (t : GitTime) (h : t.Representable),
    parse (t.text zulu) = some (t.datetime h)

/-- `Commit`, as `history` answers it. -/
structure LoggedCommit where
  hash : Hash
  author : String
  email : String
  timestamp : Datetime
  message : String
  deriving DecidableEq

variable {σ : Type}

/-- `_parse_commit` -/
def parseCommit (parse : String → Option Datetime) (line : String) :
    Except (Exc σ) LoggedCommit :=
  match splitMax unitSeparator 4 line with
  | [hash, author, email, timestamp, message] =>
      match parse timestamp with
      | none => .error .value
      | some timestamp =>
          .ok
            { hash := hash
              author := author
              email := email
              timestamp := timestamp
              message := message }
  | _ => .error .value

/-- `history`, from the output of git on. -/
def historyOf (parse : String → Option Datetime) (output : String) :
    Except (Exc σ) (List LoggedCommit) :=
  ((splitlines (universalNewlines output)).filter fun line => line ≠ "").mapM (parseCommit parse)

/-- The answer is the commit: its texts, and the time that its author's clock showed. -/
structure LoggedCommit.Of (l : LoggedCommit) (c : GitCommit) : Prop where
  hash : l.hash = c.hash
  author : l.author = c.author
  email : l.email = c.email
  clock : l.timestamp.toClockTime = c.timestamp.clock
  microsecond : l.timestamp.microsecond = 0
  offset : l.timestamp.offset = some (60 * c.timestamp.zone.offset)
  message : l.message = c.subject

/-! ## A line -/

/-- No field that is without white space has the separator, or more than one line. -/
theorem separator_not_mem_of_noSpace {s : String} (h : NoSpace s) : unitSeparator ∉ s.toList :=
  fun hmem => absurd (h _ hmem) (by decide)

theorem noSpace_timestamp (zulu : Bool) (t : GitTime) : NoSpace (t.text zulu) := by
  intro c hc
  rw [GitTime.text, String.toList_ofList] at hc
  rcases List.mem_append.mp hc with hclock | hzone
  · exact isSpace_of_mem_text hclock
  · exact isSpace_of_mem_zone hzone

theorem noSpace_hash (c : GitCommit) : NoSpace c.hash := by
  intro d hd
  rcases c.hexadecimal d hd with hdigit | hletter
  · exact isSpace_of_isDigit hdigit
  · change 97 ≤ d.toNat ∧ d.toNat ≤ 102 at hletter
    simp only [isSpace, Bool.or_eq_false_iff, Bool.and_eq_false_iff, beq_eq_false_iff_ne,
      decide_eq_false_iff_not]
    omega

/-- The five fields of a line are found again. -/
theorem splitMax_logLine (zulu : Bool) (c : GitCommit) :
    splitMax unitSeparator 4 (logLine zulu c) =
      [c.hash, c.author, c.email, c.timestamp.text zulu, c.subject] := by
  have hhash := separator_not_mem_of_noSpace (noSpace_hash c)
  have htime := separator_not_mem_of_noSpace (noSpace_timestamp zulu c.timestamp)
  have hline : logLine zulu c =
      c.hash ++ String.singleton unitSeparator ++ (c.author ++ String.singleton unitSeparator ++
        (c.email ++ String.singleton unitSeparator ++
          (c.timestamp.text zulu ++ String.singleton unitSeparator ++ c.subject))) := by
    apply String.toList_inj.mp
    simp [logLine]
  rw [hline, splitMax_append hhash, splitMax_append c.author_line.2,
    splitMax_append c.email_line.2, splitMax_append htime, splitMax]

/-- A line whose time can be represented is read as the commit. -/
theorem parseCommit_logLine (iso : IsoFormat) (zulu : Bool) {c : GitCommit}
    (h : c.timestamp.Representable) :
    ∃ l : LoggedCommit,
      (parseCommit iso.parse (logLine zulu c) : Except (Exc σ) _) = .ok l ∧ l.Of c := by
  rw [parseCommit, splitMax_logLine]
  simp only [iso.reads zulu _ h]
  exact ⟨_, rfl, rfl, rfl, rfl, rfl, rfl, rfl, rfl⟩

/-- What is read of a line is part of it. -/
theorem oneLine_of_parseCommit {parse : String → Option Datetime} {line : String}
    {l : LoggedCommit} (hline : OneLine line)
    (h : (parseCommit parse line : Except (Exc σ) _) = .ok l) :
    OneLine l.author ∧ OneLine l.email ∧ OneLine l.message := by
  have hparts := forall_mem_splitMax (c := unitSeparator) (n := 4) hline
  unfold parseCommit at h
  split at h
  · rename_i hash author email timestamp message hsplit
    split at h
    · cases h
    · obtain rfl := Except.ok.inj h
      rw [hsplit] at hparts
      exact ⟨hparts author (by simp), hparts email (by simp), hparts message (by simp)⟩
  · cases h

/-- What is read of a time can be represented. -/
theorem representable_of_answer {l : LoggedCommit} {c : GitCommit} (h : l.Of c) :
    c.timestamp.Representable := by
  have hyear := l.timestamp.year_range
  have hoffset := l.timestamp.offset_range _ h.offset
  rw [h.clock] at hyear
  exact ⟨hyear, by omega⟩

/-! ## A log -/

theorem oneLine_logLine {zulu : Bool} {c : GitCommit}
    (h : OneLine c.author ∧ OneLine c.email ∧ OneLine c.subject) :
    OneLine (logLine zulu c) := by
  have hseparator : OneLine (String.singleton unitSeparator) := by decide
  refine forall_mem_intercalate hseparator fun part hpart => ?_
  simp only [List.mem_cons, List.not_mem_nil, or_false] at hpart
  rcases hpart with rfl | rfl | rfl | rfl | rfl
  · exact oneLine_of_noSpace (noSpace_hash c)
  · exact h.1
  · exact h.2.1
  · exact oneLine_of_noSpace (noSpace_timestamp zulu c.timestamp)
  · exact h.2.2

theorem logLine_ne_empty (zulu : Bool) (c : GitCommit) : logLine zulu c ≠ "" := by
  intro h
  have hnil := congrArg String.toList h
  simp [logLine] at hnil

/-- The lines of commits whose times can be represented, read one after the other. -/
theorem mapM_logLine (iso : IsoFormat) (zulu : Bool) {commits : List GitCommit}
    (h : ∀ c ∈ commits, c.timestamp.Representable) :
    ∃ logged : List LoggedCommit,
      ((commits.map (logLine zulu)).mapM (parseCommit iso.parse) : Except (Exc σ) _) =
        .ok logged ∧ List.Forall₂ LoggedCommit.Of logged commits := by
  induction commits with
  | nil => exact ⟨[], rfl, .nil⟩
  | cons c rest ih =>
      obtain ⟨l, hl, hof⟩ := parseCommit_logLine (σ := σ) iso zulu (h c List.mem_cons_self)
      obtain ⟨logged, hlogged, hall⟩ := ih fun c' hc' => h c' (List.mem_cons_of_mem _ hc')
      refine ⟨l :: logged, ?_, .cons hof hall⟩
      rw [List.map_cons, List.mapM_cons, hl, hlogged]
      rfl

theorem exists_answer {logged : List LoggedCommit} {commits : List GitCommit}
    (h : List.Forall₂ LoggedCommit.Of logged commits) {c : GitCommit} (hc : c ∈ commits) :
    ∃ l ∈ logged, l.Of c := by
  induction h with
  | nil => cases hc
  | cons hof _ ih =>
      rcases List.mem_cons.mp hc with rfl | hrest
      · exact ⟨_, List.mem_cons_self, hof⟩
      · obtain ⟨l, hl, hof'⟩ := ih hrest
        exact ⟨l, List.mem_cons_of_mem _ hl, hof'⟩

/-- **What git writes of a list of commits is read as that list exactly if no author, email or
subject has a character at which `splitlines` ends a line, and each time is one that `datetime`
can represent.** -/
theorem history_decodes_iff (iso : IsoFormat) (zulu : Bool) (commits : List GitCommit) :
    (∃ logged : List LoggedCommit,
      (historyOf iso.parse (logOutput zulu commits) : Except (Exc RepoError) _) = .ok logged ∧
        List.Forall₂ LoggedCommit.Of logged commits) ↔
      ∀ c ∈ commits, (OneLine c.author ∧ OneLine c.email ∧ OneLine c.subject) ∧
        c.timestamp.Representable := by
  constructor
  · rintro ⟨logged, h, hall⟩ c hc
    obtain ⟨l, hl, hof⟩ := exists_answer hall hc
    obtain ⟨line, hline, hread⟩ := mem_of_mapM_eq_ok h l hl
    have hcut := oneLine_of_mem_splitlines (List.mem_filter.mp hline).1
    have hone := oneLine_of_parseCommit hcut hread
    rw [hof.author, hof.email, hof.message] at hone
    exact ⟨hone, representable_of_answer hof⟩
  · intro h
    let lines := commits.map (logLine zulu)
    have hlines : ∀ line ∈ lines, OneLine line ∧ line ≠ "" := by
      intro line hline
      obtain ⟨c, hc, rfl⟩ := List.mem_map.mp hline
      exact ⟨oneLine_logLine (h c hc).1, logLine_ne_empty zulu _⟩
    have hplain : NewlinesOnly ("\n".intercalate lines) := by
      have hreturn : ∀ c ∈ ("\n".intercalate lines).toList, c ≠ '\r' := by
        refine forall_mem_intercalate ?_ fun line hline c hc heq => ?_
        · rintro c hc rfl
          exact absurd hc (by decide)
        · exact absurd ((hlines line hline).1 c hc) (by rw [heq]; decide)
      exact fun hmem => hreturn _ hmem rfl
    have hfilter : lines.filter (fun line => line ≠ "") = lines :=
      List.filter_eq_self.mpr fun line hline => decide_eq_true (hlines line hline).2
    rw [historyOf, logOutput, universalNewlines_eq_self_iff.mpr hplain,
      splitlines_intercalate (fun line hline => (hlines line hline).1)
        fun line hline => (hlines line hline).2, hfilter]
    exact mapM_logLine iso zulu fun c hc => (h c hc).2

/-! ### A form feed in a subject, and a zone of more than a day -/

/-- `fromisoformat` for the extended form, with an offset. -/
def extendedFormat : IsoFormat where
  parse text := (readIso text).bind fun (clock, minutes) =>
    if h : (1 ≤ clock.year ∧ clock.year ≤ 9999) ∧ minutes.natAbs < 24 * 60 then
      some ⟨clock, 0, some (60 * minutes), h.1, by rintro seconds ⟨⟩; have := h.2; omega⟩
    else none
  reads zulu t h := by
    have hzone : t.zone.hours < 100 := by
      have hoffset := h.2
      unfold Zone.offset at hoffset
      split at hoffset <;> omega
    rw [GitTime.text, readIso_text zulu h.1.2 hzone, Option.bind_some]
    exact dif_pos h

/-- A commit with this subject, whose author is so far from UTC. -/
def commitSaying (subject : String) (hours : Nat) (h : '\n' ∉ subject.toList) : GitCommit where
  hash := "3f2a"
  author := "site"
  email := "site@example.org"
  timestamp :=
    { clock := ⟨2026, 1, 2, 3, 4, 5, by decide, by decide, by decide⟩
      zone := ⟨false, hours, 0, by decide⟩ }
  subject := subject
  hexadecimal := by decide
  author_line := by decide
  email_line := by decide
  subject_line := h

/-- git keeps the form feed; the line is cut at it, and the rest of it has one field.  And it
keeps the zone, of which there is no `datetime`. -/
theorem adopted_commit_breaks_history :
    (historyOf extendedFormat.parse (logOutput false [commitSaying "add\x0cnode2" 1 (by decide)]) :
      Except (Exc RepoError) (List LoggedCommit)) = .error .value ∧
    (historyOf extendedFormat.parse (logOutput false [commitSaying "add node2" 25 (by decide)]) :
      Except (Exc RepoError) (List LoggedCommit)) = .error .value := by
  decide +kernel

end SeapathWebui.Inventory
