/-
  Runs/EventStream.lean --- the events of a run, as a client receives them.

  Source: `append_event` and `events` of app/runs/store.py, `stream` and `_final` of
  app/api/v1/runs.py.

  The run thread appends one line an event.  The client's loop reads the file again and
  again, from the beginning, and may find its last line half written.  It keeps one
  counter, of the events it has sent; the reader skips lines.  The two agree because a
  line that cannot be decoded is always the last one.

  What is written is ASCII, so a byte of the file is a character.
-/
import SeapathWebui.Foundation.Lines
import SeapathWebui.Foundation.Transition
import SeapathWebui.Runs.Store

set_option autoImplicit false

namespace SeapathWebui.Runs

open SeapathWebui.Foundation SeapathWebui.Foundation.Text

variable {E : Type*}

/-! ## Lines of JSON -/

/-- `json.dumps` and `json.loads` of events; `none` is the `JSONDecodeError`. -/
structure Json (E : Type*) where
  dumps : E → String
  loads : String → Option E

/-- An event is an object.  Its text has no line break, is read back with or without a
newline after it, and cannot be read cut short. -/
structure Json.Faithful (json : Json E) : Prop where
  brace : ∀ e, ∃ rest, (json.dumps e).toList = '{' :: rest
  noBreak : ∀ e, '\n' ∉ (json.dumps e).toList ∧ NewlinesOnly (json.dumps e)
  loads_dumps : ∀ e, json.loads (json.dumps e) = some e
  loads_line : ∀ e, json.loads (json.dumps e ++ "\n") = some e
  truncated : ∀ e p, p.toList <+: (json.dumps e).toList → p ≠ json.dumps e →
    json.loads p = none

/-- The file after `append_event` of each event. -/
def eventsText (json : Json E) (written : List E) : String := joinLines (written.map json.dumps)

/-- What `events` makes of a line, unless it skips it. -/
def decodeLine (json : Json E) (offset : Nat) (p : String × Nat) : Option E :=
  if p.2 < offset ∨ strip p.1 = "" then none else json.loads p.1

/-- `RunStore.events`, from the content of the file; `none` is a file that cannot be
opened. -/
def RunStore.events (json : Json E) (file : Option String) (offset : Nat) : List E :=
  match file with
  | none => []
  | some text => (fileLines text).zipIdx.filterMap (decodeLine json offset)

/-! ## The client's loop -/

/-- `_final` -/
structure Final where
  state : RunState
  message : Option String
  returnCode : Option Int
  hosts : Dict String HostProgress
  deriving DecidableEq

/-- `_final` -/
def final (r : RunRecord) : Final where
  state := r.state
  message := r.message
  returnCode := r.returnCode
  hosts := r.progress.hosts

/-- What the loop sends: an event under its identifier, or the state of the run. -/
inductive Message (E : Type*)
  | event (id : Nat) (data : E)
  | state (verdict : Final)
  deriving DecidableEq

/-- The loop: its local variable, and what it has sent. -/
structure Stream (E : Type*) where
  index : Nat
  sent : List (Message E) := []
  deriving DecidableEq

/-- The body of the inner loop. -/
def Stream.send (s : Stream E) (e : E) : Stream E where
  index := s.index + 1
  sent := s.sent ++ [.event s.index e]

/-- The inner loop, over the events that the file shows. -/
def Stream.poll (json : Json E) (file : Option String) (s : Stream E) : Stream E :=
  (RunStore.events json file s.index).foldl Stream.send s

/-- Events under consecutive identifiers. -/
def numberedFrom (first : Nat) (es : List E) : List (Message E) :=
  (es.zipIdx first).map fun p => .event p.2 p.1

/-- The events of a run, each under its index. -/
def numbered (es : List E) : List (Message E) := numberedFrom 0 es

@[simp] theorem numberedFrom_nil (first : Nat) : numberedFrom first ([] : List E) = [] := rfl

theorem numberedFrom_cons (first : Nat) (e : E) (es : List E) :
    numberedFrom first (e :: es) = .event first e :: numberedFrom (first + 1) es := by
  simp [numberedFrom]

theorem numberedFrom_append (first : Nat) (es more : List E) :
    numberedFrom first (es ++ more) =
      numberedFrom first es ++ numberedFrom (first + es.length) more := by
  simp [numberedFrom, List.zipIdx_append]

@[simp] theorem length_numberedFrom (first : Nat) (es : List E) :
    (numberedFrom first es).length = es.length := by
  simp [numberedFrom]

theorem numbered_split {es : List E} {k : Nat} (hk : k ≤ es.length) :
    numbered es = numbered (es.take k) ++ numberedFrom k (es.drop k) := by
  have hsplit := numberedFrom_append 0 (es.take k) (es.drop k)
  rw [List.take_append_drop, Nat.zero_add, List.length_take, Nat.min_eq_left hk] at hsplit
  exact hsplit

theorem numbered_take (es : List E) (k : Nat) : (numbered es).take k = numbered (es.take k) := by
  rcases le_or_gt k es.length with hk | hk
  · rw [numbered_split hk]
    refine List.take_left' ?_
    rw [numbered, length_numberedFrom, List.length_take, Nat.min_eq_left hk]
  · rw [List.take_of_length_le hk.le, List.take_of_length_le (by simpa [numbered] using hk.le)]

/-- From an index on, the events have the identifiers from that index on. -/
theorem numbered_drop (es : List E) (k : Nat) :
    (numbered es).drop k = numberedFrom k (es.drop k) := by
  rcases le_or_gt k es.length with hk | hk
  · rw [numbered_split hk]
    refine List.drop_left' ?_
    rw [numbered, length_numberedFrom, List.length_take, Nat.min_eq_left hk]
  · rw [List.drop_eq_nil_of_le hk.le, List.drop_eq_nil_of_le (by simpa [numbered] using hk.le)]
    rfl

/-- The inner loop sends the events that are read, under the next identifiers. -/
theorem foldl_send (es : List E) :
    ∀ s : Stream E, es.foldl Stream.send s =
      ⟨s.index + es.length, s.sent ++ numberedFrom s.index es⟩ := by
  induction es with
  | nil =>
      intro s
      simp
  | cons e rest ih =>
      intro s
      rw [List.foldl_cons, ih, numberedFrom_cons]
      simp only [Stream.send, List.append_assoc, List.singleton_append, List.length_cons,
        Stream.mk.injEq, and_true]
      omega

/-! ## What a read of the file shows -/

/-- The line is the text of the event. -/
def Decodes (json : Json E) (line : String) (e : E) : Prop :=
  strip line ≠ "" ∧ json.loads line = some e

/-- The event that a line gives, if it gives one. -/
def lineEvent (json : Json E) (line : String) : Option E :=
  if strip line = "" then none else json.loads line

/-- The reader skips by line number. -/
theorem filterMap_zipIdx (json : Json E) (offset : Nat) (lines : List String) :
    ∀ first, (lines.zipIdx first).filterMap (decodeLine json offset) =
      (lines.drop (offset - first)).filterMap (lineEvent json) := by
  induction lines with
  | nil => simp
  | cons line rest ih =>
      intro first
      rw [List.zipIdx_cons, List.filterMap_cons, ih (first + 1)]
      by_cases hskip : first < offset
      · have hdrop : offset - first = (offset - (first + 1)) + 1 := by omega
        rw [decodeLine, if_pos (.inl hskip), hdrop, List.drop_succ_cons]
      · have hdrop : offset - first = 0 ∧ offset - (first + 1) = 0 := by omega
        have hdecode : decodeLine json offset (line, first) = lineEvent json line := by
          simp [decodeLine, lineEvent, hskip]
        rw [hdecode, hdrop.1, hdrop.2, List.drop_zero, List.drop_zero, List.filterMap_cons]

/-- With an event on each line, it gives the events from the offset on. -/
theorem filterMap_decodeLine {json : Json E} {lines : List String} {es : List E}
    (h : List.Forall₂ (Decodes json) lines es) (offset first : Nat) :
    (lines.zipIdx first).filterMap (decodeLine json offset) = es.drop (offset - first) := by
  have hall : ∀ {lines : List String} {es : List E}, List.Forall₂ (Decodes json) lines es →
      lines.filterMap (lineEvent json) = es := by
    intro lines es h
    induction h with
    | nil => rfl
    | @cons line e rest others hline _ ih =>
        have hevent : lineEvent json line = some e := by rw [lineEvent, if_neg hline.1, hline.2]
        rw [List.filterMap_cons_some hevent, ih]
  rw [filterMap_zipIdx]
  exact hall (List.forall₂_drop _ h)

theorem Json.Faithful.strip_ne {json : Json E} (h : json.Faithful) (e : E) {line more : String}
    (hline : line = json.dumps e ++ more) : strip line ≠ "" := by
  obtain ⟨rest, hrest⟩ := h.brace e
  have hchars : line.toList = '{' :: (rest ++ more.toList) := by
    rw [hline, String.toList_append, hrest]
    rfl
  exact strip_ne_empty hchars (by decide)

theorem decodes_lines {json : Json E} (h : json.Faithful) (es : List E) :
    List.Forall₂ (Decodes json) ((es.map json.dumps).map (· ++ "\n")) es := by
  rw [List.map_map, List.forall₂_map_left_iff, List.forall₂_same]
  exact fun e _ => ⟨h.strip_ne e rfl, h.loads_line e⟩

/-- The lines of a file, where the last ones are events too. -/
theorem events_of_fileLines {json : Json E} (h : json.Faithful) {text : String} {shown es : List E}
    {last : List String}
    (hfile : fileLines text = (shown.map json.dumps).map (· ++ "\n") ++ last)
    (hlast : List.Forall₂ (Decodes json) last es) (offset : Nat) :
    RunStore.events json (some text) offset = (shown ++ es).drop offset := by
  rw [RunStore.events, hfile]
  exact filterMap_decodeLine (List.rel_append (decodes_lines h shown) hlast) offset 0

/-- A last line that is cut short is left out. -/
theorem events_of_cut {json : Json E} (h : json.Faithful) {text p : String} {shown : List E}
    (hfile : fileLines text = (shown.map json.dumps).map (· ++ "\n") ++ [p])
    (hcut : json.loads p = none) (offset : Nat) :
    RunStore.events json (some text) offset = shown.drop offset := by
  have hfirst := filterMap_decodeLine (decodes_lines h shown) offset 0
  have hnone : decodeLine json offset
      (p, 0 + ((shown.map json.dumps).map (· ++ "\n")).length) = none := by
    rw [decodeLine, hcut, ite_self]
  rw [RunStore.events, hfile, List.zipIdx_append, List.filterMap_append, hfirst,
    List.zipIdx_singleton, List.filterMap_cons, hnone]
  simp

/-- Whatever prefix of the file a read sees, it gives the first events of the run, those
before the offset excepted, and among them each one whose line it sees whole. -/
theorem events_of_isPrefix {json : Json E} (h : json.Faithful) {written : List E} {text : String}
    (htext : text.toList <+: (eventsText json written).toList) :
    ∃ k ≤ written.length,
      (∀ offset, RunStore.events json (some text) offset = (written.take k).drop offset) ∧
        ∀ m ≤ written.length,
          (eventsText json (written.take m)).toList <+: text.toList → m ≤ k := by
  have hlines : ∀ l ∈ written.map json.dumps, '\n' ∉ l.toList ∧ NewlinesOnly l := by
    intro l hl
    obtain ⟨e, -, rfl⟩ := List.mem_map.mp hl
    exact h.noBreak e
  obtain ⟨k, cut, hfile, hk, hcut, hwhole⟩ := fileLines_of_isPrefix hlines htext
  rw [List.length_map] at hk
  rw [← List.map_take] at hfile
  have hseen : ∀ m ≤ written.length,
      (eventsText json (written.take m)).toList <+: text.toList → m ≤ k := by
    intro m hm hinitial
    rw [eventsText, List.map_take] at hinitial
    exact hwhole m (by simpa using hm) hinitial
  rcases hcut with rfl | ⟨l, p, hl, hp, hne, rfl⟩
  · refine ⟨k, hk, fun offset => ?_, hseen⟩
    rw [events_of_fileLines h hfile .nil offset, List.append_nil]
  · rw [List.getElem?_map] at hl
    obtain ⟨e, he, rfl⟩ := Option.map_eq_some_iff.mp hl
    by_cases hcomplete : p = json.dumps e
    -- the newline is all that is missing
    · have hlast : List.Forall₂ (Decodes json) [p] [e] :=
        .cons ⟨h.strip_ne e (hcomplete.trans (String.append_empty).symm),
          hcomplete ▸ h.loads_dumps e⟩ .nil
      have hlt : k < written.length := (List.getElem?_eq_some_iff.mp he).1
      refine ⟨k + 1, hlt, fun offset => ?_, fun m hm hinitial => ?_⟩
      · rw [events_of_fileLines h hfile hlast offset, List.take_add_one, he]
        rfl
      · exact Nat.le_succ_of_le (hseen m hm hinitial)
    · exact ⟨k, hk, events_of_cut h hfile (h.truncated e p hp hcomplete), hseen⟩

/-! ## Appends and reads, interleaved -/

/-- The run thread and the client's loop.  `written` and `longest` record what was
appended, and how much of the file the longest read saw. -/
structure Feed (E : Type*) where
  file : String := ""
  written : List E := []
  longest : Nat := 0
  stream : Stream E

/-- A step of the run thread, or one turn of the loop. -/
inductive FeedStep (E : Type*)
  /-- `append_event` -/
  | append (e : E)
  /-- the file is read, and this much of it is seen -/
  | poll (snapshot : String)

/-- One step.  A read sees a prefix of what has been written, never less than a read
before it. -/
def feedStep (json : Json E) (s : Feed E) : FeedStep E → Option (Feed E)
  | .append e =>
      some { s with file := s.file ++ (json.dumps e ++ "\n"), written := s.written ++ [e] }
  | .poll snapshot =>
      if s.longest ≤ snapshot.length ∧ snapshot.toList <+: s.file.toList then
        some { s with
          longest := snapshot.length
          stream := s.stream.poll json (some snapshot) }
      else none

/-- Before the first event, a client asks for the events from `offset` on. -/
def Feed.start (offset : Nat) : Feed E := { stream := { index := offset } }

theorem eventsText_concat (json : Json E) (written : List E) (e : E) :
    eventsText json (written ++ [e]) = eventsText json written ++ (json.dumps e ++ "\n") := by
  apply String.ext
  rw [eventsText, eventsText, String.toList_append, toList_joinLines, toList_joinLines]
  simp

theorem feedStep_cases {json : Json E} {s t : Feed E} {a : FeedStep E}
    (h : feedStep json s a = some t) :
    (∃ e, a = .append e ∧ t = { s with
      file := s.file ++ (json.dumps e ++ "\n"), written := s.written ++ [e] }) ∨
    (∃ snapshot, a = .poll snapshot ∧ snapshot.toList <+: s.file.toList ∧
      t = { s with
        longest := snapshot.length, stream := s.stream.poll json (some snapshot) }) := by
  cases a with
  | append e => exact .inl ⟨e, rfl, (Option.some.inj h).symm⟩
  | poll snapshot =>
      simp only [feedStep] at h
      split at h
      · rename_i hguard
        exact .inr ⟨snapshot, rfl, hguard.2, (Option.some.inj h).symm⟩
      · cases h

/-- What the client has is an initial part of the numbered events from its offset on, and
its counter says how long a part. -/
structure Feed.Invariant (json : Json E) (offset : Nat) (s : Feed E) : Prop where
  file : s.file = eventsText json s.written
  sent : s.stream.sent = ((numbered s.written).take s.stream.index).drop offset
  offset_le : offset ≤ s.stream.index
  index_le : s.stream.index ≤ s.written.length ∨ s.stream.index = offset

/-- What a read adds to what was sent. -/
theorem poll_eq {json : Json E} {written : List E} {offset k : Nat} {file : Option String}
    {s : Stream E}
    (hevents : RunStore.events json file s.index = (written.take k).drop s.index)
    (hk : k ≤ written.length)
    (hsent : s.sent = ((numbered written).take s.index).drop offset)
    (hoffset : offset ≤ s.index) :
    s.poll json file =
      ⟨max s.index k, ((numbered written).take (max s.index k)).drop offset⟩ := by
  rw [Stream.poll, foldl_send, hevents]
  rcases le_or_gt k s.index with hseen | hnew
  · have hnone : (written.take k).drop s.index = [] := by
      refine List.drop_eq_nil_of_le ?_
      rw [List.length_take]
      omega
    rw [hnone, Nat.max_eq_left hseen, hsent]
    simp
  · have hnumbered : numberedFrom s.index ((written.take k).drop s.index) =
        ((numbered written).take k).drop s.index := by
      rw [numbered_take, numbered_drop]
    have hlength : (numbered written).length = written.length := length_numberedFrom 0 written
    have hsplit : ((numbered written).take s.index).drop offset ++
        ((numbered written).take k).drop s.index = ((numbered written).take k).drop offset := by
      have htake : ((numbered written).take s.index) =
          ((numbered written).take k).take s.index := by
        rw [List.take_take, Nat.min_eq_left hnew.le]
      rw [htake, List.drop_take, ← Nat.sub_add_cancel hoffset]
      have hadd : s.index - offset + offset = offset + (s.index - offset) := Nat.add_comm _ _
      rw [hadd, Nat.add_sub_cancel_left, ← List.drop_drop, List.take_append_drop]
    rw [hnumbered, hsent, hsplit, Nat.max_eq_right hnew.le]
    simp only [Stream.mk.injEq, and_true, List.length_drop, List.length_take]
    omega

/-- An event that is appended changes nothing in what was sent. -/
theorem numbered_append {written : List E} {offset index : Nat}
    (hindex : index ≤ written.length ∨ index = offset) (more : List E) :
    ((numbered (written ++ more)).take index).drop offset =
      ((numbered written).take index).drop offset := by
  rcases hindex with hle | rfl
  · rw [numbered_take, numbered_take, List.take_append_of_le_length hle]
  · have hnil : ∀ es : List E, ((numbered es).take index).drop index = [] := by
      intro es
      exact List.drop_eq_nil_of_le (List.length_take_le _ _)
    rw [hnil, hnil]

theorem start_invariant (json : Json E) (offset : Nat) :
    (Feed.start offset : Feed E).Invariant json offset where
  file := rfl
  sent := by simp [Feed.start, numbered]
  offset_le := le_rfl
  index_le := .inr rfl

/-- Step lemma: an append keeps the invariant, and so does a read of any prefix. -/
theorem feedStep_invariant {json : Json E} (hjson : json.Faithful) {offset : Nat} {s t : Feed E}
    {a : FeedStep E} (hs : s.Invariant json offset) (h : feedStep json s a = some t) :
    t.Invariant json offset := by
  rcases feedStep_cases h with ⟨e, -, rfl⟩ | ⟨snapshot, -, hinitial, rfl⟩
  · exact
      { file := by
          rw [eventsText_concat, hs.file]
        sent := by
          rw [numbered_append hs.index_le, hs.sent]
        offset_le := hs.offset_le
        index_le := by
          refine hs.index_le.imp_left fun hle => ?_
          rw [List.length_append]
          exact Nat.le_add_right_of_le hle }
  · rw [hs.file] at hinitial
    obtain ⟨k, hk, hevents, -⟩ := events_of_isPrefix hjson hinitial
    have hpoll := poll_eq (hevents s.stream.index) hk hs.sent hs.offset_le
    exact
      { file := hs.file
        sent := by
          rw [hpoll]
        offset_le := by
          rw [hpoll]
          exact le_max_of_le_left hs.offset_le
        index_le := by
          rw [hpoll]
          change max s.stream.index k ≤ s.written.length ∨ max s.stream.index k = offset
          rcases hs.index_le with hle | hindex
          · exact .inl (max_le hle hk)
          · rcases le_or_gt k offset with hseen | hnew
            · exact .inr (by omega)
            · exact .inl (by omega) }

/-- **Every event is delivered once, in order, under its index.**  At any time what was
sent is the events of the run from the offset to the counter of the loop; and a read that
sees the lines of the first `m` events leaves none of these unsent. -/
theorem events_delivered_once {json : Json E} (hjson : json.Faithful) {offset : Nat}
    {steps : List (FeedStep E)} {s : Feed E}
    (hrun : execute (feedStep json) (Feed.start offset) steps = some s) :
    s.stream.sent = ((numbered s.written).take s.stream.index).drop offset ∧
      ∀ snapshot t, feedStep json s (.poll snapshot) = some t →
        ∀ m ≤ s.written.length,
          (eventsText json (s.written.take m)).toList <+: snapshot.toList →
            ((numbered s.written).take m).drop offset <+: t.stream.sent := by
  have hinv : s.Invariant json offset :=
    invariant_run (fun _ _ _ hI h => feedStep_invariant hjson hI h) (start_invariant json offset)
      hrun
  refine ⟨hinv.sent, fun snapshot t hpoll m hm hwhole => ?_⟩
  rcases feedStep_cases hpoll with ⟨e, ha, -⟩ | ⟨seen, ha, hinitial, rfl⟩
  · cases ha
  · obtain rfl := FeedStep.poll.inj ha
    rw [hinv.file] at hinitial
    obtain ⟨k, hk, hevents, hleast⟩ := events_of_isPrefix hjson hinitial
    have hmk := hleast m hm hwhole
    rw [poll_eq (hevents s.stream.index) hk hinv.sent hinv.offset_le]
    have htake : (numbered s.written).take m <+: (numbered s.written).take (max s.stream.index k) :=
      List.take_prefix_take_left (by omega)
    exact htake.drop offset

/-- Two events, as they are written. -/
inductive Sample
  | task
  | stats
  deriving DecidableEq, Repr

/-- The text of an event. -/
def Sample.text : Sample → String
  | .task => "\x7b\"kind\": \"task\"\x7d"
  | .stats => "\x7b\"kind\": \"stats\"\x7d"

/-- The two texts, written and read. -/
def sampleJson : Json Sample where
  dumps := Sample.text
  loads text := [Sample.task, .stats].find? fun e => text = e.text ∨ text = e.text ++ "\n"

theorem sampleJson_faithful : sampleJson.Faithful where
  brace e := by cases e <;> exact ⟨_, rfl⟩
  noBreak e := by cases e <;> decide +kernel
  loads_dumps e := by cases e <;> decide +kernel
  loads_line e := by cases e <;> decide +kernel
  truncated := by
    intro e p hp hne
    have hother : ∀ other : Sample, p = other.text ∨ p = other.text ++ "\n" → False := by
      rintro other (rfl | rfl)
      · revert hp hne
        cases e <;> cases other <;> decide +kernel
      · revert hp
        cases e <;> cases other <;> decide +kernel
    refine List.find?_eq_none.mpr fun other _ hfound => ?_
    exact hother other (of_decide_eq_true hfound)

/-- A read that finds the first event half written, and one that sees all. -/
def cutSteps : List (FeedStep Sample) :=
  [.append .task, .poll "\x7b\"kind\": \"ta", .append .stats,
    .poll (eventsText sampleJson [.task, .stats])]

theorem events_delivered_once_cut :
    ∃ s, execute (feedStep sampleJson) (Feed.start 0) cutSteps = some s ∧
      s.stream.sent = ((numbered s.written).take s.stream.index).drop 0 ∧
        ∀ snapshot t, feedStep sampleJson s (.poll snapshot) = some t →
          ∀ m ≤ s.written.length,
            (eventsText sampleJson (s.written.take m)).toList <+: snapshot.toList →
              ((numbered s.written).take m).drop 0 <+: t.stream.sent := by
  have hruns : (execute (feedStep sampleJson) (Feed.start 0) cutSteps).isSome = true := by
    decide +kernel
  obtain ⟨s, hs⟩ := Option.isSome_iff_exists.mp hruns
  exact ⟨s, hs, events_delivered_once sampleJson_faithful hs⟩

end SeapathWebui.Runs
