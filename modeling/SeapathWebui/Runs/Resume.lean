/-
  Runs/Resume.lean --- the identifiers of events as resume tokens.

  Source: `events` of app/runs/store.py, `stream` of app/api/v1/runs.py.

  A client that reconnects asks for the events after the last one it has.  The reader
  counts lines and the stream counts events, so a line that gives no event puts the two
  apart for all that follows it.  `resumable_iff` is over any content of the file, and any
  JSON library: only whether a line gives an event matters.
-/
import SeapathWebui.Runs.EventStream

set_option autoImplicit false

namespace SeapathWebui.Runs

open SeapathWebui.Foundation SeapathWebui.Foundation.Text

/-! ## Lists of which some elements count -/

section Counting

variable {α β : Type*} {f : α → Option β}

/-- No element that counts follows one that does not. -/
def CountsFirst (f : α → Option β) (l : List α) : Prop :=
  l.Pairwise fun earlier later => f later ≠ none → f earlier ≠ none

theorem countsFirst_cons_some {a : α} {b : β} {l : List α} (h : f a = some b) :
    CountsFirst f (a :: l) ↔ CountsFirst f l := by
  unfold CountsFirst
  rw [List.pairwise_cons]
  exact and_iff_right fun _ _ _ => by simp [h]

/-- After the first that does not count, none does. -/
theorem countsFirst_cons_none {a : α} {l : List α} (h : f a = none) :
    CountsFirst f (a :: l) ↔ l.filterMap f = [] := by
  unfold CountsFirst
  rw [List.pairwise_cons, List.filterMap_eq_nil_iff]
  constructor
  · intro hfirst c hc
    exact of_not_not fun hne => hfirst.1 c hc hne h
  · intro hnone
    have hlater : ∀ c ∈ l, ¬ f c ≠ none := fun c hc hne => hne (hnone c hc)
    exact ⟨fun c hc hne => absurd hne (hlater c hc),
      List.pairwise_of_forall_mem_list fun _ _ c hc hne => absurd hne (hlater c hc)⟩

/-- Dropping elements drops at most as many of those that count. -/
theorem length_filterMap_le_drop (f : α → Option β) (l : List α) (k : Nat) :
    (l.filterMap f).length ≤ k + ((l.drop k).filterMap f).length := by
  have hsplit : (l.filterMap f).length =
      ((l.take k).filterMap f).length + ((l.drop k).filterMap f).length := by
    rw [← List.length_append, ← List.filterMap_append, List.take_append_drop]
  have hle := (List.length_filterMap_le f (l.take k)).trans (List.length_take_le k l)
  omega

/-- As many elements are dropped as count, and none that counts is left, exactly if they
come first. -/
theorem drop_counted_eq_nil_iff (l : List α) :
    (l.drop (l.filterMap f).length).filterMap f = [] ↔ CountsFirst f l := by
  induction l with
  | nil => exact iff_of_true rfl .nil
  | cons a rest ih =>
      cases ha : f a with
      | some b =>
          rw [List.filterMap_cons_some ha, List.length_cons, List.drop_succ_cons, ih,
            countsFirst_cons_some ha]
      | none =>
          rw [List.filterMap_cons_none ha, countsFirst_cons_none ha]
          cases hcount : (rest.filterMap f).length with
          | zero => simp [List.filterMap_cons_none ha]
          | succ m =>
              -- one of them is dropped for `a`, which does not count
              rw [List.drop_succ_cons]
              have hleft := length_filterMap_le_drop f rest m
              constructor
              · intro hnil
                rw [hnil, hcount] at hleft
                simp at hleft
              · intro hnil
                rw [hnil] at hcount
                cases hcount

/-- If they come first, dropping elements drops as many of those that count. -/
theorem filterMap_drop_of_countsFirst {l : List α} (h : CountsFirst f l) :
    ∀ k, (l.drop k).filterMap f = (l.filterMap f).drop k := by
  induction l with
  | nil => simp
  | cons a rest ih =>
      intro k
      cases k with
      | zero => rfl
      | succ k =>
          rw [List.drop_succ_cons]
          cases ha : f a with
          | some b =>
              rw [List.filterMap_cons_some ha, List.drop_succ_cons]
              exact ih ((countsFirst_cons_some ha).mp h) k
          | none =>
              have hnil := (countsFirst_cons_none ha).mp h
              have hrest : (rest.drop k).filterMap f = [] :=
                List.filterMap_eq_nil_iff.mpr fun c hc =>
                  List.filterMap_eq_nil_iff.mp hnil c (List.drop_subset k rest hc)
              rw [List.filterMap_cons_none ha, hnil, hrest, List.drop_nil]

end Counting

/-! ## Requests over one content of the file -/

variable {E : Type*}

/-- The reader gives the events of the lines from the offset on. -/
theorem events_eq (json : Json E) (text : String) (offset : Nat) :
    RunStore.events json (some text) offset =
      ((fileLines text).drop offset).filterMap (lineEvent json) :=
  filterMap_zipIdx json offset (fileLines text) 0

/-- A request for the events from an offset on, after its first poll. -/
def request (json : Json E) (text : String) (offset : Nat) : Stream E :=
  Stream.poll json (some text) { index := offset }

/-- The identifiers of a content are resume tokens from an offset on: a request that
resumes after an event that was sent is given what was sent after that event, and the next
poll of the same request sends nothing. -/
def Resumable (json : Json E) (text : String) (offset : Nat) : Prop :=
  (∀ before id data after, (request json text offset).sent = before ++ .event id data :: after →
    (request json text (id + 1)).sent = after) ∧
  ((request json text offset).poll json (some text)).sent = (request json text offset).sent

theorem request_eq (json : Json E) (text : String) (offset : Nat) :
    request json text offset =
      ⟨offset + (RunStore.events json (some text) offset).length,
        numberedFrom offset (RunStore.events json (some text) offset)⟩ := by
  rw [request, Stream.poll, foldl_send, List.nil_append]

/-- The identifier of the event at a place of what was sent, and what was sent after it. -/
theorem id_of_numberedFrom {before after : List (Message E)} {id : Nat} {data : E} :
    ∀ {first : Nat} {es : List E}, numberedFrom first es = before ++ .event id data :: after →
      id = first + before.length ∧
        after = numberedFrom (id + 1) (es.drop (before.length + 1)) := by
  induction before with
  | nil =>
      intro first es h
      cases es with
      | nil => cases h
      | cons e rest =>
          rw [numberedFrom_cons] at h
          obtain ⟨hhead, hafter⟩ := List.cons_eq_cons.mp h
          obtain ⟨rfl, -⟩ := Message.event.inj hhead
          exact ⟨rfl, hafter.symm⟩
  | cons m more ih =>
      intro first es h
      cases es with
      | nil => cases h
      | cons e rest =>
          rw [numberedFrom_cons] at h
          obtain ⟨hid, hafter⟩ := ih (List.cons_eq_cons.mp h).2
          exact ⟨by rw [hid, List.length_cons]; omega, hafter⟩

/-- **The identifiers are resume tokens exactly if no line that gives an event follows, from
the offset on, one that gives none.** -/
theorem resumable_iff (json : Json E) (text : String) (offset : Nat) :
    Resumable json text offset ↔
      CountsFirst (lineEvent json) ((fileLines text).drop offset) := by
  have hnext : ((request json text offset).poll json (some text)).sent =
      (request json text offset).sent ↔
        CountsFirst (lineEvent json) ((fileLines text).drop offset) := by
    rw [← drop_counted_eq_nil_iff, List.drop_drop, ← events_eq, ← events_eq, request_eq,
      Stream.poll, foldl_send, List.append_right_eq_self, ← List.length_eq_zero_iff,
      length_numberedFrom, List.length_eq_zero_iff]
  constructor
  · exact fun h => hnext.mp h.2
  · intro hfirst
    refine ⟨fun before id data after hsent => ?_, hnext.mpr hfirst⟩
    rw [request_eq] at hsent
    obtain ⟨hid, hafter⟩ := id_of_numberedFrom hsent
    -- the lines the new request skips are those of the events sent so far
    have hevents : RunStore.events json (some text) (id + 1) =
        (RunStore.events json (some text) offset).drop (before.length + 1) := by
      rw [events_eq, events_eq, ← filterMap_drop_of_countsFirst hfirst, List.drop_drop, hid,
        Nat.add_assoc]
    rw [request_eq, hevents, hafter]

/-- A blank line, and an event after it. -/
def blankFirst : String := "\n" ++ Sample.text .task ++ "\n"

/-- The event is sent under the identifier 0, and sent again to a client that has it. -/
theorem blank_line_repeats_event : ¬ Resumable sampleJson blankFirst 0 := by
  have hsent : (request sampleJson blankFirst 0).sent = [.event 0 .task] := by decide +kernel
  have hagain : (request sampleJson blankFirst 1).sent = [.event 1 .task] := by decide +kernel
  intro h
  have hnone := h.1 [] 0 .task [] hsent
  rw [hagain] at hnone
  cases hnone

end SeapathWebui.Runs
