/-
  Runs/Wire.lean --- the events of a run, as a text that a browser reads.

  Source: `stream` and `_final` of app/api/v1/runs.py, `onmessage` and the `state` listener of
  `show` in app/ui/static/runs.js.

  The generator yields a block of text an event.  What arrives of it is cut where the network
  cuts it, and the connection may break anywhere.  A client that counts what it has seen asks
  again for the rest, and however often that happens it gets every event once, in order
  (`followed_once`).

  A JSON text has no line break in it, and the browser parses what `json.dumps` wrote.
-/
import SeapathWebui.Foundation.Decimal
import SeapathWebui.Foundation.EventSource
import SeapathWebui.Runs.Resume

set_option autoImplicit false

namespace SeapathWebui.Runs

open SeapathWebui.Foundation SeapathWebui.Foundation.Text SeapathWebui.Foundation.EventSource

variable {E : Type*}

/-! ## What the generator yields -/

/-- `json.dumps` of what is sent, and `JSON.parse`; `none` is the `SyntaxError`. -/
structure Encoding (E : Type*) where
  json : Json E
  dumpsFinal : Final → String
  parse : String → Option E
  parseFinal : String → Option Final

/-- The texts of events have no line break, and are parsed as what was written. -/
structure Encoding.Faithful (enc : Encoding E) : Prop where
  json : enc.json.Faithful
  parse_dumps : ∀ e, enc.parse (enc.json.dumps e) = some e

/-- And so is the text of a verdict. -/
structure Encoding.Says (enc : Encoding E) (verdict : Final) : Prop where
  unbroken : Unbroken (enc.dumpsFinal verdict).toList
  parse_dumpsFinal : enc.parseFinal (enc.dumpsFinal verdict) = some verdict

/-- What `stream` yields for a message. -/
def Message.text (enc : Encoding E) : Message E → String
  | .event id data => "id: " ++ toString (id : Int) ++ "\ndata: " ++ enc.json.dumps data ++ "\n\n"
  | .state verdict => "event: state\n" ++ "data: " ++ enc.dumpsFinal verdict ++ "\n\n"

/-- The same, by fields. -/
def Message.block (enc : Encoding E) : Message E → List (String × String)
  | .event id data => [("id", toString (id : Int)), ("data", enc.json.dumps data)]
  | .state verdict => [("event", "state"), ("data", enc.dumpsFinal verdict)]

/-- The body of the response, when these messages have been sent. -/
def bodyText (enc : Encoding E) (sent : List (Message E)) : List Char :=
  sent.flatMap fun m => (m.text enc).toList

theorem toList_text (enc : Encoding E) (m : Message E) :
    (m.text enc).toList = blockText (m.block enc) := by
  cases m <;> simp [Message.text, Message.block, blockText, fieldText]

theorem bodyText_eq (enc : Encoding E) (sent : List (Message E)) :
    bodyText enc sent = streamText (sent.map (Message.block enc)) := by
  simp only [bodyText, streamText, List.flatMap_map, toList_text]

theorem bodyText_append (enc : Encoding E) (sent more : List (Message E)) :
    bodyText enc (sent ++ more) = bodyText enc sent ++ bodyText enc more :=
  List.flatMap_append

theorem digits_unbroken (id : Nat) : Unbroken (toString (id : Int)).toList := by
  have hdigits := (isDecimal_toString id).2
  exact ⟨fun h => absurd (hdigits _ h) (by decide), fun h => absurd (hdigits _ h) (by decide)⟩

/-- A message has lines that hold its fields. -/
theorem legal_of_mem_block {enc : Encoding E} (henc : enc.Faithful) {m : Message E}
    (hm : ∀ verdict, m = .state verdict → enc.Says verdict) {f : String × String}
    (hf : f ∈ m.block enc) : Legal f := by
  have hfield : ∀ name value, name ∈ ["id", "data", "event"] → Unbroken value.toList →
      Legal (name, value) := by
    intro name value hname hvalue
    have hcases : name ≠ "" ∧ ':' ∉ name.toList ∧ Unbroken (name.toList ++ ": ".toList) := by
      revert hname name
      unfold Unbroken
      decide +kernel
    exact ⟨hcases.1, hcases.2.1, unbroken_append.mpr ⟨hcases.2.2, hvalue⟩⟩
  cases m with
  | event id data =>
      rcases List.mem_pair.mp hf with rfl | rfl
      · exact hfield _ _ (by simp) (digits_unbroken id)
      · exact hfield _ _ (by simp) (henc.json.noBreak data)
  | state verdict =>
      rcases List.mem_pair.mp hf with rfl | rfl
      · exact hfield _ _ (by simp) (by unfold Unbroken; decide +kernel)
      · exact hfield _ _ (by simp) (hm verdict rfl).unbroken

/-! ## What is heard of it -/

/-- What the browser dispatches, from the identifier it heard last on. -/
def heardFrom (enc : Encoding E) (lastId : String) : List (Message E) → List Heard
  | [] => []
  | .event id data :: rest =>
      ⟨"message", enc.json.dumps data, toString (id : Int)⟩ ::
        heardFrom enc (toString (id : Int)) rest
  | .state verdict :: rest =>
      ⟨"state", enc.dumpsFinal verdict, lastId⟩ :: heardFrom enc lastId rest

/-- Nothing of a block that has not ended. -/
structure Clear (r : Reader) : Prop where
  data : r.data = []
  name : r.name = []

theorem take_event (enc : Encoding E) {r : Reader} (h : Clear r) (id : Nat) (data : E) :
    r.take (Message.block enc (.event id data)) = { r with
      lastId := (toString (id : Int)).toList
      heard := r.heard ++ [⟨"message", enc.json.dumps data, toString (id : Int)⟩] } := by
  obtain ⟨line, afterReturn, data', name, lastId, heard⟩ := r
  obtain ⟨rfl, rfl⟩ := h
  have hnull : '\x00' ∉ (toString (id : Int)).toList :=
    fun hmem => absurd ((isDecimal_toString id).2 _ hmem) (by decide)
  have hid : Reader.field ⟨line, afterReturn, [], [], lastId, heard⟩ "id".toList
      (toString (id : Int)).toList =
        ⟨line, afterReturn, [], [], (toString (id : Int)).toList, heard⟩ := by
    rw [Reader.field, if_neg (by decide), if_neg (by decide), if_pos rfl, if_neg hnull]
  have hdata : ∀ lastId, Reader.field ⟨line, afterReturn, [], [], lastId, heard⟩ "data".toList
      (enc.json.dumps data).toList =
        ⟨line, afterReturn, (enc.json.dumps data).toList ++ ['\n'], [], lastId, heard⟩ := by
    intro lastId
    rw [Reader.field, if_neg (by decide), if_pos rfl]
    rfl
  simp only [Reader.take, Message.block, List.foldl_cons, List.foldl_nil, hid, hdata]
  simp [Reader.dispatch]

theorem take_state (enc : Encoding E) {r : Reader} (h : Clear r) (verdict : Final) :
    r.take (Message.block enc (.state verdict)) = { r with
      heard := r.heard ++ [⟨"state", enc.dumpsFinal verdict, String.ofList r.lastId⟩] } := by
  obtain ⟨line, afterReturn, data', name, lastId, heard⟩ := r
  obtain ⟨rfl, rfl⟩ := h
  have hname : Reader.field ⟨line, afterReturn, [], [], lastId, heard⟩ "event".toList
      "state".toList = ⟨line, afterReturn, [], "state".toList, lastId, heard⟩ := by
    rw [Reader.field, if_pos rfl]
  have hdata : Reader.field ⟨line, afterReturn, [], "state".toList, lastId, heard⟩ "data".toList
      (enc.dumpsFinal verdict).toList =
        ⟨line, afterReturn, (enc.dumpsFinal verdict).toList ++ ['\n'], "state".toList, lastId,
          heard⟩ := by
    rw [Reader.field, if_neg (by decide), if_pos rfl]
    rfl
  simp only [Reader.take, Message.block, List.foldl_cons, List.foldl_nil, hname, hdata]
  simp [Reader.dispatch]

/-- Messages that arrive whole are heard. -/
theorem heard_foldl_take (enc : Encoding E) (sent : List (Message E)) :
    ∀ {r : Reader}, Clear r → ((sent.map (Message.block enc)).foldl Reader.take r).heard =
      r.heard ++ heardFrom enc (String.ofList r.lastId) sent := by
  induction sent with
  | nil =>
      intro r _
      rw [List.map_nil, List.foldl_nil, heardFrom, List.append_nil]
  | cons m rest ih =>
      intro r h
      rw [List.map_cons, List.foldl_cons]
      cases m with
      | event id data =>
          have hrest := ih (r := { r with
            lastId := (toString (id : Int)).toList
            heard := r.heard ++ [⟨"message", enc.json.dumps data, toString (id : Int)⟩] })
            ⟨h.data, h.name⟩
          rw [take_event enc h, hrest, heardFrom, String.ofList_toList, List.append_assoc,
            List.singleton_append]
      | state verdict =>
          have hrest := ih (r := { r with
            heard := r.heard ++ [⟨"state", enc.dumpsFinal verdict, String.ofList r.lastId⟩] })
            ⟨h.data, h.name⟩
          rw [take_state enc h, hrest, heardFrom, List.append_assoc, List.singleton_append]

/-- However much has arrived, the messages that arrived whole are heard. -/
theorem heard_of_isPrefix_bodyText {enc : Encoding E} (henc : enc.Faithful)
    {sent : List (Message E)} (hsent : ∀ verdict, .state verdict ∈ sent → enc.Says verdict)
    {text : List Char} (h : text <+: bodyText enc sent) :
    ∃ k ≤ sent.length, (Reader.read {} text).heard = heardFrom enc "" (sent.take k) ∧
      ∀ m ≤ sent.length, bodyText enc (sent.take m) <+: text → m ≤ k := by
  have hlegal : ∀ block ∈ sent.map (Message.block enc), ∀ f ∈ block, Legal f := by
    intro block hblock f hf
    obtain ⟨m, hm, rfl⟩ := List.mem_map.mp hblock
    exact legal_of_mem_block henc (fun verdict hstate => hsent verdict (hstate ▸ hm)) hf
  rw [bodyText_eq] at h
  obtain ⟨k, hk, hheard, hmost⟩ := heard_of_isPrefix hlegal ⟨rfl, rfl⟩ h (r := {})
  rw [List.length_map] at hk hmost
  refine ⟨k, hk, ?_, fun m hm hinitial => hmost m hm ?_⟩
  · rw [hheard, ← List.map_take, heard_foldl_take enc _ ⟨rfl, rfl⟩]
    rfl
  · rwa [bodyText_eq, List.map_take] at hinitial

/-! ## One connection -/

/-- The event of a message. -/
def Message.data? : Message E → Option E
  | .event _ data => some data
  | .state _ => none

/-- The events among the messages. -/
def dataOf (sent : List (Message E)) : List E := sent.filterMap Message.data?

theorem dataOf_numberedFrom (first : Nat) (es : List E) : dataOf (numberedFrom first es) = es := by
  induction es generalizing first with
  | nil => rfl
  | cons e rest ih =>
      rw [numberedFrom_cons, dataOf, List.filterMap_cons_some (by rfl), ← dataOf, ih]

/-- The events that the browser parses, of what it heard. -/
def payloads (enc : Encoding E) (heard : List Heard) : List E :=
  heard.filterMap fun h => if h.name = "message" then enc.parse h.data else none

theorem payloads_cons (enc : Encoding E) (x : Heard) (rest : List Heard) :
    payloads enc (x :: rest) =
      (if x.name = "message" then enc.parse x.data else none).toList ++ payloads enc rest := by
  rw [payloads, List.filterMap_cons]
  split
  · rename_i hnone
    rw [hnone]
    rfl
  · rename_i e hsome
    rw [hsome]
    rfl

theorem payloads_heardFrom {enc : Encoding E} (henc : enc.Faithful) (sent : List (Message E)) :
    ∀ lastId, payloads enc (heardFrom enc lastId sent) = dataOf sent := by
  induction sent with
  | nil => exact fun _ => rfl
  | cons m rest ih =>
      intro lastId
      cases m with
      | event id data =>
          rw [heardFrom, payloads_cons, if_pos rfl, henc.parse_dumps, ih]
          rfl
      | state verdict =>
          rw [heardFrom, payloads_cons, if_neg (by simp), ih]
          rfl

/-- Every message but the verdict is heard as one that `onmessage` gets. -/
theorem countP_heardFrom (enc : Encoding E) (sent : List (Message E)) :
    ∀ lastId, (heardFrom enc lastId sent).countP (·.name = "message") = (dataOf sent).length := by
  induction sent with
  | nil => exact fun _ => rfl
  | cons m rest ih =>
      intro lastId
      cases m with
      | event id data =>
          rw [heardFrom, List.countP_cons_of_pos (by simp), ih]
          rfl
      | state verdict =>
          rw [heardFrom, List.countP_cons_of_neg (by simp), ih]
          rfl

/-- What is heard last. -/
theorem getLast?_heardFrom (enc : Encoding E) (sent : List (Message E)) (m : Message E)
    (lastId : String) : ∃ id, heardFrom enc lastId (sent ++ [m]) =
      heardFrom enc lastId sent ++ heardFrom enc id [m] := by
  induction sent generalizing lastId with
  | nil => exact ⟨lastId, rfl⟩
  | cons first rest ih =>
      cases first with
      | event id data =>
          obtain ⟨last, hlast⟩ := ih (toString (id : Int))
          exact ⟨last, by rw [List.cons_append, heardFrom, hlast, heardFrom, List.cons_append]⟩
      | state verdict =>
          obtain ⟨last, hlast⟩ := ih lastId
          exact ⟨last, by rw [List.cons_append, heardFrom, hlast, heardFrom, List.cons_append]⟩

/-- A response that is being sent, and as much of its body as has arrived. -/
structure Connection (E : Type*) where
  offset : Nat
  stream : Stream E := { index := offset }
  verdict : Option Final := none
  received : List Char := []

/-- A request for the events from `offset` on. -/
def Connection.start (offset : Nat) : Connection E := { offset := offset }

/-- Everything that was sent. -/
def Connection.sent (c : Connection E) : List (Message E) :=
  c.stream.sent ++ (c.verdict.map .state).toList

/-- Everything that was heard. -/
def Connection.heard (c : Connection E) : List Heard := (Reader.read {} c.received).heard

/-- The loop reads the file. -/
def Connection.poll (enc : Encoding E) (file : String) (c : Connection E) : Connection E :=
  { c with stream := c.stream.poll enc.json (some file) }

/-- The loop finds the run finished, and returns. -/
def Connection.judge (verdict : Final) (c : Connection E) : Connection E :=
  { c with verdict := some verdict }

/-- More of the body arrives. -/
def Connection.deliver (more : List Char) (c : Connection E) : Connection E :=
  { c with received := c.received ++ more }

/-- The connection carries the events from its offset on. -/
structure Connection.Carries (enc : Encoding E) (written : List E) (c : Connection E) : Prop where
  sent : c.stream.sent = ((numbered written).take c.stream.index).drop c.offset
  offset_le : c.offset ≤ c.stream.index
  index_le : c.stream.index ≤ written.length
  verdict : ∀ verdict, c.verdict = some verdict → enc.Says verdict
  received : c.received <+: bodyText enc c.sent

section Carries

variable {enc : Encoding E} {written : List E} {c : Connection E}

theorem carries_start {offset : Nat} (h : offset ≤ written.length) :
    (Connection.start offset : Connection E).Carries enc written where
  sent := by simp [Connection.start, numbered]
  offset_le := le_rfl
  index_le := h
  verdict := fun _ hv => nomatch hv
  received := List.nil_prefix

theorem Connection.Carries.append (h : c.Carries enc written) (more : List E) :
    c.Carries enc (written ++ more) where
  sent := by rw [numbered_append (.inl h.index_le), h.sent]
  offset_le := h.offset_le
  index_le := by
    rw [List.length_append]
    exact Nat.le_add_right_of_le h.index_le
  verdict := h.verdict
  received := h.received

/-- What has arrived is still a part of the body when more is sent. -/
theorem bodyText_mono {sent more : List (Message E)} (h : sent <+: more) :
    bodyText enc sent <+: bodyText enc more := by
  obtain ⟨rest, rfl⟩ := h
  rw [bodyText_append]
  exact List.prefix_append _ _

theorem Connection.Carries.poll (henc : enc.Faithful) (h : c.Carries enc written)
    (hopen : c.verdict = none) {snapshot : String}
    (hinitial : snapshot.toList <+: (eventsText enc.json written).toList) :
    (c.poll enc snapshot).Carries enc written := by
  obtain ⟨k, hk, hevents, -⟩ := events_of_isPrefix henc.json hinitial
  have hpoll := poll_eq (hevents c.stream.index) hk h.sent h.offset_le
  have hgrown : c.sent <+: (c.poll enc snapshot).sent := by
    rw [Connection.sent, Connection.sent, Connection.poll, hpoll, hopen, h.sent]
    simp only [Option.map_none, Option.toList_none, List.append_nil]
    exact List.IsPrefix.drop (List.take_prefix_take_left (le_max_left _ _)) _
  refine ⟨?_, ?_, ?_, h.verdict, h.received.trans (bodyText_mono hgrown)⟩
  · rw [Connection.poll, hpoll]
  · rw [Connection.poll, hpoll]
    exact le_max_of_le_left h.offset_le
  · rw [Connection.poll, hpoll]
    exact max_le h.index_le hk

theorem Connection.Carries.judge (h : c.Carries enc written) (hopen : c.verdict = none)
    {verdict : Final} (hwords : enc.Says verdict) : (c.judge verdict).Carries enc written where
  sent := h.sent
  offset_le := h.offset_le
  index_le := h.index_le
  verdict := fun _ hv => Option.some.inj hv ▸ hwords
  received := by
    refine h.received.trans (bodyText_mono ?_)
    rw [Connection.sent, hopen]
    simp [Connection.sent, Connection.judge]

theorem Connection.Carries.deliver (h : c.Carries enc written) {more : List Char}
    (hmore : c.received ++ more <+: bodyText enc c.sent) :
    (c.deliver more).Carries enc written where
  sent := h.sent
  offset_le := h.offset_le
  index_le := h.index_le
  verdict := h.verdict
  received := hmore

/-- The events that were sent. -/
theorem Connection.Carries.dataOf_sent (h : c.Carries enc written) :
    dataOf c.sent = (written.take c.stream.index).drop c.offset := by
  have hverdict : dataOf ((c.verdict.map Message.state).toList : List (Message E)) = [] := by
    cases c.verdict <;> rfl
  rw [Connection.sent, dataOf, List.filterMap_append, ← dataOf, ← dataOf, hverdict,
    List.append_nil, h.sent, numbered_take, numbered_drop, dataOf_numberedFrom]

/-- Only a state message is heard as one. -/
theorem exists_state_of_heard {x : Heard} {sent : List (Message E)} :
    ∀ {lastId : String}, x ∈ heardFrom enc lastId sent → x.name = "state" →
      ∃ verdict, .state verdict ∈ sent ∧ x.data = enc.dumpsFinal verdict := by
  induction sent with
  | nil => exact fun hx => nomatch hx
  | cons m rest ih =>
      intro lastId hx hname
      cases m with
      | event id data =>
          rw [heardFrom, List.mem_cons] at hx
          rcases hx with rfl | hx
          · exact absurd hname (by simp)
          · obtain ⟨verdict, hmem, hdata⟩ := ih hx hname
            exact ⟨verdict, List.mem_cons_of_mem _ hmem, hdata⟩
      | state verdict =>
          rw [heardFrom, List.mem_cons] at hx
          rcases hx with rfl | hx
          · exact ⟨verdict, List.mem_cons_self, rfl⟩
          · obtain ⟨other, hmem, hdata⟩ := ih hx hname
            exact ⟨other, List.mem_cons_of_mem _ hmem, hdata⟩

theorem state_not_mem_numberedFrom (first : Nat) (es : List E) (verdict : Final) :
    .state verdict ∉ numberedFrom first es := by
  intro h
  obtain ⟨p, -, hp⟩ := List.mem_map.mp h
  cases hp

/-- The verdict is what there is after the events. -/
theorem Connection.Carries.verdict_of_mem_sent (h : c.Carries enc written) {verdict : Final}
    (hmem : .state verdict ∈ c.sent) : c.verdict = some verdict := by
  rcases List.mem_append.mp hmem with hbefore | hlast
  · rw [h.sent, numbered_take, numbered_drop] at hbefore
    exact absurd hbefore (state_not_mem_numberedFrom _ _ _)
  · obtain ⟨other, hother, heq⟩ := Option.map_eq_some_iff.mp (Option.mem_toList.mp hlast)
    rw [hother, Message.state.inj heq]

/-- What has been heard is what was sent, up to some message. -/
theorem Connection.Carries.heard (henc : enc.Faithful) (h : c.Carries enc written) :
    ∃ k ≤ c.sent.length, c.heard = heardFrom enc "" (c.sent.take k) ∧
      ∀ m ≤ c.sent.length, bodyText enc (c.sent.take m) <+: c.received → m ≤ k :=
  heard_of_isPrefix_bodyText henc (fun _ hmem => h.verdict _ (h.verdict_of_mem_sent hmem))
    h.received

/-- The events that have been heard are the first ones from the offset on. -/
theorem Connection.Carries.payloads (henc : enc.Faithful) (h : c.Carries enc written) :
    payloads enc c.heard <+: (written.take c.stream.index).drop c.offset := by
  obtain ⟨k, -, hheard, -⟩ := h.heard henc
  rw [hheard, payloads_heardFrom henc, ← h.dataOf_sent]
  exact (List.take_prefix k c.sent).filterMap _

/-- All of them, when everything has arrived. -/
theorem Connection.Carries.payloads_eq (henc : enc.Faithful) (h : c.Carries enc written)
    (hall : c.received = bodyText enc c.sent) :
    Runs.payloads enc c.heard = (written.take c.stream.index).drop c.offset := by
  obtain ⟨k, hk, hheard, hmost⟩ := h.heard henc
  have hwhole : c.sent.length ≤ k := by
    refine hmost _ le_rfl ?_
    rw [List.take_length, hall]
  rw [hheard, payloads_heardFrom henc, List.take_of_length_le hwhole, h.dataOf_sent]

/-- Once the verdict is heard, so is everything that was sent. -/
theorem Connection.Carries.verdict_heard (henc : enc.Faithful) (h : c.Carries enc written)
    {x : Heard} (hx : x ∈ c.heard) (hname : x.name = "state") :
    ∃ verdict, c.verdict = some verdict ∧ enc.parseFinal x.data = some verdict ∧
      Runs.payloads enc c.heard = (written.take c.stream.index).drop c.offset := by
  obtain ⟨k, hk, hheard, -⟩ := h.heard henc
  rw [hheard] at hx ⊢
  obtain ⟨verdict, hmem, hdata⟩ := exists_state_of_heard hx hname
  have hverdict := h.verdict_of_mem_sent (List.mem_of_mem_take hmem)
  have hall : c.sent.length ≤ k := by
    by_contra hlt
    -- what comes before the last message is events
    have hshort : k ≤ c.stream.sent.length := by
      rw [Connection.sent, hverdict, List.length_append] at hlt
      exact Nat.le_of_lt_succ (Nat.lt_of_not_le hlt)
    rw [Connection.sent, List.take_append_of_le_length hshort, h.sent, numbered_take,
      numbered_drop] at hmem
    exact state_not_mem_numberedFrom _ _ _ (List.mem_of_mem_take hmem)
  refine ⟨verdict, hverdict, by rw [hdata, (h.verdict verdict hverdict).parse_dumpsFinal], ?_⟩
  rw [payloads_heardFrom henc, List.take_of_length_le hall, h.dataOf_sent]

/-- The identifier that was heard last is that of the last event, if there is no verdict
after it. -/
theorem Connection.Carries.lastEventId (henc : enc.Faithful) (h : c.Carries enc written)
    {x : Heard} (hlast : c.heard.getLast? = some x) (hname : x.name = "message") :
    x.lastEventId = toString
      ((c.offset + c.heard.countP (·.name = "message") - 1 : Nat) : Int) := by
  obtain ⟨k, hk, hheard, -⟩ := h.heard henc
  rw [hheard] at hlast ⊢
  rw [countP_heardFrom]
  rcases List.eq_nil_or_concat (c.sent.take k) with hnil | ⟨before, m, hsplit⟩
  · rw [hnil] at hlast
    cases hlast
  · rw [List.concat_eq_append] at hsplit
    obtain ⟨id, hconcat⟩ := getLast?_heardFrom enc before m ""
    rw [hsplit, hconcat] at hlast
    cases m with
    | state verdict =>
        rw [heardFrom, heardFrom, List.getLast?_concat] at hlast
        obtain rfl := Option.some.inj hlast
        exact absurd hname (by simp)
    | event index data =>
        rw [heardFrom, heardFrom, List.getLast?_concat] at hlast
        obtain rfl := Option.some.inj hlast
        -- the event is not after the verdict
        have hshort : k ≤ c.stream.sent.length := by
          by_contra hlong
          cases hverdict : c.verdict with
          | none =>
              rw [Connection.sent, hverdict] at hk
              simp at hk
              omega
          | some verdict =>
              have hall : c.sent.take k = c.sent := List.take_of_length_le (by
                rw [Connection.sent, hverdict, List.length_append]
                exact Nat.lt_of_not_le hlong)
              rw [hall, Connection.sent, hverdict] at hsplit
              have hends := List.append_inj_right' hsplit rfl
              cases hends
        rw [Connection.sent, List.take_append_of_le_length hshort] at hsplit
        have hnumbered : c.stream.sent =
            numberedFrom c.offset ((written.take c.stream.index).drop c.offset) := by
          rw [h.sent, numbered_take, numbered_drop]
        have hevents : numberedFrom c.offset ((written.take c.stream.index).drop c.offset) =
            before ++ .event index data :: c.stream.sent.drop k := by
          rw [← hnumbered]
          conv_lhs => rw [← List.take_append_drop k c.stream.sent, hsplit]
          rw [List.append_assoc, List.singleton_append]
        have hall : (dataOf (before ++ [.event index data])).length = before.length + 1 := by
          rw [dataOf, List.filterMap_length_eq_length.mpr, List.length_append,
            List.length_singleton]
          intro m hm
          rw [← hsplit, hnumbered] at hm
          obtain ⟨p, -, rfl⟩ := List.mem_map.mp (List.mem_of_mem_take hm)
          rfl
        rw [(id_of_numberedFrom hevents).1, Connection.sent,
          List.take_append_of_le_length hshort, hsplit, hall]
        rfl

end Carries

/-! ## A client that asks again -/

/-- The events of the run, and a client with the connection it has open. -/
structure Follower (E : Type*) where
  written : List E := []
  connection : Connection E := .start 0
  seen : Nat := 0
  got : List E := []
  ended : Option Final := none

/-- The listeners: `onmessage`, and that of `state`. -/
def Follower.handle (enc : Encoding E) (s : Follower E) (x : Heard) : Follower E :=
  if x.name = "message" then
    { s with seen := s.seen + 1, got := s.got ++ (enc.parse x.data).toList }
  else if x.name = "state" then { s with ended := enc.parseFinal x.data }
  else s

/-- More of the body arrives, and the listeners are called for what is heard of it. -/
def Follower.deliver (enc : Encoding E) (s : Follower E) (more : List Char) : Follower E :=
  let connection := s.connection.deliver more
  (connection.heard.drop s.connection.heard.length).foldl (Follower.handle enc)
    { s with connection := connection }

/-- A step of the run, of the generator, of the network, or of the client. -/
inductive FollowerStep (E : Type*)
  /-- `append_event` -/
  | append (e : E)
  /-- the file is read, and this much of it is seen -/
  | poll (snapshot : String)
  /-- the run is found finished -/
  | judge (verdict : Final)
  | deliver (more : List Char)
  /-- the connection breaks, and the client asks for what it has not seen -/
  | reconnect

/-- One step. -/
def followerStep (enc : Encoding E) (s : Follower E) : FollowerStep E → Option (Follower E)
  | .append e => some { s with written := s.written ++ [e] }
  | .poll snapshot =>
      if s.connection.verdict = none ∧
          snapshot.toList <+: (eventsText enc.json s.written).toList then
        some { s with connection := s.connection.poll enc snapshot }
      else none
  | .judge verdict =>
      if s.connection.verdict = none then
        some { s with connection := s.connection.judge verdict }
      else none
  | .deliver more =>
      if s.ended = none ∧ s.connection.received ++ more <+: bodyText enc s.connection.sent then
        some (s.deliver enc more)
      else none
  | .reconnect =>
      if s.ended = none then some { s with connection := .start s.seen } else none

theorem followerStep_cases {enc : Encoding E} {s t : Follower E} {a : FollowerStep E}
    (h : followerStep enc s a = some t) :
    (∃ e, a = .append e ∧ t = { s with written := s.written ++ [e] }) ∨
    (∃ snapshot, a = .poll snapshot ∧ s.connection.verdict = none ∧
      snapshot.toList <+: (eventsText enc.json s.written).toList ∧
      t = { s with connection := s.connection.poll enc snapshot }) ∨
    (∃ verdict, a = .judge verdict ∧ s.connection.verdict = none ∧
      t = { s with connection := s.connection.judge verdict }) ∨
    (∃ more, a = .deliver more ∧ s.ended = none ∧
      s.connection.received ++ more <+: bodyText enc s.connection.sent ∧
      t = s.deliver enc more) ∨
    (a = .reconnect ∧ s.ended = none ∧ t = { s with connection := .start s.seen }) := by
  cases a with
  | append e => exact .inl ⟨e, rfl, (Option.some.inj h).symm⟩
  | poll snapshot =>
      obtain ⟨hguard, ht⟩ := Option.ite_none_right_eq_some.mp h
      exact .inr (.inl ⟨snapshot, rfl, hguard.1, hguard.2, (Option.some.inj ht).symm⟩)
  | judge verdict =>
      obtain ⟨hguard, ht⟩ := Option.ite_none_right_eq_some.mp h
      exact .inr (.inr (.inl ⟨verdict, rfl, hguard, (Option.some.inj ht).symm⟩))
  | deliver more =>
      obtain ⟨hguard, ht⟩ := Option.ite_none_right_eq_some.mp h
      exact .inr (.inr (.inr (.inl ⟨more, rfl, hguard.1, hguard.2, (Option.some.inj ht).symm⟩)))
  | reconnect =>
      obtain ⟨hguard, ht⟩ := Option.ite_none_right_eq_some.mp h
      exact .inr (.inr (.inr (.inr ⟨rfl, hguard, (Option.some.inj ht).symm⟩)))

/-! ## What the client gets -/

variable {enc : Encoding E}

/-- What the listeners make of what is heard. -/
theorem foldl_handle (enc : Encoding E) (heard : List Heard) :
    ∀ s : Follower E, ∃ ended, heard.foldl (Follower.handle enc) s = { s with
      seen := s.seen + heard.countP (·.name = "message")
      got := s.got ++ payloads enc heard
      ended := ended } ∧
      ∀ verdict, ended = some verdict → s.ended = some verdict ∨
        ∃ x ∈ heard, x.name = "state" ∧ enc.parseFinal x.data = some verdict := by
  induction heard with
  | nil =>
      intro s
      refine ⟨s.ended, ?_, fun verdict h => .inl h⟩
      simp [payloads]
  | cons x rest ih =>
      intro s
      obtain ⟨ended, hrest, hended⟩ := ih (s.handle enc x)
      refine ⟨ended, ?_, fun verdict hverdict => ?_⟩
      · rw [List.foldl_cons, hrest]
        by_cases hmessage : x.name = "message"
        · rw [Follower.handle, if_pos hmessage, List.countP_cons_of_pos (by simpa using hmessage),
            payloads_cons, if_pos hmessage, ← List.append_assoc, Nat.add_right_comm]
          rfl
        · rw [List.countP_cons_of_neg (by simpa using hmessage), payloads_cons, if_neg hmessage,
            Follower.handle, if_neg hmessage]
          split
          all_goals rfl
      · rcases hended verdict hverdict with hbefore | ⟨y, hy, hstate⟩
        · unfold Follower.handle at hbefore
          split at hbefore
          · exact .inl hbefore
          · split at hbefore
            · rename_i hname
              exact .inr ⟨x, List.mem_cons_self, hname, hbefore⟩
            · exact .inl hbefore
        · exact .inr ⟨y, List.mem_cons_of_mem _ hy, hstate⟩

theorem heard_deliver (c : Connection E) (more : List Char) :
    c.heard ++ (c.deliver more).heard.drop c.heard.length = (c.deliver more).heard := by
  have hinit : c.heard <+: (c.deliver more).heard := by
    rw [Connection.heard, Connection.heard, Connection.deliver, read_append]
    exact heard_isPrefix_read _ _
  obtain ⟨rest, hrest⟩ := hinit
  rw [← hrest, List.drop_left]

/-- What the client has is what it had when it asked, and what the connection gave it. -/
structure Follower.Invariant (enc : Encoding E) (s : Follower E) : Prop where
  carries : s.connection.Carries enc s.written
  got : s.got = s.written.take s.connection.offset ++ payloads enc s.connection.heard
  seen : s.seen = s.connection.offset + s.connection.heard.countP (·.name = "message")
  ended : ∀ verdict, s.ended = some verdict →
    ∃ x ∈ s.connection.heard, x.name = "state" ∧ enc.parseFinal x.data = some verdict

theorem start_followerInvariant : ({} : Follower E).Invariant enc where
  carries := carries_start le_rfl
  got := rfl
  seen := rfl
  ended := fun _ h => nomatch h

/-- As many events are heard as `onmessage` counts. -/
theorem Connection.Carries.countP_heard {written : List E} {c : Connection E} (henc : enc.Faithful)
    (h : c.Carries enc written) :
    c.heard.countP (·.name = "message") = (Runs.payloads enc c.heard).length := by
  obtain ⟨k, -, hheard, -⟩ := h.heard henc
  rw [hheard, countP_heardFrom, payloads_heardFrom henc]

/-- The client has the first events of the run, as many as it has seen. -/
theorem Follower.Invariant.got_eq (henc : enc.Faithful) {s : Follower E} (hs : s.Invariant enc) :
    s.got = s.written.take s.seen ∧ s.seen ≤ s.connection.stream.index := by
  have hinit := hs.carries.payloads henc
  have hlength := hinit.length_le
  rw [List.length_drop, List.length_take_of_le hs.carries.index_le] at hlength
  have hoffset := hs.carries.offset_le
  refine ⟨?_, by rw [hs.seen, hs.carries.countP_heard henc]; omega⟩
  rw [List.drop_take] at hinit
  have hpayloads := List.prefix_iff_eq_take.mp (hinit.trans (List.take_prefix _ _))
  rw [hs.got, hs.seen, hs.carries.countP_heard henc, List.take_add, ← hpayloads]

/-- All of them are those that were sent, when all the connection gave is heard. -/
theorem Follower.Invariant.seen_eq (henc : enc.Faithful) {s : Follower E} (hs : s.Invariant enc)
    (hall : payloads enc s.connection.heard =
      (s.written.take s.connection.stream.index).drop s.connection.offset) :
    s.seen = s.connection.stream.index := by
  have hoffset := hs.carries.offset_le
  rw [hs.seen, hs.carries.countP_heard henc, hall, List.length_drop,
    List.length_take_of_le hs.carries.index_le]
  omega

/-- Step lemma: whatever is written, sent, delivered or asked for keeps the invariant. -/
theorem followerStep_invariant (henc : enc.Faithful) {s t : Follower E} {a : FollowerStep E}
    (hs : s.Invariant enc) (hwords : ∀ verdict, a = .judge verdict → enc.Says verdict)
    (h : followerStep enc s a = some t) : t.Invariant enc := by
  rcases followerStep_cases h with ⟨e, -, rfl⟩ | ⟨snapshot, -, hopen, hinitial, rfl⟩ |
    ⟨verdict, ha, hopen, rfl⟩ | ⟨more, -, hgoing, hmore, rfl⟩ | ⟨-, hgoing, rfl⟩
  · exact
      { carries := hs.carries.append [e]
        got := by
          have hle := hs.carries.offset_le.trans hs.carries.index_le
          rw [List.take_append_of_le_length hle, hs.got]
        seen := hs.seen
        ended := hs.ended }
  · exact ⟨hs.carries.poll henc hopen hinitial, hs.got, hs.seen, hs.ended⟩
  · exact ⟨hs.carries.judge hopen (hwords verdict ha), hs.got, hs.seen, hs.ended⟩
  · have hheard := heard_deliver s.connection more
    obtain ⟨ended, hfold, hended⟩ := foldl_handle enc
      ((s.connection.deliver more).heard.drop s.connection.heard.length)
      { s with connection := s.connection.deliver more }
    rw [Follower.deliver, hfold]
    refine ⟨hs.carries.deliver hmore, ?_, ?_, fun verdict hverdict => ?_⟩
    · change s.got ++ _ = s.written.take s.connection.offset ++
        payloads enc (s.connection.deliver more).heard
      rw [hs.got, List.append_assoc, payloads, payloads, ← List.filterMap_append, hheard, payloads]
    · change s.seen + _ = s.connection.offset + (s.connection.deliver more).heard.countP _
      rw [hs.seen, ← hheard, List.countP_append, Nat.add_assoc, hheard]
    · rcases hended verdict hverdict with hbefore | ⟨x, hx, hstate⟩
      · exact absurd hbefore (by simp [hgoing])
      · exact ⟨x, List.mem_of_mem_drop hx, hstate⟩
  · obtain ⟨hgot, hle⟩ := hs.got_eq henc
    exact
      { carries := carries_start (hle.trans hs.carries.index_le)
        got := by
          change s.got = s.written.take s.seen ++ []
          rw [hgot, List.append_nil]
        seen := rfl
        ended := fun verdict hverdict => absurd hverdict (by simp [hgoing]) }

/-- **A client that asks for what it has not seen gets every event once, in order.**  Wherever
the file is read, the body is cut and the connection breaks, and however often, it has the first
events of the run, as many as it has seen, which are all that was sent when all has arrived or
the verdict is heard; and the identifier it heard last says where to go on. -/
theorem followed_once (henc : enc.Faithful) {steps : List (FollowerStep E)}
    (hwords : ∀ verdict, .judge verdict ∈ steps → enc.Says verdict) {s : Follower E}
    (hrun : execute (followerStep enc) {} steps = some s) :
    s.got = s.written.take s.seen ∧ s.seen ≤ s.written.length ∧
      (s.connection.received = bodyText enc s.connection.sent →
        s.seen = s.connection.stream.index) ∧
      (∀ verdict, s.ended = some verdict →
        s.connection.verdict = some verdict ∧ s.seen = s.connection.stream.index) ∧
      ∀ x, s.connection.heard.getLast? = some x → x.name = "message" →
        x.lastEventId = toString ((s.seen - 1 : Nat) : Int) := by
  have halong : Along (followerStep enc)
      (fun _ a => ∀ verdict, a = FollowerStep.judge verdict → enc.Says verdict) {} steps :=
    along_of_forall fun a ha verdict heq => hwords verdict (heq ▸ ha)
  have hs : s.Invariant enc :=
    invariant_along (fun _ _ _ hI hwords h => followerStep_invariant henc hI hwords h)
      start_followerInvariant halong hrun
  obtain ⟨hgot, hle⟩ := hs.got_eq henc
  refine ⟨hgot, hle.trans hs.carries.index_le, fun hall => ?_, fun verdict hended => ?_,
    fun x hlast hname => ?_⟩
  · exact hs.seen_eq henc (hs.carries.payloads_eq henc hall)
  · obtain ⟨x, hx, hname, hparse⟩ := hs.ended verdict hended
    obtain ⟨sent, hsent, hparsed, hall⟩ := hs.carries.verdict_heard henc hx hname
    rw [hparse] at hparsed
    obtain rfl := Option.some.inj hparsed
    exact ⟨hsent, hs.seen_eq henc hall⟩
  · rw [hs.seen]
    exact hs.carries.lastEventId henc hlast hname

/-- How a run ended well. -/
def sampleVerdict : Final := ⟨.success, none, some 0, ∅⟩

/-- Its text. -/
def sampleVerdictText : String :=
  "\x7b\"state\": \"success\", \"message\": null, \"return_code\": 0, \"hosts\": \x7b\x7d\x7d"

/-- The two events and this verdict, written and parsed. -/
def sampleEncoding : Encoding Sample where
  json := sampleJson
  dumpsFinal _ := sampleVerdictText
  parse text := [Sample.task, .stats].find? (·.text = text)
  parseFinal text := if text = sampleVerdictText then some sampleVerdict else none

theorem sampleEncoding_faithful : sampleEncoding.Faithful where
  json := sampleJson_faithful
  parse_dumps e := by cases e <;> decide +kernel

theorem sampleEncoding_says : sampleEncoding.Says sampleVerdict where
  unbroken := by
    unfold Unbroken
    decide +kernel
  parse_dumpsFinal := by decide +kernel

/-- An event arrives, then half of the next one; the client asks again, and gets the rest. -/
def followedSteps : List (FollowerStep Sample) :=
  let first := Message.event 0 Sample.task
  let second := Message.event 1 Sample.stats
  let file := eventsText sampleJson [.task, .stats]
  [.append .task, .append .stats, .poll file,
    .deliver ((first.text sampleEncoding).toList ++ (second.text sampleEncoding).toList.take 9),
    .reconnect, .poll file, .judge sampleVerdict,
    .deliver (bodyText sampleEncoding [second, .state sampleVerdict])]

theorem followed_once_broken :
    ∃ s, execute (followerStep sampleEncoding) {} followedSteps = some s ∧
      s.got = [.task, .stats] ∧ s.ended = some sampleVerdict ∧
      (s.got = s.written.take s.seen ∧ s.seen ≤ s.written.length ∧
        (s.connection.received = bodyText sampleEncoding s.connection.sent →
          s.seen = s.connection.stream.index) ∧
        (∀ verdict, s.ended = some verdict →
          s.connection.verdict = some verdict ∧ s.seen = s.connection.stream.index) ∧
        ∀ x, s.connection.heard.getLast? = some x → x.name = "message" →
          x.lastEventId = toString ((s.seen - 1 : Nat) : Int)) := by
  have hruns : (execute (followerStep sampleEncoding) {} followedSteps).any (fun s =>
      s.got = [.task, .stats] ∧ s.ended = some sampleVerdict) = true := by
    decide +kernel
  rw [Option.any_eq_true] at hruns
  obtain ⟨s, hs, hgot⟩ := hruns
  obtain ⟨htwo, hended⟩ := of_decide_eq_true hgot
  refine ⟨s, hs, htwo, hended, followed_once sampleEncoding_faithful (fun verdict h => ?_) hs⟩
  have hverdict : verdict = sampleVerdict := by
    simp only [followedSteps, List.mem_cons, List.not_mem_nil, or_false, FollowerStep.judge.injEq,
      reduceCtorEq, false_or] at h
    exact h
  rw [hverdict]
  exact sampleEncoding_says

end SeapathWebui.Runs
