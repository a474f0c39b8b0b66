/-
  Foundation/EventSource.lean --- the event stream format, as a browser reads it.

  `Reader.read` is the interpretation of a `text/event-stream` by an `EventSource`, one
  character at a time, so that the text can arrive in any pieces.  The delay that a `retry`
  field sets is left out, and the text is taken as decoded.

  A server writes blocks of fields (`blockText`).  Cut anywhere, what it wrote is heard as the
  blocks that arrived whole, and nothing is heard of the one that was cut
  (`heard_of_isPrefix`).

  Nothing here mentions a particular server.
-/
import SeapathWebui.Foundation.Text

set_option autoImplicit false

namespace SeapathWebui.Foundation.EventSource

/-! ## The reader -/

/-- A `MessageEvent`, as a listener receives it. -/
structure Heard where
  name : String
  data : String
  lastEventId : String
  deriving DecidableEq, Repr

/-- The line that is being read, the buffers, and what was dispatched. -/
structure Reader where
  line : List Char := []
  afterReturn : Bool := false
  data : List Char := []
  name : List Char := []
  lastId : List Char := []
  heard : List Heard := []
  deriving DecidableEq

/-- A field of a line. -/
def Reader.field (r : Reader) (name value : List Char) : Reader :=
  if name = "event".toList then { r with name := value }
  else if name = "data".toList then { r with data := r.data ++ value ++ ['\n'] }
  else if name = "id".toList then if '\x00' ∈ value then r else { r with lastId := value }
  else r

/-- The empty line. -/
def Reader.dispatch (r : Reader) : Reader :=
  if r.data = [] then { r with name := [] }
  else { r with
    data := []
    name := []
    heard := r.heard ++ [
      { name := if r.name = [] then "message" else String.ofList r.name
        data := String.ofList r.data.dropLast
        lastEventId := String.ofList r.lastId }] }

/-- One space after the colon is not part of the value. -/
def unspace : List Char → List Char
  | ' ' :: rest => rest
  | value => value

/-- The end of a line. -/
def Reader.endLine (r : Reader) : Reader :=
  let s := { r with line := [], afterReturn := false }
  if r.line = [] then s.dispatch
  else
    match r.line.span (· != ':') with
    | (name, []) => s.field name []
    -- a line that begins with a colon is a comment
    | ([], _ :: _) => s
    | (name, _ :: value) => s.field name (unspace value)

/-- The next character. -/
def Reader.step (r : Reader) (c : Char) : Reader :=
  if c = '\n' then if r.afterReturn then { r with afterReturn := false } else r.endLine
  else if c = '\r' then { r.endLine with afterReturn := true }
  else { r with line := r.line ++ [c], afterReturn := false }

/-- The next characters. -/
def Reader.read (r : Reader) (text : List Char) : Reader := text.foldl Reader.step r

@[simp] theorem read_nil (r : Reader) : r.read [] = r := rfl

/-- It does not matter in which pieces a text arrives. -/
theorem read_append (r : Reader) (text more : List Char) :
    r.read (text ++ more) = (r.read text).read more :=
  List.foldl_append

/-! ## What can be heard of a part of a text -/

@[simp] theorem field_heard (r : Reader) (name value : List Char) :
    (r.field name value).heard = r.heard := by
  unfold Reader.field
  repeat' split
  all_goals rfl

/-- A character ends at most one block. -/
theorem heard_step (r : Reader) (c : Char) :
    (r.step c).heard = r.heard ∨ ∃ x, (r.step c).heard = r.heard ++ [x] := by
  have hdispatch : ∀ r : Reader,
      r.dispatch.heard = r.heard ∨ ∃ x, r.dispatch.heard = r.heard ++ [x] := by
    intro r
    unfold Reader.dispatch
    split
    · exact .inl rfl
    · exact .inr ⟨_, rfl⟩
  have hline : r.endLine.heard = r.heard ∨ ∃ x, r.endLine.heard = r.heard ++ [x] := by
    unfold Reader.endLine
    split
    · exact hdispatch { r with line := [], afterReturn := false }
    · left
      split
      · rw [field_heard]
      · rfl
      · rw [field_heard]
  unfold Reader.step
  split
  · split
    · exact .inl rfl
    · exact hline
  · split
    · exact hline
    · exact .inl rfl

/-- What was heard stays heard. -/
theorem heard_isPrefix_read (text : List Char) :
    ∀ r : Reader, r.heard <+: (r.read text).heard := by
  induction text with
  | nil => exact fun r => List.prefix_rfl
  | cons c rest ih =>
      intro r
      refine List.IsPrefix.trans ?_ (ih (r.step c))
      obtain hsame | ⟨x, hmore⟩ := heard_step r c
      · rw [hsame]
      · rw [hmore]
        exact List.prefix_append _ _

/-- Between two lines. -/
structure Reader.Idle (r : Reader) : Prop where
  line : r.line = []
  afterReturn : r.afterReturn = false

theorem field_idle {r : Reader} (h : r.Idle) (name value : List Char) :
    (r.field name value).Idle := by
  unfold Reader.field
  repeat' split
  all_goals exact ⟨h.line, h.afterReturn⟩

theorem dispatch_idle {r : Reader} (h : r.Idle) : r.dispatch.Idle := by
  unfold Reader.dispatch
  split
  all_goals exact ⟨h.line, h.afterReturn⟩

/-- There is no line break in the text. -/
def Unbroken (l : List Char) : Prop := '\n' ∉ l ∧ '\r' ∉ l

theorem unbroken_append {l more : List Char} :
    Unbroken (l ++ more) ↔ Unbroken l ∧ Unbroken more := by
  simp only [Unbroken, List.mem_append, not_or]
  exact and_and_and_comm

/-- A part of a line is kept. -/
theorem read_unbroken {l : List Char} (h : Unbroken l) :
    ∀ {r : Reader}, r.afterReturn = false → r.read l = { r with line := r.line ++ l } := by
  induction l with
  | nil =>
      intro r _
      rw [read_nil, List.append_nil]
  | cons c rest ih =>
      intro r hr
      obtain ⟨hnewline, hreturn⟩ := h
      rw [List.mem_cons, not_or] at hnewline hreturn
      have hstep : r.step c = { r with line := r.line ++ [c], afterReturn := false } := by
        rw [Reader.step, if_neg (Ne.symm hnewline.1), if_neg (Ne.symm hreturn.1)]
      have hrest := ih ⟨hnewline.2, hreturn.2⟩ (r := r.step c) (by rw [hstep])
      rw [Reader.read, List.foldl_cons, ← Reader.read, hrest, hstep, ← hr]
      simp

theorem read_newline {r : Reader} (h : r.afterReturn = false) : r.read ['\n'] = r.endLine := by
  change r.step '\n' = r.endLine
  rw [Reader.step, if_pos rfl, if_neg (by simp [h])]

/-! ## Blocks -/

/-- The line of a field. -/
def fieldText (f : String × String) : List Char := f.1.toList ++ ": ".toList ++ f.2.toList

/-- A field that its line can hold. -/
structure Legal (f : String × String) : Prop where
  name_ne : f.1 ≠ ""
  colon : ':' ∉ f.1.toList
  unbroken : Unbroken (fieldText f)

/-- A block: its fields, a line each, and the empty line. -/
def blockText (block : List (String × String)) : List Char :=
  (block.flatMap fun f => fieldText f ++ ['\n']) ++ ['\n']

/-- What a block does to the reader. -/
def Reader.take (r : Reader) (block : List (String × String)) : Reader :=
  (block.foldl (fun r f => r.field f.1.toList f.2.toList) r).dispatch

theorem fields_idle {r : Reader} (h : r.Idle) (block : List (String × String)) :
    (block.foldl (fun r f => r.field f.1.toList f.2.toList) r).Idle := by
  induction block generalizing r with
  | nil => exact h
  | cons f rest ih => exact ih (field_idle h _ _)

theorem take_idle {r : Reader} (h : r.Idle) (block : List (String × String)) :
    (r.take block).Idle :=
  dispatch_idle (fields_idle h block)

/-- The line of a field is read as the field. -/
theorem read_fieldText {f : String × String} (hf : Legal f) {r : Reader} (h : r.Idle) :
    r.read (fieldText f ++ ['\n']) = r.field f.1.toList f.2.toList := by
  have hspan : (fieldText f).span (· != ':') = (f.1.toList, ':' :: ' ' :: f.2.toList) := by
    have hkeep : ∀ c ∈ f.1.toList, (c != ':') = true := by
      intro c hc
      simpa using fun heq : c = ':' => hf.colon (heq ▸ hc)
    rw [List.span_eq_takeWhile_dropWhile]
    simp [fieldText, List.takeWhile_append_of_pos hkeep, List.dropWhile_append_of_pos hkeep]
  have hname : f.1.toList ≠ [] := by
    simpa using hf.name_ne
  have hline : fieldText f ≠ [] := by
    simp [fieldText]
  obtain ⟨first, more, hfirst⟩ := List.exists_cons_of_ne_nil hname
  have hread : r.read (fieldText f ++ ['\n']) = Reader.endLine { r with line := fieldText f } := by
    rw [read_append, read_unbroken hf.unbroken h.afterReturn, h.line, List.nil_append]
    exact read_newline h.afterReturn
  rw [hread, Reader.endLine, if_neg hline]
  simp only [hspan, hfirst]
  change Reader.field { r with line := [], afterReturn := false } (first :: more) f.2.toList = _
  rw [← h.line, ← h.afterReturn]

/-- A block is taken whole. -/
theorem read_blockText {block : List (String × String)} (hblock : ∀ f ∈ block, Legal f) :
    ∀ {r : Reader}, r.Idle → r.read (blockText block) = r.take block := by
  induction block with
  | nil =>
      intro r h
      have hend : r.endLine = Reader.dispatch { r with line := [], afterReturn := false } := by
        rw [Reader.endLine, if_pos h.line]
      rw [blockText, List.flatMap_nil, List.nil_append, read_newline h.afterReturn, hend,
        ← h.line, ← h.afterReturn]
      rfl
  | cons f rest ih =>
      intro r h
      have hrest := ih (fun g hg => hblock g (List.mem_cons_of_mem _ hg))
        (field_idle h f.1.toList f.2.toList)
      rw [blockText, List.flatMap_cons, List.append_assoc, read_append,
        read_fieldText (hblock f List.mem_cons_self) h]
      exact hrest

/-- Nothing is heard of a block before its end. -/
theorem heard_of_cut {block : List (String × String)} (hblock : ∀ f ∈ block, Legal f) :
    ∀ {r : Reader} {cut : List Char}, r.Idle → cut <+: blockText block → cut ≠ blockText block →
      (r.read cut).heard = r.heard := by
  induction block with
  | nil =>
      intro r cut h hcut hne
      obtain rfl | ⟨more, rfl, hmore⟩ := List.prefix_cons_iff.mp hcut
      · rfl
      · obtain rfl := List.prefix_nil.mp hmore
        exact absurd rfl hne
  | cons f rest ih =>
      intro r cut h hcut hne
      have hf := hblock f List.mem_cons_self
      have hsplit : blockText (f :: rest) = (fieldText f ++ ['\n']) ++ blockText rest := by
        rw [blockText, List.flatMap_cons, List.append_assoc]
        rfl
      rw [hsplit] at hcut hne
      rcases List.prefix_or_prefix_of_prefix hcut (List.prefix_append _ _) with hline | ⟨more, rfl⟩
      -- the line is not ended, or nothing comes after it
      · rcases List.prefix_concat_iff.mp hline with rfl | hopen
        · rw [read_fieldText hf h, field_heard]
        · obtain ⟨l, hl⟩ := hopen
          have hunbroken : Unbroken cut := (unbroken_append.mp (hl ▸ hf.unbroken)).1
          rw [read_unbroken hunbroken h.afterReturn]
      · have hmore := (List.prefix_append_right_inj _).mp hcut
        rw [read_append, read_fieldText hf h,
          ih (fun g hg => hblock g (List.mem_cons_of_mem _ hg)) (field_idle h _ _) hmore
            fun heq => hne (by rw [heq]), field_heard]

/-! ## Streams -/

/-- The text of blocks, one after the other. -/
def streamText (blocks : List (List (String × String))) : List Char := blocks.flatMap blockText

theorem streamText_append (blocks more : List (List (String × String))) :
    streamText (blocks ++ more) = streamText blocks ++ streamText more :=
  List.flatMap_append

/-- All the blocks are heard. -/
theorem read_streamText {blocks : List (List (String × String))}
    (hblocks : ∀ block ∈ blocks, ∀ f ∈ block, Legal f) :
    ∀ {r : Reader}, r.Idle →
      r.read (streamText blocks) = blocks.foldl Reader.take r ∧
        (blocks.foldl Reader.take r).Idle := by
  induction blocks with
  | nil => exact fun h => ⟨rfl, h⟩
  | cons block rest ih =>
      intro r h
      have hrest := ih (fun b hb => hblocks b (List.mem_cons_of_mem _ hb)) (take_idle h block)
      rw [streamText, List.flatMap_cons, read_append,
        read_blockText (hblocks block List.mem_cons_self) h]
      exact hrest

/-- Where a stream is cut, some blocks are whole, and the next one is not. -/
theorem exists_cut {blocks : List (List (String × String))} :
    ∀ {text : List Char}, text <+: streamText blocks →
      ∃ k cut, text = streamText (blocks.take k) ++ cut ∧ k ≤ blocks.length ∧
        (cut = [] ∨ ∃ block, blocks[k]? = some block ∧ cut <+: blockText block ∧
          cut ≠ blockText block) := by
  induction blocks with
  | nil =>
      intro text h
      obtain rfl := List.prefix_nil.mp h
      exact ⟨0, [], rfl, le_rfl, .inl rfl⟩
  | cons block rest ih =>
      intro text h
      have hsplit : ∀ k, streamText ((block :: rest).take (k + 1)) =
          blockText block ++ streamText (rest.take k) := by
        intro k
        rw [List.take_succ_cons, streamText, List.flatMap_cons]
        rfl
      rw [streamText, List.flatMap_cons] at h
      rcases List.prefix_or_prefix_of_prefix h (List.prefix_append _ _) with hcut | ⟨more, rfl⟩
      · by_cases hwhole : text = blockText block
        · exact ⟨1, [], by rw [hsplit 0, hwhole]; simp [streamText], by simp, .inl rfl⟩
        · exact ⟨0, text, rfl, Nat.zero_le _, .inr ⟨block, rfl, hcut, hwhole⟩⟩
      · obtain ⟨k, cut, rfl, hk, hcut⟩ := ih ((List.prefix_append_right_inj _).mp h)
        refine ⟨k + 1, cut, ?_, Nat.succ_le_succ hk, hcut⟩
        rw [hsplit, List.append_assoc]

/-- A block is not empty. -/
theorem length_blockText_pos (block : List (String × String)) : 0 < (blockText block).length := by
  simp [blockText]

/-- Of a stream that is cut anywhere, the blocks that arrived whole are heard. -/
theorem heard_of_isPrefix {blocks : List (List (String × String))}
    (hblocks : ∀ block ∈ blocks, ∀ f ∈ block, Legal f) {r : Reader} (hr : r.Idle)
    {text : List Char} (h : text <+: streamText blocks) :
    ∃ k ≤ blocks.length, (r.read text).heard = ((blocks.take k).foldl Reader.take r).heard ∧
      ∀ m ≤ blocks.length, streamText (blocks.take m) <+: text → m ≤ k := by
  obtain ⟨k, cut, rfl, hk, hcut⟩ := exists_cut h
  have hfirst : ∀ b ∈ blocks.take k, ∀ f ∈ b, Legal f :=
    fun b hb => hblocks b (List.take_subset _ _ hb)
  have hwhole := read_streamText hfirst hr
  refine ⟨k, hk, ?_, fun m hm hinitial => ?_⟩
  · rw [read_append, hwhole.1]
    rcases hcut with rfl | ⟨block, hblock, hinit, hne⟩
    · rfl
    · exact heard_of_cut (hblocks block (List.mem_of_getElem? hblock)) hwhole.2 hinit hne
  · by_contra hlt
    have hnext : k < blocks.length := by omega
    -- the next block would be whole
    have hlong : (streamText (blocks.take (k + 1))).length ≤
        (streamText (blocks.take k) ++ cut).length := by
      refine List.IsPrefix.length_le (List.IsPrefix.trans ?_ hinitial)
      obtain ⟨more, hmore⟩ := List.take_prefix_take_left (l := blocks) (show k + 1 ≤ m by omega)
      rw [← hmore, streamText_append]
      exact List.prefix_append _ _
    rw [List.take_add_one, List.getElem?_eq_getElem hnext, Option.toList_some, streamText_append,
      List.length_append, List.length_append] at hlong
    have hblock : (streamText [blocks[k]]).length = (blockText blocks[k]).length := by
      simp [streamText]
    rcases hcut with rfl | ⟨block, hget, hinit, hne⟩
    · have hpos := length_blockText_pos blocks[k]
      rw [List.length_nil] at hlong
      omega
    · rw [List.getElem?_eq_getElem hnext] at hget
      obtain rfl := Option.some.inj hget
      have hlength := hinit.length_le
      exact hne (hinit.eq_of_length (by omega))

end SeapathWebui.Foundation.EventSource
