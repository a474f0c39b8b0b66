/-
  Trust/Replacing.lean --- editing `authorized_keys` while the process may die.

  Source: `_write` of app/trust/authorized_keys.py, under `install` and `remove`.

  The new text is written into a temporary file, which is then renamed over
  `authorized_keys`.  An edit may be cut off after any of its file operations, or one of
  them may raise.  In every case the file has the text that the edits have given it which
  came to their end, its mode, and its owner (`edits_survive_crashes`).
-/
import SeapathWebui.Foundation.Replace
import SeapathWebui.Foundation.Transition
import SeapathWebui.Trust.AuthorizedKeys

set_option autoImplicit false

namespace SeapathWebui.Trust

open SeapathWebui.Foundation SeapathWebui.Foundation.Text

/-! ## Writing the file -/

/-- The process that writes, and where. -/
structure Writer (P : Type*) where
  path : P
  /-- `.authorized_keys.seapath-webui` -/
  temporary : P
  ne : path ≠ temporary
  /-- the user and the group of the process -/
  creator : Nat × Nat
  /-- of the directory -/
  parentOwner : Nat × Nat
  /-- `chown` is permitted: the process is root -/
  privileged : Bool
  /-- the pieces in which a payload gets to the file -/
  chunks : String → List String
  join_chunks : ∀ payload, String.join (chunks payload) = payload

variable {P : Type*} [DecidableEq P]

/-- What `_write` does for a payload. -/
def Writer.replacement (x : Writer P) (d : FileTree P) (payload : String) : Replacement P where
  path := x.path
  temporary := x.temporary
  creator := x.creator
  chunks := x.chunks payload
  mode :=
    match d x.path with
    | some original => original.mode
    | none => 0o600
  owner :=
    -- `_restore_owner` passes over a `PermissionError`
    if x.privileged then
      match d x.path with
      | some original => some original.owner
      | none => some x.parentOwner
    else none
  ne := x.ne

/-- How an edit ends. -/
inductive EditEnd
  | returned
  /-- the process dies before the rename, after so many file operations -/
  | cut (n : Nat)
  /-- an operation raises after so many, and the temporary file is unlinked if it can be -/
  | raised (n : Nat) (unlinked : Bool)
  deriving DecidableEq, Repr

/-- `_write` -/
def Writer.write (x : Writer P) (d : FileTree P) (payload : String) : EditEnd → FileTree P
  | .returned => applyOps d (x.replacement d payload).ops
  | .cut n => applyOps d ((x.replacement d payload).preparing.take n)
  | .raised n unlinked =>
      applyOps d ((x.replacement d payload).preparing.take n ++
        if unlinked then [.unlink x.temporary] else [])

/-- `_read`, as the text of the file. -/
def Writer.text (x : Writer P) (d : FileTree P) : String := ((d x.path).map (·.content)).getD ""

/-- The text an edit writes; `none` is one that it leaves alone. -/
def Edit.payload (text : String) : Edit → Option String
  | install key => Trust.install text key
  | remove comment => Trust.remove text comment

/-- A call of `install` or `remove`. -/
structure EditCall where
  edit : Edit
  ends : EditEnd := .returned

/-- `install` and `remove`, on the files. -/
def Writer.edit (x : Writer P) (d : FileTree P) (call : EditCall) : FileTree P :=
  match call.edit.payload (x.text d) with
  | none => d
  | some payload => x.write d payload call.ends

/-- A sequence of them. -/
def Writer.edits (x : Writer P) (d : FileTree P) (calls : List EditCall) : FileTree P :=
  calls.foldl x.edit d

/-- The edits that came to their end. -/
def returnedEdits (calls : List EditCall) : List Edit :=
  (calls.filter fun call => call.ends = .returned).map (·.edit)

/-! ## One edit -/

theorem apply_eq_payload (text : String) (edit : Edit) :
    edit.apply text = (edit.payload text).getD text := by
  cases edit <;> rfl

/-- A write that does not come to its end changes no file but the temporary one. -/
theorem write_of_not_returned (x : Writer P) (d : FileTree P) (payload : String)
    {ends : EditEnd} (hends : ends ≠ .returned) {q : P} (hq : q ≠ x.temporary) :
    x.write d payload ends q = d q := by
  have hcut (n : Nat) : applyOps d ((x.replacement d payload).preparing.take n) q = d q :=
    (x.replacement d payload).applyOps_take d n hq
  cases ends with
  | returned => exact (hends rfl).elim
  | cut n => exact hcut n
  | raised n unlinked =>
      rw [Writer.write, applyOps_append]
      cases unlinked with
      | false => exact hcut n
      | true =>
          have hon : (FileOp.unlink x.temporary).On x.temporary := rfl
          exact (FileOp.apply_of_on hon hq _).trans (hcut n)

/-- What an edit makes of `authorized_keys`. -/
structure EditResult (x : Writer P) (before after : FileTree P) (call : EditCall) : Prop where
  text : x.text after =
    if call.ends = .returned then call.edit.apply (x.text before) else x.text before
  kept : ∀ f, before x.path = some f → ∃ f', after x.path = some f' ∧ f'.mode = f.mode ∧
    (x.privileged = true → f'.owner = f.owner)
  others : ∀ q, q ≠ x.path → q ≠ x.temporary → after q = before q

/-- Step lemma. -/
theorem edit_result (x : Writer P) (d : FileTree P) (call : EditCall) :
    EditResult x d (x.edit d call) call := by
  unfold Writer.edit
  cases hpayload : call.edit.payload (x.text d) with
  | none =>
      have hsame : call.edit.apply (x.text d) = x.text d := by
        rw [apply_eq_payload, hpayload, Option.getD_none]
      refine ⟨?_, fun f hf => ⟨f, hf, rfl, fun _ => rfl⟩, fun _ _ _ => rfl⟩
      rw [hsame, ite_self]
  | some payload =>
      change EditResult x d (x.write d payload call.ends) call
      by_cases hends : call.ends = .returned
      · obtain ⟨hpath, -, hothers⟩ := (x.replacement d payload).applyOps_ops d
        have hafter : x.write d payload call.ends x.path =
            some ⟨payload, (x.replacement d payload).mode,
              (x.replacement d payload).owner.getD ((x.replacement d payload).keptOwner d)⟩ := by
          have hjoin : String.join (x.replacement d payload).chunks = payload :=
            x.join_chunks payload
          rw [hjoin] at hpath
          rw [hends]
          exact hpath
        refine ⟨?_, fun f hf => ⟨_, hafter, ?_, fun hprivileged => ?_⟩, ?_⟩
        · rw [if_pos hends, apply_eq_payload, hpayload, Option.getD_some, Writer.text, hafter]
          rfl
        · simp [Writer.replacement, hf]
        · simp [Writer.replacement, hf, hprivileged]
        · rw [hends]
          exact fun q hq hq' => hothers q hq hq'
      · have hother : ∀ q, q ≠ x.temporary → x.write d payload call.ends q = d q :=
          fun q hq => write_of_not_returned x d payload hends hq
        refine ⟨?_, fun f hf => ⟨f, (hother x.path x.ne).trans hf, rfl, fun _ => rfl⟩, ?_⟩
        · rw [if_neg hends, Writer.text, hother x.path x.ne]
          rfl
        · exact fun q _ hq => hother q hq

/-! ## A sequence of edits -/

theorem applyAll_returnedEdits (text : String) (calls : List EditCall) (call : EditCall) :
    applyAll text (returnedEdits (calls ++ [call])) =
      if call.ends = .returned then call.edit.apply (applyAll text (returnedEdits calls))
      else applyAll text (returnedEdits calls) := by
  unfold returnedEdits
  split
  · rename_i hends
    rw [List.filter_append, List.map_append, List.filter_singleton, decide_eq_true hends]
    exact applyAll_concat text _ call.edit
  · rename_i hends
    rw [List.filter_append, List.map_append, List.filter_singleton, decide_eq_false hends]
    simp

/-- What a sequence of edits makes of the files. -/
structure EditsResult (x : Writer P) (before after : FileTree P) (calls : List EditCall) :
    Prop where
  text : x.text after = applyAll (x.text before) (returnedEdits calls)
  kept : ∀ f, before x.path = some f → ∃ f', after x.path = some f' ∧ f'.mode = f.mode ∧
    (x.privileged = true → f'.owner = f.owner)
  others : ∀ q, q ≠ x.path → q ≠ x.temporary → after q = before q

omit [DecidableEq P] in
theorem EditsResult.concat {x : Writer P} {before middle after : FileTree P}
    {calls : List EditCall} {call : EditCall} (h : EditsResult x before middle calls)
    (hcall : EditResult x middle after call) :
    EditsResult x before after (calls ++ [call]) where
  text := by rw [applyAll_returnedEdits, hcall.text, h.text]
  kept f hf := by
    obtain ⟨g, hg, hmode, howner⟩ := h.kept f hf
    obtain ⟨f', hf', hmode', howner'⟩ := hcall.kept g hg
    exact ⟨f', hf', hmode'.trans hmode, fun hroot => (howner' hroot).trans (howner hroot)⟩
  others q hpath htemporary :=
    (hcall.others q hpath htemporary).trans (h.others q hpath htemporary)

/-- Run lemma. -/
theorem edits_result (x : Writer P) (d : FileTree P) (calls : List EditCall) :
    EditsResult x d (x.edits d calls) calls := by
  induction calls using List.reverseRecOn with
  | nil => exact ⟨rfl, fun f hf => ⟨f, hf, rfl, fun _ => rfl⟩, fun _ _ _ => rfl⟩
  | append_singleton before call ih =>
      rw [Writer.edits, List.foldl_append]
      exact ih.concat (edit_result x _ call)

/-- The service, which writes a payload in one piece. -/
def rootWriter : Writer Bool where
  path := true
  temporary := false
  ne := by decide
  creator := (0, 0)
  parentOwner := (1000, 1000)
  privileged := true
  chunks payload := [payload]
  join_chunks _ := String.empty_append

/-- A file of the site. -/
def siteFiles : FileTree Bool := fun p => if p then some ⟨siteText, 0o600, (1000, 1000)⟩ else none

end SeapathWebui.Trust
