/-
  Foundation/Replace.lean --- replacing a file by renaming a new one over it.

  A program that must never leave a file half written writes the new content into a
  temporary file next to it, and renames that over the old one.  Whatever happens before
  the rename, the file is as it was (`Replacement.applyOps_take`); after it, it is the new
  one, with the mode and the owner that the temporary file was given
  (`Replacement.applyOps_ops`).

  The temporary file may be there already, left by a program that died: opening it empties
  it, and keeps its mode and its owner.

  Nothing here mentions a particular file or program.
-/
import Mathlib.Data.List.Basic
import Mathlib.Logic.Function.Basic

set_option autoImplicit false

namespace SeapathWebui.Foundation

/-- A file: its content, its permission bits, its owner and group. -/
structure StoredFile where
  content : String
  mode : Nat
  owner : Nat × Nat
  deriving DecidableEq, Repr

/-- The files, by path. -/
abbrev FileTree (P : Type*) : Type _ := P → Option StoredFile

/-- An operation on a file. -/
inductive FileOp (P : Type*)
  /-- `open` with `O_WRONLY | O_CREAT | O_TRUNC` -/
  | openNew (p : P) (mode : Nat) (owner : Nat × Nat)
  /-- a write at the end of the open file -/
  | write (p : P) (text : String)
  | chmod (p : P) (mode : Nat)
  | chown (p : P) (owner : Nat × Nat)
  | rename (source target : P)
  | unlink (p : P)

variable {P : Type*} [DecidableEq P]

/-- A file that is opened anew is empty; it keeps the mode and the owner it has. -/
def emptied (mode : Nat) (owner : Nat × Nat) : Option StoredFile → StoredFile
  | none => ⟨"", mode, owner⟩
  | some f => { f with content := "" }

/-- What an operation makes of the files. -/
def FileOp.apply (d : FileTree P) : FileOp P → FileTree P
  | .openNew p mode owner => Function.update d p (some (emptied mode owner (d p)))
  | .write p text =>
      Function.update d p ((d p).map fun f => { f with content := f.content ++ text })
  | .chmod p mode => Function.update d p ((d p).map fun f => { f with mode := mode })
  | .chown p owner => Function.update d p ((d p).map fun f => { f with owner := owner })
  | .rename source target =>
      Function.update (Function.update d target (d source)) source none
  | .unlink p => Function.update d p none

/-- One operation after the other. -/
def applyOps (d : FileTree P) (ops : List (FileOp P)) : FileTree P := ops.foldl FileOp.apply d

/-- The operation is on this path, and on no other. -/
def FileOp.On (p : P) : FileOp P → Prop
  | .openNew q _ _ | .write q _ | .chmod q _ | .chown q _ | .unlink q => q = p
  | .rename _ _ => False

theorem applyOps_append (d : FileTree P) (ops more : List (FileOp P)) :
    applyOps d (ops ++ more) = applyOps (applyOps d ops) more := List.foldl_append

theorem FileOp.apply_of_on {p q : P} {op : FileOp P} (h : op.On p) (hne : q ≠ p)
    (d : FileTree P) : op.apply d q = d q := by
  cases op with
  | rename source target => exact h.elim
  | openNew | write | chmod | chown | unlink =>
      obtain rfl := h
      exact Function.update_of_ne hne _ _

/-- Operations on one path leave the others alone. -/
theorem applyOps_of_on {p q : P} (hne : q ≠ p) {ops : List (FileOp P)} :
    ∀ {d : FileTree P}, (∀ op ∈ ops, op.On p) → applyOps d ops q = d q := by
  induction ops with
  | nil => exact fun _ => rfl
  | cons op rest ih =>
      intro d h
      have hrest := ih (d := op.apply d) fun op hop => h op (List.mem_cons_of_mem _ hop)
      exact hrest.trans (FileOp.apply_of_on (h op List.mem_cons_self) hne d)

/-- The chunks of a text are written one after the other. -/
theorem applyOps_write {p : P} (chunks : List String) :
    ∀ {d : FileTree P} {f : StoredFile}, d p = some f →
      applyOps d (chunks.map (.write p)) p =
        some { f with content := f.content ++ String.join chunks } := by
  induction chunks with
  | nil =>
      intro d f hf
      simpa [applyOps] using hf
  | cons chunk rest ih =>
      intro d f hf
      have hnext : (FileOp.write p chunk).apply d p =
          some { f with content := f.content ++ chunk } := by
        simp [FileOp.apply, hf]
      rw [List.map_cons, applyOps, List.foldl_cons]
      refine (ih hnext).trans ?_
      simp [String.append_assoc]

/-! ## Replacing -/

/-- How a file is replaced. -/
structure Replacement (P : Type*) where
  path : P
  temporary : P
  /-- the owner of the files that the program makes -/
  creator : Nat × Nat
  /-- the pieces in which the new content is written -/
  chunks : List String
  mode : Nat
  /-- the owner it is given, where the program may give it away -/
  owner : Option (Nat × Nat)
  ne : path ≠ temporary

namespace Replacement

variable (x : Replacement P)

/-- What is done to the temporary file. -/
def preparing : List (FileOp P) :=
  [.openNew x.temporary 0o600 x.creator] ++ x.chunks.map (.write x.temporary) ++
    [.chmod x.temporary x.mode] ++
    (match x.owner with
      | some owner => [.chown x.temporary owner]
      | none => [])

/-- All of it. -/
def ops : List (FileOp P) := x.preparing ++ [.rename x.temporary x.path]

omit [DecidableEq P] in
theorem preparing_on : ∀ op ∈ x.preparing, op.On x.temporary := by
  intro op hop
  simp only [preparing, List.mem_append, List.mem_singleton, List.mem_map] at hop
  rcases hop with ((rfl | ⟨chunk, -, rfl⟩) | rfl) | howner
  · rfl
  · rfl
  · rfl
  · cases hx : x.owner with
    | none => simp [hx] at howner
    | some owner =>
        simp only [hx, List.mem_singleton] at howner
        rw [howner]
        rfl

/-- **Cut short before the rename, whatever was done, every other file is as it was.** -/
theorem applyOps_take (d : FileTree P) (n : Nat) {q : P} (hq : q ≠ x.temporary) :
    applyOps d (x.preparing.take n) q = d q :=
  applyOps_of_on hq fun op hop => x.preparing_on op (List.mem_of_mem_take hop)

/-- The owner of a temporary file that is not given away. -/
def keptOwner (d : FileTree P) : Nat × Nat := (emptied 0o600 x.creator (d x.temporary)).owner

/-- What the temporary file is in the end. -/
theorem applyOps_preparing (d : FileTree P) :
    applyOps d x.preparing x.temporary =
      some ⟨String.join x.chunks, x.mode, x.owner.getD (x.keptOwner d)⟩ := by
  have hopen : (FileOp.openNew x.temporary 0o600 x.creator).apply d x.temporary =
      some (emptied 0o600 x.creator (d x.temporary)) := Function.update_self ..
  have hempty : (emptied 0o600 x.creator (d x.temporary)).content = "" := by
    cases d x.temporary <;> rfl
  have hwritten := applyOps_write x.chunks hopen
  rw [preparing, applyOps_append, applyOps_append, applyOps_append]
  generalize hafter : applyOps (applyOps d [.openNew x.temporary 0o600 x.creator])
    (x.chunks.map (.write x.temporary)) = after
  have hcontent : after x.temporary = some
      { emptied 0o600 x.creator (d x.temporary) with content := String.join x.chunks } := by
    rw [← hafter]
    refine hwritten.trans ?_
    rw [hempty, String.empty_append]
  cases howner : x.owner with
  | none => simp [applyOps, FileOp.apply, hcontent, keptOwner]
  | some owner => simp [applyOps, FileOp.apply, hcontent]

/-- **After the rename the file is the new one, and the temporary file is gone.** -/
theorem applyOps_ops (d : FileTree P) :
    applyOps d x.ops x.path =
        some ⟨String.join x.chunks, x.mode, x.owner.getD (x.keptOwner d)⟩ ∧
      applyOps d x.ops x.temporary = none ∧
      ∀ q, q ≠ x.path → q ≠ x.temporary → applyOps d x.ops q = d q := by
  have hpreparing := x.applyOps_preparing d
  rw [ops, applyOps_append]
  refine ⟨?_, ?_, fun q hpath htemporary => ?_⟩
  · simp [applyOps, FileOp.apply, Function.update_of_ne x.ne] at hpreparing ⊢
    exact hpreparing
  · simp [applyOps, FileOp.apply]
  · have hsame := applyOps_of_on (d := d) htemporary x.preparing_on
    simp only [applyOps, List.foldl_cons, List.foldl_nil, FileOp.apply] at hsame ⊢
    rw [Function.update_of_ne htemporary, Function.update_of_ne hpath]
    exact hsame

end Replacement

end SeapathWebui.Foundation
