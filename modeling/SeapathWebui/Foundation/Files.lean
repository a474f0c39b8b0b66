/-
  Foundation/Files.lean --- file operations that may fail, and what they raise.

  A file operation asks the operating system, which answers with a result or with an
  error number.  A program that is run against a family of answers, one for each of its
  operations, is judged for every content of every file and for every operation that may
  fail.  Each operation below turns an answer into a result or an exception, as the
  language's file library does: queries of a path read some errors as a plain no, and
  reading a text decodes it.
-/
import SeapathWebui.Foundation.Raising

set_option autoImplicit false

namespace SeapathWebui.Foundation

/-- An `OSError`, as far as its number is looked at. -/
inductive OsError
  /-- `FileNotFoundError` -/
  | noEntry
  | notADirectory
  | badDescriptor
  | symlinkLoop
  /-- `PermissionError` -/
  | permission
  | other
  deriving DecidableEq, Repr

/-- The errors that a query of a path reads as a no. -/
def OsError.ignored : OsError → Bool
  | noEntry | notADirectory | badDescriptor | symlinkLoop => true
  | permission | other => false

/-- What the operating system answers to an operation. -/
abbrev Answer (α : Type) := Except OsError α

/-- The exceptions of a program: those of the language, and its own. -/
inductive Exc (σ : Type)
  | os (e : OsError)
  /-- `ValueError`: a text that cannot be decoded, a path with a zero character -/
  | value
  /-- `IndexError` -/
  | index
  | own (e : σ)
  deriving DecidableEq, Repr

namespace Exc

variable {σ : Type}

/-- `except OSError` -/
def isOs : Exc σ → Bool
  | os _ => true
  | value | index | own _ => false

/-- `except (OSError, ValueError)` -/
def isOsOrValue : Exc σ → Bool
  | os _ | value => true
  | index | own _ => false

end Exc

variable {σ α : Type} {p : Exc σ → Prop}

/-! ## Operations -/

/-- An operation that raises whatever error it is answered. -/
def call (a : Answer α) : Except (Exc σ) α :=
  match a with
  | .ok b => .ok b
  | .error e => .error (.os e)

/-- Operations one after the other. -/
def perform : List (Answer Unit) → Except (Exc σ) Unit
  | [] => .ok ()
  | a :: rest => do
      call a
      perform rest

/-- `path.is_dir()` and `path.is_symlink()` -/
def pathQuery (a : Answer Bool) : Except (Exc σ) Bool :=
  match a with
  | .ok b => .ok b
  | .error e => if e.ignored then .ok false else .error (.os e)

/-- `path.exists()`, from the answer of `stat`. -/
def pathExists (stat : Answer Unit) : Except (Exc σ) Bool :=
  pathQuery (stat.map fun _ => true)

/-- `path.unlink(missing_ok=True)` -/
def unlinkMissingOk (a : Answer Unit) : Except (Exc σ) Unit :=
  match a with
  | .ok () => .ok ()
  | .error e => if e = .noEntry then .ok () else .error (.os e)

/-- Opening a path, which has to be one: no zero character in it. -/
def openPath (path : String) (a : Answer α) : Except (Exc σ) α :=
  if '\x00' ∈ path.toList then .error .value else call a

/-- The decoding of `path.read_text()`. -/
def decodeText (bytes : ByteArray) : Except (Exc σ) String :=
  match String.fromUTF8? bytes with
  | some text => .ok text
  | none => .error .value

/-- `path.read_text()`, before the line ends are translated. -/
def readText (a : Answer ByteArray) : Except (Exc σ) String := do
  let bytes ← call a
  decodeText bytes

/-! ## What the answers have to be -/

/-- A query is answered: yes, no, or by an error that means no. -/
def Answered (a : Answer α) : Prop := ∀ e, a = .error e → e.ignored = true

/-- Where a file is read, it is UTF-8. -/
def Decodable (a : Answer ByteArray) : Prop := ∀ bytes, a = .ok bytes → bytes.IsValidUTF8

/-- A file is read, and this is its text. -/
def Holds (a : Answer ByteArray) (text : String) : Prop :=
  ∃ bytes, a = .ok bytes ∧ String.fromUTF8? bytes = some text

/-- A file is gone, or there was none. -/
def Unlinked (a : Answer Unit) : Prop := ∀ e, a = .error e → e = .noEntry

@[simp] theorem call_eq_ok {a : Answer α} {b : α} :
    (call a : Except (Exc σ) α) = .ok b ↔ a = .ok b := by
  cases a with
  | ok b' => simp [call]
  | error e => simp [call]

@[simp] theorem returns_call {a : Answer α} :
    Returns (call a : Except (Exc σ) α) ↔ Returns a := by
  simp [Returns]

theorem raisesOnly_call (hos : ∀ e, p (.os e)) (a : Answer α) : RaisesOnly p (call a) := by
  cases a with
  | ok b => exact raisesOnly_ok b
  | error e => exact raisesOnly_error.mpr (hos e)

theorem returns_perform {operations : List (Answer Unit)} :
    Returns (perform operations : Except (Exc σ) Unit) ↔ ∀ a ∈ operations, Returns a := by
  induction operations with
  | nil => simp [perform]
  | cons a rest ih =>
      rw [perform, returns_bind, returns_call, List.forall_mem_cons, ← ih]
      constructor
      · rintro ⟨⟨b, hb⟩, hrest⟩
        exact ⟨⟨b, hb⟩, hrest b (call_eq_ok.mpr hb)⟩
      · rintro ⟨ha, hrest⟩
        exact ⟨ha, fun _ _ => hrest⟩

theorem raisesOnly_perform (hos : ∀ e, p (.os e)) (operations : List (Answer Unit)) :
    RaisesOnly p (perform operations) := by
  induction operations with
  | nil => exact raisesOnly_ok ()
  | cons a rest ih => exact raisesOnly_bind.mpr ⟨raisesOnly_call hos a, fun _ _ => ih⟩

theorem returns_pathQuery {a : Answer Bool} :
    Returns (pathQuery a : Except (Exc σ) Bool) ↔ Answered a := by
  cases a with
  | ok b => simp [pathQuery, Answered]
  | error e => cases h : e.ignored <;> simp [pathQuery, Answered, h]

@[simp] theorem pathQuery_eq_true {a : Answer Bool} :
    (pathQuery a : Except (Exc σ) Bool) = .ok true ↔ a = .ok true := by
  cases a with
  | ok b => simp [pathQuery]
  | error e => cases h : e.ignored <;> simp [pathQuery, h]

/-- A query that is not answered with a yes is a no, or raises. -/
theorem pathQuery_eq_false {a : Answer Bool} :
    (pathQuery a : Except (Exc σ) Bool) = .ok false ↔ Answered a ∧ a ≠ .ok true := by
  cases a with
  | ok b => simp [pathQuery, Answered]
  | error e => cases h : e.ignored <;> simp [pathQuery, Answered, h]

theorem raisesOnly_pathQuery (hos : ∀ e, p (.os e)) (a : Answer Bool) :
    RaisesOnly p (pathQuery a) := by
  cases a with
  | ok b => exact raisesOnly_ok b
  | error e => cases h : e.ignored <;> simp [pathQuery, h, hos]

theorem answered_map {a : Answer α} {β : Type} {g : α → β} :
    Answered (a.map g) ↔ Answered a := by
  cases a with
  | ok b => simp [Answered, Except.map]
  | error e => simp [Answered, Except.map]

theorem returns_pathExists {stat : Answer Unit} :
    Returns (pathExists stat : Except (Exc σ) Bool) ↔ Answered stat := by
  rw [pathExists, returns_pathQuery, answered_map]

@[simp] theorem pathExists_eq_true {stat : Answer Unit} :
    (pathExists stat : Except (Exc σ) Bool) = .ok true ↔ stat = .ok () := by
  cases stat with
  | ok u => simp [pathExists, Except.map]
  | error e => simp [pathExists, Except.map]

theorem pathExists_eq_false {stat : Answer Unit} :
    (pathExists stat : Except (Exc σ) Bool) = .ok false ↔ Answered stat ∧ stat ≠ .ok () := by
  rw [pathExists, pathQuery_eq_false, answered_map]
  cases stat with
  | ok u => simp [Except.map]
  | error e => simp [Except.map]

theorem raisesOnly_pathExists (hos : ∀ e, p (.os e)) (stat : Answer Unit) :
    RaisesOnly p (pathExists stat) := raisesOnly_pathQuery hos _

theorem returns_unlinkMissingOk {a : Answer Unit} :
    Returns (unlinkMissingOk a : Except (Exc σ) Unit) ↔ Unlinked a := by
  cases a with
  | ok u => simp [unlinkMissingOk, Unlinked]
  | error e => by_cases h : e = .noEntry <;> simp [unlinkMissingOk, Unlinked, h]

theorem raisesOnly_unlinkMissingOk (hos : ∀ e, p (.os e)) (a : Answer Unit) :
    RaisesOnly p (unlinkMissingOk a) := by
  cases a with
  | ok u => exact raisesOnly_ok ()
  | error e => by_cases h : e = .noEntry <;> simp [unlinkMissingOk, h, hos]

theorem returns_openPath {path : String} {a : Answer α} :
    Returns (openPath path a : Except (Exc σ) α) ↔ '\x00' ∉ path.toList ∧ Returns a := by
  unfold openPath
  split
  · rename_i h
    simp [h]
  · rename_i h
    simp [h]

/-! ## Reading a text -/

theorem fromUTF8?_eq_none {bytes : ByteArray} :
    String.fromUTF8? bytes = none ↔ ¬ bytes.IsValidUTF8 := by
  unfold String.fromUTF8?
  split
  · rename_i h
    simp [h]
  · rename_i h
    simp [h]

/-- The bytes of a text are read back as it. -/
theorem fromUTF8?_toUTF8 (text : String) : String.fromUTF8? text.toUTF8 = some text := by
  simp [String.fromUTF8?, String.fromUTF8, text.isValidUTF8]

theorem decodeText_eq_ok {bytes : ByteArray} {text : String} :
    (decodeText bytes : Except (Exc σ) String) = .ok text ↔
      String.fromUTF8? bytes = some text := by
  unfold decodeText
  cases String.fromUTF8? bytes with
  | none => simp
  | some t => simp

theorem readText_eq_ok {a : Answer ByteArray} {text : String} :
    (readText a : Except (Exc σ) String) = .ok text ↔ Holds a text := by
  simp only [readText, bind_eq_ok, call_eq_ok, decodeText_eq_ok, Holds]

theorem raisesOnly_decodeText (hvalue : ¬ p .value) {bytes : ByteArray} :
    RaisesOnly p (decodeText bytes) ↔ bytes.IsValidUTF8 := by
  unfold decodeText
  cases h : String.fromUTF8? bytes with
  | none => simp [hvalue, fromUTF8?_eq_none.mp h]
  | some t =>
      have hvalid : bytes.IsValidUTF8 := by
        by_contra hnot
        rw [fromUTF8?_eq_none.mpr hnot] at h
        cases h
      simp [hvalid]

/-- Around a text that is read, a clause for the errors of the system is enough exactly if
the text can be decoded. -/
theorem raisesOnly_readText (hos : ∀ e, p (.os e)) (hvalue : ¬ p .value)
    {a : Answer ByteArray} : RaisesOnly p (readText a) ↔ Decodable a := by
  simp only [readText, raisesOnly_bind, raisesOnly_call hos, true_and, call_eq_ok,
    raisesOnly_decodeText hvalue, Decodable]

end SeapathWebui.Foundation
