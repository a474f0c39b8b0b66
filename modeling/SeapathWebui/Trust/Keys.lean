/-
  Trust/Keys.lean --- the key pair of a relation, and what loading it may raise.

  Source: app/trust/keys.py.

  `ensure_key_pair` makes a directory, generates the pair where there is none and reads
  the public half back, each by file operations of which any may fail.  Its text is not
  looked at before `fingerprint`, which splits it and decodes its second field: a file
  cut short raises there, and not as an `OSError`.
-/
import SeapathWebui.Foundation.Files
import SeapathWebui.Trust.SelfTrust

set_option autoImplicit false

namespace SeapathWebui.Trust

open SeapathWebui.Foundation SeapathWebui.Foundation.Text

/-- `MissingAccount`: the directory does not exist, or the file cannot be read. -/
inductive MissingAccount
  | noDirectory
  | unreadable (e : OsError)
  deriving DecidableEq, Repr

/-! ## The fingerprint of a key -/

/-- The six bits a character stands for. -/
def base64Value? (c : Char) : Option Nat :=
  if 'A' ≤ c ∧ c ≤ 'Z' then some (c.toNat - 'A'.toNat)
  else if 'a' ≤ c ∧ c ≤ 'z' then some (c.toNat - 'a'.toNat + 26)
  else if '0' ≤ c ∧ c ≤ '9' then some (c.toNat - '0'.toNat + 52)
  else if c = '+' then some 62
  else if c = '/' then some 63
  else none

/-- `binascii.a2b_base64`: `quad` counts the characters of the current group of four,
`pads` the padding since the last of them, and `left` holds the bits not yet written.
Other characters are skipped.  What comes after a complete padding is not read; where
there is none, a group that is left incomplete raises. -/
def a2bFrom (quad pads left : Nat) : List Char → Option (List Nat)
  | [] => if quad = 0 then some [] else none
  | c :: rest =>
      if c = '=' then
        if 2 ≤ quad then
          if 4 ≤ quad + (pads + 1) then some [] else a2bFrom quad (pads + 1) left rest
        else a2bFrom quad pads left rest
      else
        match base64Value? c with
        | none => a2bFrom quad pads left rest
        | some bits =>
            match quad with
            | 0 => a2bFrom 1 0 bits rest
            | 1 => (a2bFrom 2 0 (bits % 16) rest).map ((left * 4 + bits / 16) :: ·)
            | 2 => (a2bFrom 3 0 (bits % 4) rest).map ((left * 16 + bits / 4) :: ·)
            | _ => (a2bFrom 0 0 0 rest).map ((left * 64 + bits) :: ·)

/-- `base64.b64decode`, as bytes; `none` is the `ValueError`. -/
def b64decode (text : String) : Option (List Nat) :=
  if text.toList.all fun c => c.toNat < 128 then a2bFrom 0 0 0 text.toList else none

variable {σ : Type}

/-- `KeyPair.fingerprint`.  `digest` is the text of the hash: its base64, without the
padding. -/
def fingerprint (digest : List Nat → String) (publicKey : String) : Except (Exc σ) String :=
  match (fields publicKey)[1]? with
  | none => .error .index
  | some field =>
      match b64decode field with
      | none => .error .value
      | some blob => .ok ("SHA256:" ++ digest blob)

/-- The second field of the key is there and is base64. -/
def HasBlob (publicKey : String) : Prop :=
  ∃ field, (fields publicKey)[1]? = some field ∧ (b64decode field).isSome = true

instance (publicKey : String) : Decidable (HasBlob publicKey) :=
  decidable_of_iff (((fields publicKey)[1]?.bind b64decode).isSome = true) <| by
    cases h : (fields publicKey)[1]? with
    | none => simp [HasBlob, h]
    | some field => simp [HasBlob, h]

/-- The fingerprint raises no `OSError`, so no clause for one helps it. -/
theorem raisesOnly_fingerprint {p : Exc σ → Prop} (hvalue : ¬ p .value) (hindex : ¬ p .index)
    {digest : List Nat → String} {publicKey : String} :
    RaisesOnly p (fingerprint digest publicKey) ↔ HasBlob publicKey := by
  unfold fingerprint HasBlob
  cases h : (fields publicKey)[1]? with
  | none => simp [hindex]
  | some field => cases hb : b64decode field <;> simp [hb, hvalue]

/-! ## The key pair -/

/-- The answers to the file operations of `ensure_key_pair`, in their order. -/
structure KeyFiles where
  makeDirectory : Answer Unit
  changeMode : Answer Unit
  /-- the `stat` of `private_key_file.exists()` -/
  privateKey : Answer Unit
  /-- opening, writing and `chmod` of `_write_private` -/
  writePrivate : List (Answer Unit)
  writePublic : Answer Unit
  readPublic : Answer ByteArray

/-- `ensure_key_pair` as far as the pair is there, generated where it was not. -/
def generateKeyPair (files : KeyFiles) : Except (Exc σ) Unit := do
  perform [files.makeDirectory, files.changeMode]
  let present ← pathExists files.privateKey
  perform (if present then [] else files.writePrivate ++ [files.writePublic])

/-- `ensure_key_pair`: the public key of the pair. -/
def ensureKeyPair (files : KeyFiles) : Except (Exc σ) String := do
  generateKeyPair files
  let text ← readText files.readPublic
  pure (publicKeyOf text)

/-- The directory is there, and the pair is, or is generated. -/
structure KeyFiles.Ready (files : KeyFiles) : Prop where
  directory : Returns files.makeDirectory ∧ Returns files.changeMode
  privateKey : Answered files.privateKey
  generated : files.privateKey ≠ .ok () →
    ∀ a ∈ files.writePrivate ++ [files.writePublic], Returns a

/-- The key pair can be had, and this is its public half. -/
def KeyFiles.Gives (files : KeyFiles) (publicKey : String) : Prop :=
  files.Ready ∧ ∃ text, Holds files.readPublic text ∧ publicKey = publicKeyOf text

theorem returns_generateKeyPair {files : KeyFiles} :
    Returns (generateKeyPair files : Except (Exc σ) Unit) ↔ files.Ready := by
  have hdirectory : (∀ a ∈ [files.makeDirectory, files.changeMode], Returns a) ↔
      Returns files.makeDirectory ∧ Returns files.changeMode := by simp
  rw [generateKeyPair, returns_seq, returns_bind, returns_perform, returns_pathExists, hdirectory]
  constructor
  · rintro ⟨hmade, hanswered, h⟩
    refine ⟨hmade, hanswered, fun hne => ?_⟩
    exact returns_perform.mp (h false (pathExists_eq_false.mpr ⟨hanswered, hne⟩))
  · intro h
    refine ⟨h.directory, h.privateKey, fun present hpresent => ?_⟩
    cases present with
    | true => exact returns_ok ()
    | false => exact returns_perform.mpr (h.generated (pathExists_eq_false.mp hpresent).2)

theorem raisesOnly_generateKeyPair {p : Exc σ → Prop} (hos : ∀ e, p (.os e)) (files : KeyFiles) :
    RaisesOnly p (generateKeyPair files) := by
  refine raisesOnly_seq.mpr ⟨raisesOnly_perform hos _, fun _ => ?_⟩
  refine raisesOnly_bind.mpr ⟨raisesOnly_pathExists hos _, fun _ _ => ?_⟩
  exact raisesOnly_perform hos _

theorem ensureKeyPair_eq_ok {files : KeyFiles} {publicKey : String} :
    (ensureKeyPair files : Except (Exc σ) String) = .ok publicKey ↔ files.Gives publicKey := by
  rw [ensureKeyPair, seq_eq_ok, returns_generateKeyPair, bind_pure_eq_ok]
  simp only [readText_eq_ok, KeyFiles.Gives]

/-- Loading the pair raises an `OSError`, except where the public half is there to be read
and is not a text. -/
theorem raisesOnly_ensureKeyPair {p : Exc σ → Prop} (hos : ∀ e, p (.os e))
    (hvalue : ¬ p .value) {files : KeyFiles} :
    RaisesOnly p (ensureKeyPair files) ↔ (files.Ready → Decodable files.readPublic) := by
  rw [ensureKeyPair, raisesOnly_seq, returns_generateKeyPair, raisesOnly_bind_pure,
    raisesOnly_readText hos hvalue]
  exact and_iff_right (raisesOnly_generateKeyPair hos files)

end SeapathWebui.Trust
