/-
  Trust/Provisioning.lean --- the self trust, by file operations that may fail.

  Source: `_read`, `_write` and `install` of app/trust/authorized_keys.py, and
  `ensure_self_trust` of app/trust/service.py.

  Trust/AuthorizedKeys.lean and Trust/SelfTrust.lean say which text an edit writes.  Here
  the text is read from a file and written to one, by operations of which any may fail;
  where none does, what is returned is what the text alone gives (`ensureSelfTrust_eq_ok`).

  The clauses around the provisioning are for `MissingAccount` and `OSError`.  They are
  enough exactly if what is read is text, and the key has a fingerprint
  (`raisesOnly_ensureSelfTrust`).
-/
import SeapathWebui.Trust.Keys

set_option autoImplicit false

namespace SeapathWebui.Trust

open SeapathWebui.Foundation SeapathWebui.Foundation.Text

/-! ## Writing the file -/

/-- The answers to the file operations of `_write`. -/
structure WriteFiles where
  /-- the `stat` of `path.exists()` -/
  present : Answer Unit
  /-- `path.stat()` -/
  stat : Answer Unit
  openTemporary : Answer Unit
  /-- write, flush and `fsync` -/
  writeTemporary : List (Answer Unit)
  changeMode : Answer Unit
  parentStat : Answer Unit
  changeOwner : Answer Unit
  replace : Answer Unit
  unlinkTemporary : Answer Unit

variable {σ : Type} {p : Exc σ → Prop}

/-- `_restore_owner`: only root may give a file away. -/
def restoreOwner (chown : Answer Unit) : Except (Exc σ) Unit :=
  match chown with
  | .error .permission => .ok ()
  | .ok () | .error _ => call chown

/-- The `try` block of `_write`. -/
def replaceFile (files : WriteFiles) (present : Bool) : Except (Exc σ) Unit := do
  perform files.writeTemporary
  perform (if present then [files.changeMode] else [files.changeMode, files.parentStat])
  restoreOwner files.changeOwner
  call files.replace

/-- `_write` -/
def writeFile (files : WriteFiles) : Except (Exc σ) Unit := do
  let present ← pathExists files.present
  perform (if present then [files.stat] else [])
  call files.openTemporary
  cleanUp Exc.isOs (unlinkMissingOk files.unlinkTemporary) (replaceFile files present)

/-- Every operation that a write comes to is answered; the owner may stay. -/
structure WriteFiles.Written (files : WriteFiles) : Prop where
  present : Answered files.present
  opened : Returns files.openTemporary
  written : ∀ a ∈ files.writeTemporary, Returns a
  mode : Returns files.changeMode
  stat : if files.present = .ok () then Returns files.stat else Returns files.parentStat
  owner : ∀ e, files.changeOwner = .error e → e = .permission
  replaced : Returns files.replace

theorem returns_restoreOwner {chown : Answer Unit} :
    Returns (restoreOwner chown : Except (Exc σ) Unit) ↔
      ∀ e, chown = .error e → e = .permission := by
  cases chown with
  | ok u => simp [restoreOwner]
  | error e => cases e <;> simp [restoreOwner, call]

theorem raisesOnly_restoreOwner (hos : ∀ e, p (.os e)) (chown : Answer Unit) :
    RaisesOnly p (restoreOwner chown) := by
  cases chown with
  | ok u => exact raisesOnly_ok ()
  | error e => cases e <;> simp [restoreOwner, call, hos]

theorem returns_replaceFile {files : WriteFiles} {present : Bool} :
    Returns (replaceFile files present : Except (Exc σ) Unit) ↔
      (∀ a ∈ files.writeTemporary, Returns a) ∧
      (Returns files.changeMode ∧ (present = false → Returns files.parentStat)) ∧
      (∀ e, files.changeOwner = .error e → e = .permission) ∧ Returns files.replace := by
  rw [replaceFile, returns_seq, returns_seq, returns_seq, returns_perform, returns_perform,
    returns_restoreOwner, returns_call]
  cases present with
  | true => simp
  | false => simp

theorem raisesOnly_replaceFile (hos : ∀ e, p (.os e)) (files : WriteFiles) (present : Bool) :
    RaisesOnly p (replaceFile files present) := by
  refine raisesOnly_seq.mpr ⟨raisesOnly_perform hos _, fun _ => ?_⟩
  refine raisesOnly_seq.mpr ⟨raisesOnly_perform hos _, fun _ => ?_⟩
  refine raisesOnly_seq.mpr ⟨raisesOnly_restoreOwner hos _, fun _ => ?_⟩
  exact raisesOnly_call hos _

theorem returns_writeFile {files : WriteFiles} :
    Returns (writeFile files : Except (Exc σ) Unit) ↔ files.Written := by
  rw [writeFile, returns_bind, returns_pathExists]
  simp only [returns_seq, returns_perform, returns_call, returns_cleanUp, returns_replaceFile]
  constructor
  · rintro ⟨hanswered, h⟩
    by_cases hpresent : files.present = .ok ()
    · obtain ⟨hstat, hopened, hwritten, ⟨hmode, -⟩, howner, hreplaced⟩ :=
        h true (pathExists_eq_true.mpr hpresent)
      exact ⟨hanswered, hopened, hwritten, hmode, by simpa [hpresent] using hstat, howner,
        hreplaced⟩
    · obtain ⟨-, hopened, hwritten, ⟨hmode, hparent⟩, howner, hreplaced⟩ :=
        h false (pathExists_eq_false.mpr ⟨hanswered, hpresent⟩)
      exact ⟨hanswered, hopened, hwritten, hmode, by simpa [hpresent] using hparent rfl, howner,
        hreplaced⟩
  · intro h
    refine ⟨h.present, fun present heq => ?_⟩
    have hstat := h.stat
    cases present with
    | true =>
        rw [if_pos (pathExists_eq_true.mp heq)] at hstat
        exact ⟨by simpa using hstat, h.opened, h.written, ⟨h.mode, by simp⟩, h.owner, h.replaced⟩
    | false =>
        rw [if_neg (pathExists_eq_false.mp heq).2] at hstat
        exact ⟨by simp, h.opened, h.written, ⟨h.mode, fun _ => hstat⟩, h.owner, h.replaced⟩

theorem raisesOnly_writeFile (hos : ∀ e, p (.os e)) (files : WriteFiles) :
    RaisesOnly p (writeFile files) := by
  refine raisesOnly_bind.mpr ⟨raisesOnly_pathExists hos _, fun present _ => ?_⟩
  refine raisesOnly_seq.mpr ⟨raisesOnly_perform hos _, fun _ => ?_⟩
  refine raisesOnly_seq.mpr ⟨raisesOnly_call hos _, fun _ => ?_⟩
  exact raisesOnly_cleanUp (raisesOnly_replaceFile hos _ _) (raisesOnly_unlinkMissingOk hos _)

/-! ## Editing the file -/

/-- The answers to the file operations of `install`. -/
structure AuthorizedKeysFile where
  read : Answer ByteArray
  /-- `path.parent.is_dir()` -/
  parent : Answer Bool
  write : WriteFiles

/-- The file is read as this text: it has it, or there is none in a directory there is. -/
def AuthorizedKeysFile.Reads (file : AuthorizedKeysFile) (text : String) : Prop :=
  Holds file.read text ∨ (file.read = .error .noEntry ∧ file.parent = .ok true ∧ text = "")

/-- What `_read` makes of a file that is not there. -/
def missingFile (parent : Answer Bool) : Except (Exc MissingAccount) String := do
  let present ← pathQuery parent
  if present then .ok "" else .error (.own .noDirectory)

/-- `_read`, as the text whose lines it returns. -/
def readFile (file : AuthorizedKeysFile) : Except (Exc MissingAccount) String :=
  match file.read with
  | .ok bytes => decodeText bytes
  | .error .noEntry => missingFile file.parent
  | .error e => .error (.own (.unreadable e))

/-- `install`: whether the file changed. -/
def AuthorizedKeysFile.install (file : AuthorizedKeysFile) (key : AuthorizedKey) :
    Except (Exc MissingAccount) Bool := do
  let text ← readFile file
  match Trust.install text key with
  | none => pure false
  | some _ => do
      writeFile file.write
      pure true

/-- The file was edited, or had nothing to edit. -/
def AuthorizedKeysFile.Edited (file : AuthorizedKeysFile) (text : String)
    (key : AuthorizedKey) : Prop := Trust.install text key = none ∨ file.write.Written

theorem missingFile_eq_ok {parent : Answer Bool} {text : String} :
    missingFile parent = .ok text ↔ parent = .ok true ∧ text = "" := by
  rw [missingFile, bind_eq_ok]
  constructor
  · rintro ⟨present, hpresent, h⟩
    cases present with
    | true => exact ⟨pathQuery_eq_true.mp hpresent, (Except.ok.inj h).symm⟩
    | false => cases h
  · rintro ⟨hparent, rfl⟩
    exact ⟨true, pathQuery_eq_true.mpr hparent, rfl⟩

theorem readFile_eq_ok {file : AuthorizedKeysFile} {text : String} :
    readFile file = .ok text ↔ file.Reads text := by
  unfold readFile AuthorizedKeysFile.Reads Holds
  cases hread : file.read with
  | ok bytes => simp [decodeText_eq_ok]
  | error e => cases e <;> simp [missingFile_eq_ok]

section
variable {p : Exc MissingAccount → Prop} (hos : ∀ e, p (.os e)) (hown : ∀ e, p (.own e))
include hos hown

theorem raisesOnly_missingFile (parent : Answer Bool) : RaisesOnly p (missingFile parent) := by
  refine raisesOnly_bind.mpr ⟨raisesOnly_pathQuery hos parent, fun present _ => ?_⟩
  cases present with
  | true => exact raisesOnly_ok ""
  | false => exact raisesOnly_error.mpr (hown _)

theorem raisesOnly_readFile (hvalue : ¬ p .value) {file : AuthorizedKeysFile} :
    RaisesOnly p (readFile file) ↔ Decodable file.read := by
  unfold readFile Decodable
  cases hread : file.read with
  | ok bytes => simp [raisesOnly_decodeText hvalue]
  | error e => cases e <;> simp [raisesOnly_missingFile hos hown, hown]

end

/-- An edit returns where the file is read, and written if there is something to write. -/
theorem install_eq_ok {file : AuthorizedKeysFile} {key : AuthorizedKey} {changed : Bool} :
    file.install key = .ok changed ↔ ∃ text, file.Reads text ∧ file.Edited text key ∧
      changed = (Trust.install text key).isSome := by
  simp only [AuthorizedKeysFile.install, bind_eq_ok, readFile_eq_ok]
  refine exists_congr fun text => and_congr_right fun _ => ?_
  unfold AuthorizedKeysFile.Edited
  cases Trust.install text key with
  | none => simp [pure, Except.pure, eq_comm]
  | some written =>
      simp only [seq_eq_ok, returns_writeFile]
      simp [pure, Except.pure, eq_comm]

section
variable {p : Exc MissingAccount → Prop} (hos : ∀ e, p (.os e)) (hown : ∀ e, p (.own e))
include hos hown

theorem raisesOnly_install (hvalue : ¬ p .value) {file : AuthorizedKeysFile}
    {key : AuthorizedKey} : RaisesOnly p (file.install key) ↔ Decodable file.read := by
  rw [AuthorizedKeysFile.install, raisesOnly_bind, raisesOnly_readFile hos hown hvalue]
  refine and_iff_left fun text _ => ?_
  split
  · exact raisesOnly_pure false
  · exact raisesOnly_seq.mpr ⟨raisesOnly_writeFile hos _, fun _ => raisesOnly_pure true⟩

end

/-! ## The self trust -/

/-- The answers to the file operations of `ensure_self_trust`. -/
structure TrustFiles where
  key : KeyFiles
  authorizedKeys : AuthorizedKeysFile

variable (digest : List Nat → String)

/-- The relation `ensure_self_trust` returns, once its line is there. -/
def selfRelation (key : AuthorizedKey) (hostname print : String) : TrustRelation where
  comment := key.comment
  peer := hostname
  kind := "self"
  fingerprint := print
  fromAddresses := key.fromAddresses
  installed := true

/-- `ensure_self_trust`: the relation, and whether the file changed. -/
def TrustFiles.ensureSelfTrust (files : TrustFiles) (hostname : String)
    (addresses : List String) : Except (Exc MissingAccount) (TrustRelation × Bool) := do
  let publicKey ← ensureKeyPair files.key
  let key := selfKey publicKey hostname addresses
  let changed ← files.authorizedKeys.install key
  let print ← fingerprint digest publicKey
  pure (selfRelation key hostname print, changed)

/-- Where the files answer, the self trust is what their texts give. -/
theorem ensureSelfTrust_eq_ok {files : TrustFiles} {hostname : String}
    {addresses : List String} {result : TrustRelation × Bool}
    (h : files.ensureSelfTrust digest hostname addresses = .ok result) :
    ∃ keyFile text, Holds files.key.readPublic keyFile ∧ files.authorizedKeys.Reads text ∧
      (ensureSelfTrust
        (fun key => (fingerprint digest key : Except (Exc MissingAccount) String).toOption)
        keyFile text hostname addresses).2 = some result := by
  obtain ⟨publicKey, hkey, h⟩ := bind_eq_ok.mp h
  obtain ⟨changed, hinstall, h⟩ := bind_eq_ok.mp h
  obtain ⟨print, hprint, h⟩ := bind_eq_ok.mp h
  obtain ⟨-, keyFile, hkeyFile, rfl⟩ := ensureKeyPair_eq_ok.mp hkey
  obtain ⟨text, htext, -, rfl⟩ := install_eq_ok.mp hinstall
  refine ⟨keyFile, text, hkeyFile, htext, ?_⟩
  obtain rfl := Except.ok.inj h
  simp [ensureSelfTrust, selfRelation, hprint, Except.toOption]

/-- What is read is text, and a key that gets as far has a fingerprint. -/
structure TrustFiles.Readable (files : TrustFiles) (hostname : String)
    (addresses : List String) : Prop where
  publicKey : files.key.Ready → Decodable files.key.readPublic
  authorizedKeys : ∀ publicKey, files.key.Gives publicKey → Decodable files.authorizedKeys.read
  blob : ∀ publicKey text, files.key.Gives publicKey → files.authorizedKeys.Reads text →
    files.authorizedKeys.Edited text (selfKey publicKey hostname addresses) → HasBlob publicKey

/-- The clauses for `MissingAccount` and `OSError` are enough around a text that can be
decoded, whatever operation fails, and around no other. -/
theorem raisesOnly_ensureSelfTrust {p : Exc MissingAccount → Prop} (hos : ∀ e, p (.os e))
    (hown : ∀ e, p (.own e)) (hvalue : ¬ p .value) (hindex : ¬ p .index) {files : TrustFiles}
    {hostname : String} {addresses : List String} :
    RaisesOnly p (files.ensureSelfTrust digest hostname addresses) ↔
      files.Readable hostname addresses := by
  have hprint : ∀ (publicKey : String) (changed : Bool),
      RaisesOnly p (do
        let print ← fingerprint digest publicKey
        pure (selfRelation (selfKey publicKey hostname addresses) hostname print, changed)) ↔
      HasBlob publicKey := fun _ _ =>
    raisesOnly_bind_pure.trans (raisesOnly_fingerprint hvalue hindex)
  rw [TrustFiles.ensureSelfTrust, raisesOnly_bind, raisesOnly_ensureKeyPair hos hvalue]
  simp only [ensureKeyPair_eq_ok]
  constructor
  · rintro ⟨hpublicKey, h⟩
    refine ⟨hpublicKey, fun publicKey hgives => ?_, fun publicKey text hgives htext hedited => ?_⟩
    · exact (raisesOnly_install hos hown hvalue).mp (raisesOnly_bind.mp (h publicKey hgives)).1
    · have hrest := (raisesOnly_bind.mp (h publicKey hgives)).2
      exact (hprint publicKey _).mp (hrest _ (install_eq_ok.mpr ⟨text, htext, hedited, rfl⟩))
  · intro h
    refine ⟨h.publicKey, fun publicKey hgives => raisesOnly_bind.mpr ⟨?_, fun changed heq => ?_⟩⟩
    · exact (raisesOnly_install hos hown hvalue).mpr (h.authorizedKeys publicKey hgives)
    · obtain ⟨text, htext, hedited, -⟩ := install_eq_ok.mp heq
      exact (hprint publicKey changed).mpr (h.blob publicKey text hgives htext hedited)

end SeapathWebui.Trust
