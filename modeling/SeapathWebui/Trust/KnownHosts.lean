/-
  Trust/KnownHosts.lean --- the host keys of the machine itself.

  Source: app/trust/known_hosts.py.

  The public host keys are read off the file system and written, under every name of the
  machine, to a file that belongs to the service alone.  A key file that cannot be read
  is left out; one that is read and is no text raises, and so does a file of known hosts
  that is no text (`raisesOnly_ensureLocal`).
-/
import SeapathWebui.Foundation.Files
import SeapathWebui.Foundation.Lines

set_option autoImplicit false

namespace SeapathWebui.Trust.KnownHosts

open SeapathWebui.Foundation SeapathWebui.Foundation.Text

/-- `_HEADER` -/
def header : String :=
  "# Generated by seapath-webui from the host's own public host keys.\n" ++
    "# Read from the filesystem, never from the network.\n"

/-- The `<type> <blob>` of a host key file, without a comment. -/
def hostKey? (content : String) : Option String :=
  match fields (strip (universalNewlines content)) with
  | kind :: blob :: _ => some (kind ++ " " ++ blob)
  | _ => none

/-- `render`: one line per name and per key, sorted. -/
def render (entries : Dict String (List String)) : String :=
  header ++ String.join ((entries.keys.insertionSort (· ≤ ·)).flatMap fun name =>
    (((entries.get? name).getD []).insertionSort (· ≤ ·)).map fun key =>
      name ++ " " ++ key ++ "\n")

/-- The answers to the file operations of `ensure_local`. -/
structure KnownHostsFiles where
  ed25519Key : Answer ByteArray
  ecdsaKey : Answer ByteArray
  makeDirectory : Answer Unit
  /-- the `stat` of `known_hosts_file.exists()` -/
  present : Answer Unit
  read : Answer ByteArray
  write : Answer Unit

/-- `_HOST_KEY_FILES` -/
def KnownHostsFiles.hostKeyFiles (files : KnownHostsFiles) : List (Answer ByteArray) :=
  [files.ed25519Key, files.ecdsaKey]

variable {σ : Type}

/-- One round of `read_local_host_keys`. -/
def readHostKey (file : Answer ByteArray) : Except (Exc σ) (Option String) := do
  let content ← attempt Exc.isOs (readText file)
  pure (content.bind hostKey?)

/-- `read_local_host_keys` -/
def readLocalHostKeys (files : KnownHostsFiles) : Except (Exc σ) (List String) := do
  let keys ← files.hostKeyFiles.mapM readHostKey
  pure (keys.filterMap id)

/-- `known_hosts_file.exists() and known_hosts_file.read_text() == content` -/
def unchanged (files : KnownHostsFiles) (content : String) : Except (Exc σ) Bool := do
  let present ← pathExists files.present
  if present then do
    let text ← readText files.read
    pure (universalNewlines text = content)
  else pure false

/-- `ensure_local`, once there is a key to record. -/
def record (files : KnownHostsFiles) (content : String) : Except (Exc σ) Bool := do
  call files.makeDirectory
  let same ← unchanged files content
  if same then pure false
  else do
    call files.write
    pure true

/-- `ensure_local`: whether the file changed. -/
def ensureLocal (files : KnownHostsFiles) (names : List String) : Except (Exc σ) Bool := do
  let keys ← readLocalHostKeys files
  if keys = [] then pure false
  else
    let entries := (names.filter fun name => name ≠ "").map fun name => (name, keys)
    record files (render (Dict.ofList entries))

/-! ## What it raises -/

/-- The key of a file, where it is read. -/
def keyOf (file : Answer ByteArray) : Option String :=
  match file with
  | .ok bytes => (String.fromUTF8? bytes).bind hostKey?
  | .error _ => none

/-- What is read is text. -/
structure KnownHostsFiles.Readable (files : KnownHostsFiles) : Prop where
  hostKeys : ∀ file ∈ files.hostKeyFiles, Decodable file
  known : files.hostKeyFiles.filterMap keyOf ≠ [] → Returns files.makeDirectory →
    files.present = .ok () → Decodable files.read

theorem isOs_os (e : OsError) : (Exc.os e : Exc σ).isOs = true := rfl

theorem not_isOs_value : ¬ (Exc.value : Exc σ).isOs = true := Bool.false_ne_true

theorem returns_readHostKey {file : Answer ByteArray} :
    Returns (readHostKey file : Except (Exc σ) (Option String)) ↔ Decodable file := by
  rw [readHostKey, returns_bind_pure, returns_attempt,
    raisesOnly_readText isOs_os not_isOs_value]

theorem readHostKey_eq_ok {file : Answer ByteArray} (h : Decodable file) :
    (readHostKey file : Except (Exc σ) (Option String)) = .ok (keyOf file) := by
  cases file with
  | error e => rfl
  | ok bytes =>
      cases hbytes : String.fromUTF8? bytes with
      | none => exact absurd (h bytes rfl) (fromUTF8?_eq_none.mp hbytes)
      | some content =>
          have hread : (readText (.ok bytes) : Except (Exc σ) String) = .ok content :=
            readText_eq_ok.mpr ⟨bytes, rfl, hbytes⟩
          rw [readHostKey, hread, keyOf, hbytes]
          rfl

/-- No key file raises an `OSError`. -/
theorem raisesOnly_readHostKey (file : Answer ByteArray) :
    RaisesOnly (fun e : Exc σ => ¬ e.isOs = true) (readHostKey file) := by
  rw [readHostKey, raisesOnly_bind_pure, raisesOnly_attempt]
  exact fun e _ => em (e.isOs = true)

theorem raisesOnly_readLocalHostKeys {files : KnownHostsFiles} :
    RaisesOnly (fun e : Exc σ => e.isOs = true) (readLocalHostKeys files) ↔
      ∀ file ∈ files.hostKeyFiles, Decodable file := by
  have hloop : RaisesOnly (fun e : Exc σ => ¬ e.isOs = true)
      (files.hostKeyFiles.mapM readHostKey) :=
    raisesOnly_mapM fun file _ => raisesOnly_readHostKey file
  rw [readLocalHostKeys, raisesOnly_bind_pure, raisesOnly_iff_returns hloop, returns_mapM]
  simp only [returns_readHostKey]

theorem readLocalHostKeys_eq_ok {files : KnownHostsFiles}
    (h : ∀ file ∈ files.hostKeyFiles, Decodable file) :
    (readLocalHostKeys files : Except (Exc σ) (List String)) =
      .ok (files.hostKeyFiles.filterMap keyOf) := by
  rw [readLocalHostKeys, mapM_of_forall_eq_ok fun file hfile => readHostKey_eq_ok (h file hfile)]
  exact congrArg Except.ok (List.filterMap_map ..)

theorem raisesOnly_record {files : KnownHostsFiles} {content : String} :
    RaisesOnly (fun e : Exc σ => e.isOs = true) (record files content) ↔
      (Returns files.makeDirectory → files.present = .ok () → Decodable files.read) := by
  have hrest : ∀ same : Bool, RaisesOnly (fun e : Exc σ => e.isOs = true)
      (if same then pure false else do call files.write; pure true) := by
    intro same
    cases same with
    | true => exact raisesOnly_pure false
    | false =>
        exact raisesOnly_seq.mpr ⟨raisesOnly_call isOs_os _, fun _ => raisesOnly_pure true⟩
  have hunchanged : RaisesOnly (fun e : Exc σ => e.isOs = true) (unchanged files content) ↔
      (files.present = .ok () → Decodable files.read) := by
    rw [unchanged, raisesOnly_bind, and_iff_right (raisesOnly_pathExists isOs_os _)]
    have hread := raisesOnly_readText (p := fun e : Exc σ => e.isOs = true) isOs_os
      not_isOs_value (a := files.read)
    constructor
    · intro h hpresent
      exact hread.mp (raisesOnly_bind_pure.mp (h true (pathExists_eq_true.mpr hpresent)))
    · intro h present hpresent
      cases present with
      | true => exact raisesOnly_bind_pure.mpr (hread.mpr (h (pathExists_eq_true.mp hpresent)))
      | false => exact raisesOnly_pure false
  rw [record, raisesOnly_seq, and_iff_right (raisesOnly_call isOs_os _), returns_call,
    raisesOnly_bind, hunchanged, and_iff_left fun same _ => hrest same]

/-- The clause for `OSError` is enough around texts, whatever operation fails. -/
theorem raisesOnly_ensureLocal {files : KnownHostsFiles} {names : List String} :
    RaisesOnly (fun e : Exc σ => e.isOs = true) (ensureLocal files names) ↔ files.Readable := by
  rw [ensureLocal, raisesOnly_bind, raisesOnly_readLocalHostKeys]
  constructor
  · rintro ⟨hkeys, h⟩
    refine ⟨hkeys, fun hne => ?_⟩
    have hrecord := h _ (readLocalHostKeys_eq_ok hkeys)
    rw [if_neg hne] at hrecord
    exact raisesOnly_record.mp hrecord
  · intro h
    refine ⟨h.hostKeys, fun keys hkeys => ?_⟩
    obtain rfl := Except.ok.inj ((readLocalHostKeys_eq_ok h.hostKeys).symm.trans hkeys)
    split
    · exact raisesOnly_pure false
    · rename_i hne
      exact raisesOnly_record.mpr (h.known hne)

end SeapathWebui.Trust.KnownHosts
