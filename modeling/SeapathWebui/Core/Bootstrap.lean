/-
  Core/Bootstrap.lean --- what happens at every start, and what may stop it.

  Source: app/core/bootstrap.py.

  The start takes five steps, each under a clause of its own or under none.  It is run
  here against the answers of the system to every file operation it makes, so that files
  of any content and operations that fail are all covered.

  Its own description says that nothing here may stop the service from starting.  What
  does stop it is `Starts` negated: the account files, the markers of the interfaces and
  the run store are asked outside every clause, and the clauses around the self trust and
  the host keys let through what decoding a file raises.
-/
import SeapathWebui.Hosts.Local
import SeapathWebui.Runs.Reconcile
import SeapathWebui.Trust.KnownHosts
import SeapathWebui.Trust.Provisioning

set_option autoImplicit false

namespace SeapathWebui.Core

open SeapathWebui.Foundation SeapathWebui.Hosts SeapathWebui.Runs SeapathWebui.Trust

/-! ## The account files -/

/-- The answers about an account file. -/
structure AccountFile where
  /-- `is_symlink()` -/
  symlink : Answer Bool
  /-- the `stat` of `exists()` -/
  target : Answer Unit

/-- A symlink that leads nowhere. -/
def AccountFile.dangling {σ : Type} (file : AccountFile) : Except (Exc σ) Bool := do
  let symlink ← pathQuery file.symlink
  if symlink then do
    let present ← pathExists file.target
    pure !present
  else pure false

/-- `check_account_files`: the paths that lead nowhere. -/
def checkAccountFiles {σ : Type} (files : List (String × AccountFile)) :
    Except (Exc σ) (List String) := do
  let missing ← files.mapM fun file => do
    let dangling ← file.2.dangling
    pure (if dangling then some file.1 else none)
  pure (missing.filterMap id)

/-- Both questions about an account file are answered, as far as they are asked. -/
structure AccountFile.Readable (file : AccountFile) : Prop where
  symlink : Answered file.symlink
  target : file.symlink = .ok true → Answered file.target

theorem returns_dangling {σ : Type} {file : AccountFile} :
    Returns (file.dangling : Except (Exc σ) Bool) ↔ file.Readable := by
  rw [AccountFile.dangling, returns_bind, returns_pathQuery]
  constructor
  · rintro ⟨hsymlink, h⟩
    refine ⟨hsymlink, fun htrue => ?_⟩
    exact returns_pathExists.mp (returns_bind_pure.mp (h true (pathQuery_eq_true.mpr htrue)))
  · intro h
    refine ⟨h.symlink, fun symlink hsymlink => ?_⟩
    cases symlink with
    | true =>
        have htarget := h.target (pathQuery_eq_true.mp hsymlink)
        exact returns_bind_pure.mpr (returns_pathExists.mpr htarget)
    | false => exact returns_ok false

theorem returns_checkAccountFiles {σ : Type} {files : List (String × AccountFile)} :
    Returns (checkAccountFiles files : Except (Exc σ) (List String)) ↔
      ∀ file ∈ files, file.2.Readable := by
  rw [checkAccountFiles, returns_bind_pure, returns_mapM]
  simp only [returns_bind_pure, returns_dangling]

/-! ## The start -/

/-- What a start finds: the answers to its file operations, and how `ensure_seed` ends,
whatever it raises. -/
structure Startup (τ : Type) where
  passwd : AccountFile
  group : AccountFile
  shadow : AccountFile
  network : NetworkFiles MissingAccount
  trust : TrustFiles
  knownHosts : KnownHosts.KnownHostsFiles
  seed : Except τ Bool
  runs : RunFiles

variable {τ : Type} (digest : List Nat → String) (parse : String → Option RunRecord)
  (now : Instant) (hostname : String)

/-- `_ACCOUNT_FILES` -/
def Startup.accountFiles (s : Startup τ) : List (String × AccountFile) :=
  [("/etc/passwd", s.passwd), ("/etc/group", s.group), ("/etc/shadow", s.shadow)]

/-- `except MissingAccount` and `except OSError`, around the self trust. -/
def isProvisioning : Exc MissingAccount → Bool
  | .own _ | .os _ => true
  | .value | .index => false

/-- `run_startup_tasks` -/
def runStartupTasks (s : Startup τ) : Except (Exc MissingAccount) Unit := do
  let _ ← checkAccountFiles s.accountFiles
  let addresses ← nodeAddresses s.network
  let _ ← attempt isProvisioning (s.trust.ensureSelfTrust digest hostname addresses)
  let names := [hostname] ++ addresses ++ ["127.0.0.1", "localhost"]
  let _ ← attempt Exc.isOs (KnownHosts.ensureLocal s.knownHosts names)
  -- the clause around the seed is for every exception
  let _ := s.seed.toOption
  let _ ← s.runs.reconcile parse now
  pure ()

/-- What a start has to find. -/
structure Startup.Starts (s : Startup τ) : Prop where
  accounts : ∀ file ∈ s.accountFiles, file.2.Readable
  network : s.network.Readable
  trust : s.trust.Readable hostname s.network.inet
  knownHosts : s.knownHosts.Readable
  runs : s.runs.Recovers parse

theorem returns_selfTrust {files : TrustFiles} {addresses : List String} :
    Returns (attempt isProvisioning (files.ensureSelfTrust digest hostname addresses)) ↔
      files.Readable hostname addresses := by
  rw [returns_attempt, raisesOnly_ensureSelfTrust digest (fun _ => rfl) (fun _ => rfl)
    Bool.false_ne_true Bool.false_ne_true]

theorem returns_knownHosts {files : KnownHosts.KnownHostsFiles} {names : List String} :
    Returns (attempt Exc.isOs
      (KnownHosts.ensureLocal files names : Except (Exc MissingAccount) Bool)) ↔
        files.Readable := by
  rw [returns_attempt, KnownHosts.raisesOnly_ensureLocal]

/-- The service starts exactly if every question that no clause covers is answered, and
every file that is read in the other steps is text. -/
theorem starts_iff (s : Startup τ) :
    Returns (runStartupTasks digest parse now hostname s) ↔ s.Starts parse hostname := by
  have hrest : ∀ addresses, Returns (do
      let _ ← attempt isProvisioning (s.trust.ensureSelfTrust digest hostname addresses)
      let _ ← attempt Exc.isOs (KnownHosts.ensureLocal s.knownHosts
        ([hostname] ++ addresses ++ ["127.0.0.1", "localhost"]))
      let _ ← s.runs.reconcile parse now
      pure ()) ↔
      s.trust.Readable hostname addresses ∧ s.knownHosts.Readable ∧ s.runs.Recovers parse := by
    intro addresses
    rw [returns_seq, returns_selfTrust, returns_seq, returns_knownHosts, returns_bind_pure,
      returns_reconcile]
  rw [runStartupTasks, returns_seq, returns_checkAccountFiles, returns_bind,
    returns_nodeAddresses]
  constructor
  · rintro ⟨haccounts, hnetwork, h⟩
    obtain ⟨addresses, haddresses⟩ := returns_nodeAddresses.mpr hnetwork
    obtain ⟨htrust, hknown, hruns⟩ := (hrest addresses).mp (h addresses haddresses)
    rw [nodeAddresses_eq_ok haddresses] at htrust
    exact ⟨haccounts, hnetwork, htrust, hknown, hruns⟩
  · intro h
    refine ⟨h.accounts, h.network, fun addresses haddresses => (hrest addresses).mpr ?_⟩
    rw [nodeAddresses_eq_ok haddresses]
    exact ⟨h.trust, h.knownHosts, h.runs⟩

/-- A first start on a machine with nothing but its `authorized_keys`: no interface, no
host key, no run. -/
def firstStart (authorizedKeys : ByteArray) : Startup Empty where
  passwd := ⟨.ok false, .ok ()⟩
  group := ⟨.ok false, .ok ()⟩
  shadow := ⟨.ok false, .ok ()⟩
  network := { addresses := .ok ∅, interfaces := .ok [] }
  trust :=
    { key :=
        { makeDirectory := .ok ()
          changeMode := .ok ()
          privateKey := .error .noEntry
          writePrivate := [.ok (), .ok (), .ok ()]
          writePublic := .ok ()
          readPublic := .ok "ssh-ed25519 AAAAC3NzaC1lZDI1NTE5\n".toUTF8 }
      authorizedKeys :=
        { read := .ok authorizedKeys
          parent := .ok true
          write :=
            { present := .ok ()
              stat := .ok ()
              openTemporary := .ok ()
              writeTemporary := [.ok (), .ok (), .ok ()]
              changeMode := .ok ()
              parentStat := .ok ()
              changeOwner := .ok ()
              replace := .ok ()
              unlinkTemporary := .ok () } } }
  knownHosts :=
    { ed25519Key := .error .noEntry
      ecdsaKey := .error .noEntry
      makeDirectory := .ok ()
      present := .error .noEntry
      read := .error .noEntry
      write := .ok () }
  seed := .ok false
  runs := { root := .ok false, entries := .error .noEntry, unlinkLock := .ok () }

/-- A site key with a comment in another encoding is enough. -/
theorem latin1_comment_stops_start :
    ¬ ∀ s : Startup Empty,
      Returns (runStartupTasks (fun _ => "") (fun _ => none) default "n" s) := by
  intro h
  have hraised : runStartupTasks (fun _ => "") (fun _ => none) default "n"
      (firstStart ("ssh-ed25519 AAAA caf".toUTF8.push 0xE9)) = .error .value := by
    decide +kernel
  have hreturns := h (firstStart ("ssh-ed25519 AAAA caf".toUTF8.push 0xE9))
  rw [hraised] at hreturns
  exact not_returns_error _ hreturns

end SeapathWebui.Core
