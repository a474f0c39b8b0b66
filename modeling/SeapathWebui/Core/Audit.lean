/-
  Core/Audit.lean --- the audit log.

  Source: `audit_event` of app/core/logging.py, and its callers: `login` and `logout` of
  app/api/v1/auth.py, `launch`, `cancel` and `_execute` of app/runs/service.py.

  An event is one message, its fields as assignments with blanks between them, in the order
  of their names.  A user name may hold any character, but the user is the last field
  wherever there is one, so what is before it reads in one way only (`eq_of_message`).  A line
  feed in the name breaks the line.
-/
import SeapathWebui.Core.Security
import SeapathWebui.Foundation.Assignments
import SeapathWebui.Inventory.Repository
import SeapathWebui.Runs.Catalogue
import SeapathWebui.Runs.Service

set_option autoImplicit false

namespace SeapathWebui.Core

open SeapathWebui.Foundation SeapathWebui.Foundation.Text SeapathWebui.Inventory
  SeapathWebui.Runs

/-! ## Events -/

/-- A value that a field is given. -/
inductive FieldValue
  | str (s : String)
  | bool (b : Bool)
  | none
  deriving DecidableEq, Repr

/-- `str(value)` -/
def FieldValue.text : FieldValue → String
  | .str s => s
  | .bool true => "True"
  | .bool false => "False"
  | .none => "None"

/-- `sorted(fields.items())`: no two keys are the same, so the values are not looked at. -/
def sortedItems (fields : Dict String FieldValue) : List (String × FieldValue) :=
  fields.entries.insertionSort fun f g => f.1 ≤ g.1

/-- The fields as `audit_event` renders them. -/
def rendered (fields : Dict String FieldValue) : String :=
  assignments ((sortedItems fields).map fun f => (f.1, f.2.text))

/-- `audit_event`: the message it logs. -/
def auditEvent (event : String) (fields : Dict String FieldValue) : String :=
  event ++ " " ++ rendered fields

/-- A call of `audit_event`. -/
structure AuditRecord where
  event : String
  fields : Dict String FieldValue
  deriving DecidableEq

/-- The message of the call. -/
def AuditRecord.message (r : AuditRecord) : String := auditEvent r.event r.fields

/-! ## Callers -/

/-- `RunState.value` -/
def runStateValue : RunState → String
  | .pending => "pending"
  | .running => "running"
  | .success => "success"
  | .failed => "failed"
  | .cancelled => "cancelled"
  | .interrupted => "interrupted"

/-- The `username` of a `LoginRequest`. -/
def IsUsername (s : String) : Prop := 1 ≤ s.length ∧ s.length ≤ 64

instance (s : String) : Decidable (IsUsername s) := inferInstanceAs (Decidable (_ ∧ _))

/-- A commit as git names it, in hexadecimal. -/
def IsObjectName (hash : Hash) : Prop :=
  hash ≠ "" ∧ ∀ c ∈ hash.toList, c ∈ "0123456789abcdef".toList

/-- The `commit` of `run.launched`. -/
def commitField : Option Hash → FieldValue
  | none => .none
  | some hash => .str hash

/-- What callers pass to `audit_event`.  The user of a run is the user of a session, which is
what a login was given; a run that is cancelled or finished was launched. -/
inductive Passed : AuditRecord → Prop
  | loginFailed {user : String} (huser : IsUsername user) :
      Passed ⟨"login.failed", Dict.ofList [("user", .str user)]⟩
  | loginDenied {user : String} (huser : IsUsername user) :
      Passed ⟨"login.denied", Dict.ofList [("user", .str user), ("reason", .str "no_role")]⟩
  | loginSucceeded {user : String} (huser : IsUsername user) (role : Role) :
      Passed ⟨"login.succeeded", Dict.ofList [("user", .str user), ("role", .str role.value)]⟩
  | logout {user : String} (huser : IsUsername user) :
      Passed ⟨"logout", Dict.ofList [("user", .str user)]⟩
  | runLaunched (now : Instant) {entry : PlaybookEntry} (hentry : entry ∈ catalogue)
      {user : String} (huser : IsUsername user) (check : Bool) {commit : Option Hash}
      (hcommit : ∀ hash, commit = some hash → IsObjectName hash) :
      Passed ⟨"run.launched", Dict.ofList [("run", .str (newRunId now)),
        ("playbook", .str entry.id), ("user", .str user), ("check", .bool check),
        ("commit", commitField commit)]⟩
  | runCancelRequested (now : Instant) :
      Passed ⟨"run.cancel_requested", Dict.ofList [("run", .str (newRunId now))]⟩
  | runFinished (now : Instant) (state : RunState) :
      Passed ⟨"run.finished", Dict.ofList [("run", .str (newRunId now)),
        ("state", .str (runStateValue state))]⟩

/-- The names of the fields of each event, as callers pass them. -/
def auditKeys : List (String × List String) :=
  [("login.failed", ["user"]),
    ("login.denied", ["user", "reason"]),
    ("login.succeeded", ["user", "role"]),
    ("logout", ["user"]),
    ("run.launched", ["run", "playbook", "user", "check", "commit"]),
    ("run.cancel_requested", ["run"]),
    ("run.finished", ["run", "state"])]

theorem Passed.keys {r : AuditRecord} (h : Passed r) : (r.event, r.fields.keys) ∈ auditKeys := by
  cases h with
  | loginFailed => exact List.mem_of_getElem? (i := 0) rfl
  | loginDenied => exact List.mem_of_getElem? (i := 1) rfl
  | loginSucceeded => exact List.mem_of_getElem? (i := 2) rfl
  | logout => exact List.mem_of_getElem? (i := 3) rfl
  | runLaunched => exact List.mem_of_getElem? (i := 4) rfl
  | runCancelRequested => exact List.mem_of_getElem? (i := 5) rfl
  | runFinished => exact List.mem_of_getElem? (i := 6) rfl

/-- A text without white space. -/
def IsWord (s : String) : Prop := ∀ c ∈ s.toList, isSpace c = false

instance (s : String) : Decidable (IsWord s) := List.decidableBAll _ _

/-- A value as the field of this name has it: only the user may have white space, a text is told
from what is not one. -/
structure Fits (key : String) (value : FieldValue) : Prop where
  plain : key ≠ "user" → IsWord value.text
  bool : (∃ b, value = .bool b) ↔ key = "check"
  none : value = .none → key = "commit"
  commit : key = "commit" → value ≠ .str "None"

theorem Fits.user (s : String) : Fits "user" (.str s) where
  plain h := absurd rfl h
  bool := by simp
  none := nofun
  commit := by simp

theorem Fits.check (b : Bool) : Fits "check" (.bool b) where
  plain _ := by cases b <;> decide
  bool := by simp
  none := nofun
  commit := by simp

theorem Fits.word {key s : String} (hcheck : key ≠ "check") (hcommit : key ≠ "commit")
    (h : IsWord s) : Fits key (.str s) where
  plain _ := h
  bool := by simp [hcheck]
  none := nofun
  commit heq := absurd heq hcommit

theorem Fits.run (now : Instant) : Fits "run" (.str (newRunId now)) :=
  .word (by decide) (by decide) (newRunId_no_space now)

theorem Fits.commitField {commit : Option Hash}
    (h : ∀ hash, commit = some hash → IsObjectName hash) : Fits "commit" (commitField commit) := by
  have hdigits : IsWord "0123456789abcdef" := by decide
  cases commit with
  | none => exact ⟨fun _ => by decide, by simp [Core.commitField], fun _ => rfl, nofun⟩
  | some hash =>
      obtain ⟨-, hhash⟩ := h hash rfl
      refine ⟨fun _ c hc => hdigits c (hhash c hc), by simp [Core.commitField], nofun, ?_⟩
      rintro - hnone
      obtain rfl := FieldValue.str.inj hnone
      exact absurd (hhash 'N' (by decide)) (by decide)

/-- Of two values of one field, the texts tell which is which. -/
theorem Fits.text_inj {key : String} {value value' : FieldValue} (h : Fits key value)
    (h' : Fits key value') (heq : value.text = value'.text) : value = value' := by
  cases value with
  | str s =>
      cases value' with
      | str s' => exact congrArg _ heq
      | bool b' => obtain ⟨b, hb⟩ := h.bool.mpr (h'.bool.mp ⟨b', rfl⟩); cases hb
      | none => exact absurd (congrArg FieldValue.str heq) (h.commit (h'.none rfl))
  | bool b =>
      obtain ⟨b', rfl⟩ := h'.bool.mpr (h.bool.mp ⟨b, rfl⟩)
      cases b <;> cases b' <;> first | rfl | exact absurd heq (by decide)
  | none =>
      cases value' with
      | str s' => exact absurd (congrArg FieldValue.str heq.symm) (h'.commit (h.none rfl))
      | bool b' => obtain ⟨b, hb⟩ := h.bool.mpr (h'.bool.mp ⟨b', rfl⟩); cases hb
      | none => rfl

theorem Passed.fits {r : AuditRecord} (h : Passed r) : ∀ f ∈ r.fields.entries, Fits f.1 f.2 := by
  have hid : ∀ entry ∈ catalogue, IsWord entry.id := by decide
  have hrole : ∀ role : Role, IsWord role.value := by
    rintro (_ | _ | _) <;> decide
  have hstate : ∀ state, IsWord (runStateValue state) := by
    rintro (_ | _ | _ | _ | _ | _) <;> decide
  suffices hpairs : ∃ pairs, r.fields = Dict.ofList pairs ∧ ∀ f ∈ pairs, Fits f.1 f.2 by
    obtain ⟨pairs, hfields, hfits⟩ := hpairs
    rw [hfields]
    exact fun f hf => hfits f (Dict.mem_of_mem_ofList hf)
  cases h with
  | loginFailed | logout => exact ⟨_, rfl, by simp [Fits.user]⟩
  | loginDenied =>
      have hreason : Fits "reason" (.str "no_role") :=
        .word (by decide) (by decide) (by decide)
      exact ⟨_, rfl, by simp [Fits.user, hreason]⟩
  | loginSucceeded _ role =>
      have hrole : Fits "role" (.str role.value) := .word (by decide) (by decide) (hrole role)
      exact ⟨_, rfl, by simp [Fits.user, hrole]⟩
  | runLaunched now hentry _ check hcommit =>
      have hplaybook : Fits "playbook" (.str _) :=
        .word (by decide) (by decide) (hid _ hentry)
      exact ⟨_, rfl, by simp [Fits.user, Fits.check, Fits.commitField hcommit, Fits.run, hplaybook]⟩
  | runCancelRequested now =>
      exact ⟨_, rfl, by simp [Fits.run]⟩
  | runFinished now state =>
      have hstate : Fits "state" (.str (runStateValue state)) :=
        .word (by decide) (by decide) (hstate state)
      exact ⟨_, rfl, by simp [Fits.run, hstate]⟩

/-! ## Reading a message -/

theorem mem_sortedItems {fields : Dict String FieldValue} {f : String × FieldValue} :
    f ∈ sortedItems fields ↔ f ∈ fields.entries := List.mem_insertionSort _

/-- Items are sorted as their keys are. -/
theorem map_fst_sortedItems (fields : Dict String FieldValue) :
    (sortedItems fields).map (·.1) = fields.keys.insertionSort (· ≤ ·) :=
  List.map_insertionSort _ _ _ _ fun _ _ _ _ => Iff.rfl

theorem equiv_of_sortedItems {fields others : Dict String FieldValue}
    (h : sortedItems fields = sortedItems others) : fields.Equiv others := by
  intro key
  refine Option.ext fun value => ?_
  rw [← Dict.mem_entries_iff, ← Dict.mem_entries_iff, ← mem_sortedItems, h, mem_sortedItems]

theorem Passed.isKey {r : AuditRecord} (h : Passed r) :
    ∀ f ∈ (sortedItems r.fields).map fun f => (f.1, f.2.text), IsKey f.1 := by
  have hall : ∀ e ∈ auditKeys, ∀ key ∈ e.2, IsKey key := by decide
  intro f hf
  obtain ⟨item, hitem, rfl⟩ := List.mem_map.mp hf
  exact hall _ h.keys item.1 (List.mem_map_of_mem (mem_sortedItems.mp hitem))

/-- The user is the last field that is logged, where there is one. -/
theorem Passed.user_last {r : AuditRecord} (h : Passed r) :
    ∀ f ∈ (sortedItems r.fields).dropLast, f.1 ≠ "user" := by
  have hall : ∀ e ∈ auditKeys, ∀ key ∈ (e.2.insertionSort (· ≤ ·)).dropLast, key ≠ "user" := by
    decide
  intro f hf
  have hkey : f.1 ∈ ((sortedItems r.fields).map (·.1)).dropLast := by
    rw [← List.map_dropLast]
    exact List.mem_map_of_mem hf
  rw [map_fst_sortedItems] at hkey
  exact hall _ h.keys f.1 hkey

/-- An event is a name. -/
theorem Passed.isKey_event {r : AuditRecord} (h : Passed r) : IsKey r.event := by
  have hall : ∀ e ∈ auditKeys, IsKey e.1 := by decide
  exact hall _ h.keys

/-- Two records of one event have the same keys. -/
theorem Passed.keys_eq {r r' : AuditRecord} (h : Passed r) (h' : Passed r')
    (hevent : r.event = r'.event) : r.fields.keys = r'.fields.keys := by
  have hall : ∀ e ∈ auditKeys, ∀ e' ∈ auditKeys, e.1 = e'.1 → e.2 = e'.2 := by decide
  exact hall _ h.keys _ h'.keys hevent

/-- What callers pass is told from its message. -/
theorem eq_of_message {r r' : AuditRecord} (h : Passed r) (h' : Passed r')
    (heq : r.message = r'.message) : r.event = r'.event ∧ r.fields.Equiv r'.fields := by
  have hcut : partition ' ' r.message = (r.event, some (rendered r.fields)) :=
    partition_append h.isKey_event.1 _
  have hcut' : partition ' ' r'.message = (r'.event, some (rendered r'.fields)) :=
    partition_append h'.isKey_event.1 _
  obtain ⟨hevent, hrendered⟩ := Prod.mk.inj (hcut.symm.trans ((congrArg _ heq).trans hcut'))
  refine ⟨hevent, equiv_of_sortedItems ?_⟩
  have hsorted : (sortedItems r.fields).map (·.1) = (sortedItems r'.fields).map (·.1) := by
    rw [map_fst_sortedItems, map_fst_sortedItems, h.keys_eq h' hevent]
  have hlength : (sortedItems r.fields).length = (sortedItems r'.fields).length := by
    simpa using congrArg List.length hsorted
  have hfront : ∀ {s : AuditRecord}, Passed s →
      ∀ f ∈ ((sortedItems s.fields).map (fun f => (f.1, f.2.text))).dropLast,
        ' ' ∉ f.2.toList := by
    intro s hs f hf hblank
    rw [← List.map_dropLast] at hf
    obtain ⟨item, hitem, rfl⟩ := List.mem_map.mp hf
    have hfits := hs.fits item (mem_sortedItems.mp (List.mem_of_mem_dropLast hitem))
    exact absurd (hfits.plain (hs.user_last item hitem) ' ' hblank) (by decide)
  have htexts := assignments_inj (by simpa using hlength) h.isKey h'.isKey (hfront h)
    (hfront h') (Option.some.inj hrendered)
  refine eq_of_map_eq (fun f hf g hg hfg => ?_) htexts
  obtain ⟨hkey, htext⟩ := Prod.mk.inj hfg
  have hf' := h.fits f (mem_sortedItems.mp hf)
  have hg' := h'.fits g (mem_sortedItems.mp hg)
  rw [← hkey] at hg'
  exact Prod.ext hkey (hf'.text_inj hg' htext)

/-! ## Forging -/

/-- The message is a single line, and no other record that callers pass has it. -/
structure Unforgeable (r : AuditRecord) : Prop where
  singleLine : '\n' ∉ r.message.toList
  unique : ∀ r', Passed r' → r'.message = r.message →
    r'.event = r.event ∧ r'.fields.Equiv r.fields

/-- A message is a single line if the user name is. -/
theorem lineFeed_mem_message {r : AuditRecord} (h : Passed r) :
    '\n' ∈ r.message.toList ↔
      ∃ user, r.fields.get? "user" = some (.str user) ∧ '\n' ∈ user.toList := by
  have hrendered : '\n' ∈ r.message.toList ↔ '\n' ∈ (rendered r.fields).toList := by
    simp [AuditRecord.message, auditEvent, h.isKey_event.2.2]
  rw [hrendered, rendered, lineFeed_mem_assignments h.isKey]
  constructor
  · rintro ⟨f, hf, hfeed⟩
    obtain ⟨⟨key, value⟩, hitem, rfl⟩ := List.mem_map.mp hf
    have hentry := mem_sortedItems.mp hitem
    have hfits : Fits key value := h.fits _ hentry
    -- only the user may hold white space
    obtain rfl : key = "user" := by
      by_contra hkey
      exact absurd (hfits.plain hkey '\n' hfeed) (by decide)
    cases value with
    | str user => exact ⟨user, Dict.mem_entries_iff.mp hentry, hfeed⟩
    | bool b => exact absurd (hfits.bool.mp ⟨b, rfl⟩) (by decide)
    | none => exact absurd (hfits.none rfl) (by decide)
  · rintro ⟨user, huser, hfeed⟩
    exact ⟨("user", user), List.mem_map.mpr
      ⟨("user", .str user), mem_sortedItems.mpr (Dict.mem_entries_iff.mpr huser), rfl⟩, hfeed⟩

/-- **A record that callers pass is not to be forged exactly if there is no line feed in its user
name.** -/
theorem unforgeable_iff {r : AuditRecord} (h : Passed r) :
    Unforgeable r ↔ ∀ user, r.fields.get? "user" = some (.str user) → '\n' ∉ user.toList := by
  have hline := lineFeed_mem_message h
  constructor
  · intro hunforgeable user huser hfeed
    exact hunforgeable.singleLine (hline.mpr ⟨user, huser, hfeed⟩)
  · intro hcondition
    refine ⟨fun hfeed => ?_, fun r' h' heq => eq_of_message h' h heq⟩
    obtain ⟨user, huser, hfeed⟩ := hline.mp hfeed
    exact hcondition user huser hfeed

theorem unforgeable_iff_alice :
    Unforgeable ⟨"login.failed", Dict.ofList [("user", .str "alice")]⟩ ↔
      ∀ user, (Dict.ofList [("user", FieldValue.str "alice")]).get? "user" = some (.str user) →
        '\n' ∉ user.toList :=
  unforgeable_iff (.loginFailed (by decide))

/-- A login that fails, with a line feed in its user name. -/
def forgedLogin : AuditRecord :=
  ⟨"login.failed", Dict.ofList [("user", .str "x\nlogin.succeeded role=admin user=root")]⟩

/-- It adds the line of a login that succeeds. -/
theorem login_forged :
    Passed forgedLogin ∧ ¬ Unforgeable forgedLogin ∧
      forgedLogin.message = "login.failed user=x\n" ++ AuditRecord.message
        ⟨"login.succeeded", Dict.ofList [("user", .str "root"), ("role", .str Role.admin.value)]⟩ :=
  ⟨.loginFailed (by decide), fun h => absurd h.singleLine (by decide), by decide⟩

end SeapathWebui.Core
