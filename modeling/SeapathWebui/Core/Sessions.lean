/-
  Core/Sessions.lean --- sessions, and the cookies that name them.

  Source: app/core/sessions.py, with `Role` and `User` of app/core/auth.py.

  A session leaves the store at three places: `delete`, the purge of `create`, and a `get`
  that finds it expired.  Only the first of them is seen from outside: what a cookie
  resolves to depends on what was created and deleted and on the clock
  (`resolves_iff`).

  The clock is any linear order with an addition; no law of the addition is used, so it
  may round.  The keyed hash of the signature is a parameter.
-/
import Mathlib.Order.Defs.LinearOrder
import SeapathWebui.Foundation.Dict
import SeapathWebui.Foundation.Text
import SeapathWebui.Foundation.Transition

set_option autoImplicit false

namespace SeapathWebui.Core

open SeapathWebui.Foundation SeapathWebui.Foundation.Text

/-! ## Accounts -/

/-- `Role` -/
inductive Role
  | admin
  | operator
  | viewer
  deriving DecidableEq, Repr

/-- `_RANKS` -/
def Role.rank : Role → Nat
  | .viewer => 0
  | .operator => 1
  | .admin => 2

/-- `Role.can` -/
def Role.can (role required : Role) : Bool := required.rank ≤ role.rank

/-- `User` -/
structure User where
  username : String
  role : Role
  deriving DecidableEq, Repr

/-! ## The signature -/

/-- The text is ASCII. -/
def Ascii (s : String) : Prop := ∀ c ∈ s.toList, c.toNat < 128

instance (s : String) : Decidable (Ascii s) := List.decidableBAll _ _

/-- `hmac.compare_digest` of two strings; `none` is the `TypeError`. -/
def compareDigest (a b : String) : Option Bool :=
  if Ascii a ∧ Ascii b then some (a = b) else none

/-- The HMAC of the node's secret, as a function of the ASCII bytes, in hexadecimal. -/
abbrev Hmac := String → String

variable (hmac : Hmac)

/-- `_signature` -/
def signature (sessionId : String) : String :=
  hmac (String.ofList (sessionId.toList.filter fun c => c.toNat < 128))

/-- `sign` -/
def sign (sessionId : String) : String := sessionId ++ "." ++ signature hmac sessionId

/-- `unsign`; the outer `none` is the `TypeError`. -/
def unsign (cookieValue : String) : Option (Option String) :=
  match partition '.' cookieValue with
  | (_, none) => some none
  | (sessionId, some supplied) =>
      (compareDigest supplied (signature hmac sessionId)).map fun equal =>
        if equal then some sessionId else none

/-- Whatever comes back from a cookie, the cookie is its signed form. -/
theorem eq_sign_of_unsign {cookieValue sessionId : String}
    (h : unsign hmac cookieValue = some (some sessionId)) : cookieValue = sign hmac sessionId := by
  unfold unsign at h
  split at h
  · cases h
  · rename_i before supplied hpartition
    obtain ⟨equal, hequal, hid⟩ := Option.map_eq_some_iff.mp h
    unfold compareDigest at hequal
    split at hequal
    · split at hid
      · rename_i htrue
        obtain rfl := Option.some.inj hid
        have hsupplied : supplied = signature hmac before := by
          rw [htrue] at hequal
          exact of_decide_eq_true (Option.some.inj hequal)
        rw [sign, ← hsupplied]
        exact partition_eq_some hpartition
      · cases hid
    · cases hequal

theorem unsign_sign (hhex : ∀ text, Ascii (hmac text)) {sessionId : String}
    (hdot : '.' ∉ sessionId.toList) :
    unsign hmac (sign hmac sessionId) = some (some sessionId) := by
  have hpartition : partition '.' (sign hmac sessionId) =
      (sessionId, some (signature hmac sessionId)) :=
    partition_append hdot (signature hmac sessionId)
  rw [unsign, hpartition]
  simp only [compareDigest]
  rw [if_pos ⟨hhex _, hhex _⟩]
  simp

theorem sign_ne_empty (sessionId : String) : sign hmac sessionId ≠ "" := by
  intro h
  have hchars := congrArg String.toList h
  simp [sign] at hchars

/-! ## The store -/

variable {T : Type*}

/-- `Session` -/
structure Session (T : Type*) where
  id : String
  username : String
  role : Role
  csrfToken : String
  createdAt : T
  expiresAt : T
  deriving DecidableEq, Repr

/-- `Session.user` -/
def Session.user (x : Session T) : User := ⟨x.username, x.role⟩

/-- The sessions of a store, each under its own identifier. -/
structure SessionStore (T : Type*) where
  sessions : Dict String (Session T)
  keyed : ∀ id x, sessions.get? id = some x → x.id = id

namespace SessionStore

/-- A store without a session. -/
def empty : SessionStore T where
  sessions := ∅
  keyed := by
    rintro id x ⟨⟩

/-- `self._sessions[session.id] = session` -/
def insert (store : SessionStore T) (x : Session T) : SessionStore T where
  sessions := store.sessions.set x.id x
  keyed := by
    intro id y hy
    rw [Dict.get?_set] at hy
    split at hy
    · rename_i hid
      rw [← Option.some.inj hy, hid]
    · exact store.keyed id y hy

/-- `delete` -/
def delete (store : SessionStore T) (sessionId : String) : SessionStore T where
  sessions := store.sessions.filterKeys fun id => id ≠ sessionId
  keyed := by
    intro id y hy
    rw [Dict.get?_filterKeys] at hy
    split at hy
    · exact store.keyed id y hy
    · cases hy

theorem get?_delete {store : SessionStore T} {sessionId id : String} {x : Session T} :
    (store.delete sessionId).sessions.get? id = some x ↔
      store.sessions.get? id = some x ∧ id ≠ sessionId := by
  rw [delete, Dict.get?_filterKeys]
  split
  · rename_i hne
    exact (and_iff_left (of_decide_eq_true hne)).symm
  · rename_i heq
    have hid : ¬ id ≠ sessionId := fun hne => heq (decide_eq_true hne)
    exact iff_of_false (by simp) fun h => hid h.2

variable [LinearOrder T]

/-- `_purge` -/
def purge (store : SessionStore T) (now : T) : SessionStore T where
  sessions := store.sessions.filter fun e => now < e.2.expiresAt
  keyed := by
    intro id y hy
    exact store.keyed id y (Dict.get?_filter_eq_some.mp hy).1

/-- The session that `create` makes. -/
def newSession [Add T] (ttl now : T) (user : User) (id csrfToken : String) : Session T where
  id := id
  username := user.username
  role := user.role
  csrfToken := csrfToken
  createdAt := now
  expiresAt := now + ttl

/-- `create`, with the two tokens that `secrets` gives it. -/
def create [Add T] (store : SessionStore T) (ttl now : T) (user : User) (id csrfToken : String) :
    SessionStore T × Session T :=
  let x := newSession ttl now user id csrfToken
  ((store.insert x).purge now, x)

/-- `get` -/
def get (store : SessionStore T) (now : T) (sessionId : String) :
    SessionStore T × Option (Session T) :=
  match store.sessions.get? sessionId with
  | none => (store, none)
  | some x => if x.expiresAt ≤ now then (store.delete x.id, none) else (store, some x)

/-- `resolve`; the outer `none` is the `TypeError`. -/
def resolve (store : SessionStore T) (now : T) (cookieValue : Option String) :
    SessionStore T × Option (Option (Session T)) :=
  match cookieValue with
  | none => (store, some none)
  | some value =>
      if value = "" then (store, some none)
      else
        match unsign hmac value with
        | none => (store, none)
        | some none => (store, some none)
        | some (some sessionId) =>
            ((store.get now sessionId).1, some (store.get now sessionId).2)

/-! ### What an operation leaves in the store -/

theorem get?_create [Add T] {store : SessionStore T} {ttl now : T} {user : User}
    {id csrfToken other : String} {x : Session T} :
    (store.create ttl now user id csrfToken).1.sessions.get? other = some x ↔
      (if id = other then newSession ttl now user id csrfToken = x
        else store.sessions.get? other = some x) ∧ now < x.expiresAt := by
  simp only [create, purge]
  rw [Dict.get?_filter_eq_some, decide_eq_true_iff, insert, Dict.get?_set]
  refine and_congr_left fun _ => ?_
  change (if id = other then _ else _) = some x ↔ _
  split
  · exact Option.some_inj
  · rfl

/-- `get` gives a session that has not expired, and drops only one that has. -/
theorem get_eq_some {store : SessionStore T} {now : T} {sessionId : String} {x : Session T} :
    (store.get now sessionId).2 = some x ↔
      store.sessions.get? sessionId = some x ∧ now < x.expiresAt := by
  unfold get
  split
  · rename_i hnone
    rw [hnone]
    exact iff_of_false (by simp) (by simp)
  · rename_i y hy
    rw [hy]
    split
    · rename_i hexpired
      refine iff_of_false (by simp) fun h => ?_
      obtain rfl := Option.some.inj h.1
      exact absurd h.2 (not_lt_of_ge hexpired)
    · rename_i hlive
      constructor
      · rintro ⟨⟩
        exact ⟨rfl, lt_of_not_ge hlive⟩
      · exact fun h => h.1

/-- A session that was created is had until it expires, and says who it was made for. -/
theorem get_create [Add T] {store : SessionStore T} {ttl now later : T} {user : User}
    {id csrfToken : String} {x : Session T} :
    ((store.create ttl now user id csrfToken).1.get later id).2 = some x ↔
      (x.id = id ∧ x.user = user ∧ x.csrfToken = csrfToken ∧ x.createdAt = now ∧
        x.expiresAt = now + ttl) ∧ now < now + ttl ∧ later < now + ttl := by
  have hnew : newSession ttl now user id csrfToken = x ↔ x.id = id ∧ x.user = user ∧
      x.csrfToken = csrfToken ∧ x.createdAt = now ∧ x.expiresAt = now + ttl := by
    constructor
    · rintro rfl
      exact ⟨rfl, rfl, rfl, rfl, rfl⟩
    · rintro ⟨rfl, rfl, rfl, rfl, hexpires⟩
      rw [newSession, ← hexpires]
      rfl
  rw [get_eq_some, get?_create, if_pos rfl, hnew, and_assoc]
  refine and_congr_right fun h => ?_
  rw [h.2.2.2.2]

theorem get?_get {store : SessionStore T} {now : T} {sessionId id : String} {x : Session T} :
    (store.get now sessionId).1.sessions.get? id = some x →
      store.sessions.get? id = some x := by
  unfold get
  split
  · exact fun h => h
  · split
    · exact fun h => (get?_delete.mp h).1
    · exact fun h => h

theorem get?_get_of_lt {store : SessionStore T} {now : T} {sessionId id : String}
    {x : Session T} (hx : store.sessions.get? id = some x) (hlive : now < x.expiresAt) :
    (store.get now sessionId).1.sessions.get? id = some x := by
  unfold get
  split
  · exact hx
  · rename_i y hy
    split
    · rename_i hexpired
      refine get?_delete.mpr ⟨hx, ?_⟩
      rintro rfl
      rw [store.keyed _ y hy, hy] at hx
      obtain rfl := Option.some.inj hx
      exact absurd hlive (not_lt_of_ge hexpired)
    · exact hx

/-- `resolve` does to the store what some `get` does, or nothing. -/
theorem resolve_fst (store : SessionStore T) (now : T) (cookieValue : Option String) :
    (store.resolve hmac now cookieValue).1 = store ∨
      ∃ sessionId, (store.resolve hmac now cookieValue).1 = (store.get now sessionId).1 := by
  unfold resolve
  split
  · exact .inl rfl
  · split
    · exact .inl rfl
    · split
      · exact .inl rfl
      · exact .inl rfl
      · rename_i sessionId _
        exact .inr ⟨sessionId, rfl⟩

/-- A cookie resolves to a session only if it is the signed form of its identifier. -/
theorem of_resolve {store : SessionStore T} {now : T} {cookieValue : Option String}
    {x : Session T} (h : (store.resolve hmac now cookieValue).2 = some (some x)) :
    cookieValue = some (sign hmac x.id) ∧ store.sessions.get? x.id = some x ∧
      now < x.expiresAt := by
  unfold resolve at h
  split at h
  · cases h
  · rename_i value
    split at h
    · cases h
    · split at h
      · cases h
      · cases h
      · rename_i sessionId hunsign
        obtain ⟨hstored, hlive⟩ := get_eq_some.mp (Option.some.inj h)
        have hid := store.keyed sessionId x hstored
        rw [hid]
        exact ⟨congrArg some (eq_sign_of_unsign hmac hunsign), hstored, hlive⟩

theorem resolve_sign (hhex : ∀ text, Ascii (hmac text)) {store : SessionStore T} {now : T}
    {x : Session T} (hdot : '.' ∉ x.id.toList) (hx : store.sessions.get? x.id = some x)
    (hlive : now < x.expiresAt) :
    (store.resolve hmac now (some (sign hmac x.id))).2 = some (some x) := by
  simp only [resolve, if_neg (sign_ne_empty hmac x.id), unsign_sign hmac hhex hdot]
  exact congrArg some (get_eq_some.mpr ⟨hx, hlive⟩)

end SessionStore

/-! ## Histories -/

/-- A step of the service, as far as sessions go. -/
inductive SessionStep (T : Type*)
  | create (user : User) (id csrfToken : String)
  | get (sessionId : String)
  | resolve (cookieValue : Option String)
  | delete (sessionId : String)
  /-- time passes -/
  | tick (now : T)

/-- The store, and what the clock reads. -/
structure Clocked (T : Type*) where
  store : SessionStore T
  now : T

/-- One step.  The clock does not go back. -/
def sessionStep [LinearOrder T] [Add T] (ttl : T) (s : Clocked T) :
    SessionStep T → Option (Clocked T)
  | .create user id csrfToken =>
      some { s with store := (s.store.create ttl s.now user id csrfToken).1 }
  | .get sessionId => some { s with store := (s.store.get s.now sessionId).1 }
  | .resolve cookieValue => some { s with store := (s.store.resolve hmac s.now cookieValue).1 }
  | .delete sessionId => some { s with store := s.store.delete sessionId }
  | .tick now => if s.now ≤ now then some { s with now := now } else none

/-- The start of the service, at a time. -/
def Clocked.start (now : T) : Clocked T := ⟨.empty, now⟩

/-- What a cookie resolves to. -/
def Clocked.Resolves [LinearOrder T] (s : Clocked T) (cookieValue : Option String)
    (x : Session T) : Prop :=
  (s.store.resolve hmac s.now cookieValue).2 = some (some x)

/-- What the clock reads after some steps. -/
def clockAfter (start : T) (steps : List (SessionStep T)) : T :=
  steps.foldl (fun now step => match step with | .tick later => later | _ => now) start

/-- The identifiers that were created, in order. -/
def createdIds (steps : List (SessionStep T)) : List String :=
  steps.filterMap fun
    | .create _ id _ => some id
    | _ => none

/-- The session was created under the identifier at some time, and not deleted since. -/
def Issued [LinearOrder T] [Add T] (ttl start : T) (steps : List (SessionStep T)) (id : String)
    (x : Session T) : Prop :=
  ∃ before user csrfToken after, steps = before ++ .create user id csrfToken :: after ∧
    .delete id ∉ after ∧
      x = SessionStore.newSession ttl (clockAfter start before) user id csrfToken

theorem clockAfter_concat (start : T) (steps : List (SessionStep T)) (step : SessionStep T) :
    clockAfter start (steps ++ [step]) =
      match step with | .tick later => later | _ => clockAfter start steps := by
  rw [clockAfter, List.foldl_append]
  cases step <;> rfl

theorem createdIds_concat (steps : List (SessionStep T)) (step : SessionStep T) :
    createdIds (steps ++ [step]) = createdIds steps ++ createdIds [step] :=
  List.filterMap_append

variable [LinearOrder T] [Add T] {ttl start : T}

theorem mem_createdIds_of_issued {steps : List (SessionStep T)} {id : String} {x : Session T}
    (h : Issued ttl start steps id x) : id ∈ createdIds steps := by
  obtain ⟨before, user, csrfToken, after, rfl, -, -⟩ := h
  refine List.mem_filterMap.mpr ⟨.create user id csrfToken, ?_, rfl⟩
  exact List.mem_append_right _ List.mem_cons_self

/-- How one more step changes what is issued. -/
theorem issued_concat {steps : List (SessionStep T)} {step : SessionStep T} {id : String}
    {x : Session T} :
    Issued ttl start (steps ++ [step]) id x ↔
      (Issued ttl start steps id x ∧ step ≠ .delete id) ∨
        ∃ user csrfToken, step = .create user id csrfToken ∧
          x = SessionStore.newSession ttl (clockAfter start steps) user id csrfToken := by
  constructor
  · rintro ⟨before, user, csrfToken, after, hsteps, hdelete, hx⟩
    rcases List.eq_nil_or_concat after with rfl | ⟨rest, last, rfl⟩
    · obtain ⟨rfl, hstep⟩ := List.append_inj' hsteps rfl
      exact .inr ⟨user, csrfToken, List.head_eq_of_cons_eq hstep, hx⟩
    · rw [List.concat_eq_append, ← List.cons_append, ← List.append_assoc] at hsteps
      obtain ⟨rfl, hlast⟩ := List.append_inj' hsteps rfl
      rw [List.concat_eq_append, List.mem_append, not_or] at hdelete
      have hstep : step = last := List.head_eq_of_cons_eq hlast
      refine .inl ⟨⟨before, user, csrfToken, rest, rfl, hdelete.1, hx⟩, ?_⟩
      rintro rfl
      exact hdelete.2 (List.mem_singleton.mpr hstep)
  · rintro (⟨⟨before, user, csrfToken, after, rfl, hdelete, hx⟩, hstep⟩ |
      ⟨user, csrfToken, rfl, hx⟩)
    · refine ⟨before, user, csrfToken, after ++ [step], by simp, ?_, hx⟩
      rw [List.mem_append, not_or]
      exact ⟨hdelete, fun hmem => hstep (List.mem_singleton.mp hmem).symm⟩
    · exact ⟨steps, user, csrfToken, [], rfl, List.not_mem_nil, hx⟩

/-! ## What a cookie resolves to -/

/-- The store has only sessions that are issued, and every one of these that has not
expired. -/
structure History (ttl start : T) (steps : List (SessionStep T)) (s : Clocked T) : Prop where
  now : s.now = clockAfter start steps
  stored : ∀ id x, s.store.sessions.get? id = some x → Issued ttl start steps id x
  kept : ∀ id x, Issued ttl start steps id x → s.now < x.expiresAt →
    s.store.sessions.get? id = some x

theorem start_history (ttl start : T) : History ttl start [] (Clocked.start start) where
  now := rfl
  stored := by
    rintro id x ⟨⟩
  kept := by
    rintro id x ⟨before, user, csrfToken, after, hsteps, -⟩
    simp at hsteps

/-- A step that issues nothing, deletes nothing and drops only what has expired. -/
theorem History.shrink {steps : List (SessionStep T)} {s : Clocked T}
    (hs : History ttl start steps s) {step : SessionStep T} {store : SessionStore T}
    (hissued : ∀ id x, Issued ttl start (steps ++ [step]) id x ↔ Issued ttl start steps id x)
    (hclock : clockAfter start (steps ++ [step]) = clockAfter start steps)
    (hsub : ∀ id x, store.sessions.get? id = some x → s.store.sessions.get? id = some x)
    (hlive : ∀ id x, s.store.sessions.get? id = some x → s.now < x.expiresAt →
      store.sessions.get? id = some x) :
    History ttl start (steps ++ [step]) { s with store := store } where
  now := hs.now.trans hclock.symm
  stored id x hx := (hissued id x).mpr (hs.stored id x (hsub id x hx))
  kept id x hx hnow := hlive id x (hs.kept id x ((hissued id x).mp hx) hnow) hnow

theorem History.create {steps : List (SessionStep T)} {s : Clocked T}
    (hs : History ttl start steps s) {user : User} {id csrfToken : String}
    (hfresh : id ∉ createdIds steps) :
    History ttl start (steps ++ [.create user id csrfToken])
      { s with store := (s.store.create ttl s.now user id csrfToken).1 } where
  now := hs.now.trans (clockAfter_concat start steps (.create user id csrfToken)).symm
  stored other x hx := by
    obtain ⟨hstored, -⟩ := SessionStore.get?_create.mp hx
    rw [issued_concat]
    split at hstored
    · rename_i hid
      exact .inr ⟨user, csrfToken, by rw [hid], by rw [← hid, ← hs.now, hstored]⟩
    · exact .inl ⟨hs.stored other x hstored, by simp⟩
  kept other x hx hnow := by
    refine SessionStore.get?_create.mpr ⟨?_, hnow⟩
    rcases issued_concat.mp hx with ⟨hbefore, -⟩ | ⟨user', csrfToken', hstep, hx⟩
    · have hne : id ≠ other := by
        rintro rfl
        exact hfresh (mem_createdIds_of_issued hbefore)
      rw [if_neg hne]
      exact hs.kept other x hbefore hnow
    · injection hstep with huser hid htoken
      rw [if_pos hid, hs.now, hx, huser, hid, htoken]

theorem History.delete {steps : List (SessionStep T)} {s : Clocked T}
    (hs : History ttl start steps s) (sessionId : String) :
    History ttl start (steps ++ [.delete sessionId])
      { s with store := s.store.delete sessionId } := by
  have hissued : ∀ id x, Issued ttl start (steps ++ [.delete sessionId]) id x ↔
      Issued ttl start steps id x ∧ id ≠ sessionId := by
    intro id x
    rw [issued_concat]
    simp [eq_comm]
  constructor
  · exact hs.now.trans (clockAfter_concat start steps (.delete sessionId)).symm
  · intro id x hx
    obtain ⟨hstored, hne⟩ := SessionStore.get?_delete.mp hx
    exact (hissued id x).mpr ⟨hs.stored id x hstored, hne⟩
  · intro id x hx hnow
    obtain ⟨hbefore, hne⟩ := (hissued id x).mp hx
    exact SessionStore.get?_delete.mpr ⟨hs.kept id x hbefore hnow, hne⟩

theorem History.tick {steps : List (SessionStep T)} {s : Clocked T}
    (hs : History ttl start steps s) {now : T} (hle : s.now ≤ now) :
    History ttl start (steps ++ [.tick now]) { s with now := now } := by
  have hissued : ∀ id x, Issued ttl start (steps ++ [.tick now]) id x ↔
      Issued ttl start steps id x := by
    intro id x
    simp [issued_concat]
  constructor
  · exact (clockAfter_concat start steps (.tick now)).symm
  · intro id x hx
    exact (hissued id x).mpr (hs.stored id x hx)
  · intro id x hx hnow
    exact hs.kept id x ((hissued id x).mp hx) (lt_of_le_of_lt hle hnow)

/-- Step lemma. -/
theorem sessionStep_history {steps : List (SessionStep T)} {s t : Clocked T}
    {step : SessionStep T} (hs : History ttl start steps s)
    (hids : (createdIds (steps ++ [step])).Nodup)
    (h : sessionStep hmac ttl s step = some t) : History ttl start (steps ++ [step]) t := by
  have hclock := clockAfter_concat start steps step
  cases step with
  | create user id csrfToken =>
      obtain rfl := Option.some.inj h
      rw [createdIds_concat] at hids
      exact hs.create fun hmem => List.disjoint_of_nodup_append hids hmem List.mem_cons_self
  | get sessionId =>
      obtain rfl := Option.some.inj h
      refine hs.shrink (fun id x => by simp [issued_concat]) hclock ?_ ?_
      · exact fun id x => SessionStore.get?_get
      · exact fun id x => SessionStore.get?_get_of_lt
  | resolve cookieValue =>
      obtain rfl := Option.some.inj h
      refine hs.shrink (fun id x => by simp [issued_concat]) hclock ?_ ?_
      · intro id x hx
        rcases s.store.resolve_fst hmac s.now cookieValue with hsame | ⟨sessionId, hget⟩
        · exact hsame ▸ hx
        · exact SessionStore.get?_get (hget ▸ hx)
      · intro id x hx hnow
        rcases s.store.resolve_fst hmac s.now cookieValue with hsame | ⟨sessionId, hget⟩
        · rw [hsame]
          exact hx
        · rw [hget]
          exact SessionStore.get?_get_of_lt hx hnow
  | delete sessionId =>
      obtain rfl := Option.some.inj h
      exact hs.delete sessionId
  | tick now =>
      simp only [sessionStep] at h
      split at h
      · rename_i hle
        obtain rfl := Option.some.inj h
        exact hs.tick hle
      · cases h

/-- Run lemma. -/
theorem history_of_run {steps : List (SessionStep T)} :
    ∀ {s : Clocked T}, (createdIds steps).Nodup →
      execute (sessionStep hmac ttl) (Clocked.start start) steps = some s →
        History ttl start steps s := by
  induction steps using List.reverseRecOn with
  | nil =>
      intro s _ hrun
      obtain rfl := Option.some.inj hrun
      exact start_history ttl start
  | append_singleton steps step ih =>
      intro s hids hrun
      obtain ⟨t, hbefore, hstep⟩ := execute_concat_eq_some.mp hrun
      refine sessionStep_history hmac (ih ?_ hbefore) hids hstep
      rw [createdIds_concat] at hids
      exact hids.of_append_left

/-- A cookie resolves to the issued session whose identifier it signs, until that
expires. -/
theorem resolves_iff (hhex : ∀ text, Ascii (hmac text)) {steps : List (SessionStep T)}
    {s : Clocked T} (hids : (createdIds steps).Nodup)
    (hdots : ∀ id ∈ createdIds steps, '.' ∉ id.toList)
    (hrun : execute (sessionStep hmac ttl) (Clocked.start start) steps = some s)
    (cookieValue : Option String) (x : Session T) :
    s.Resolves hmac cookieValue x ↔
      ∃ id, cookieValue = some (sign hmac id) ∧ Issued ttl start steps id x ∧
        s.now < x.expiresAt := by
  have hs := history_of_run hmac hids hrun
  constructor
  · intro h
    obtain ⟨hcookie, hstored, hlive⟩ := SessionStore.of_resolve hmac h
    exact ⟨x.id, hcookie, hs.stored x.id x hstored, hlive⟩
  · rintro ⟨id, rfl, hissued, hlive⟩
    have hstored := hs.kept id x hissued hlive
    obtain rfl := s.store.keyed id x hstored
    exact SessionStore.resolve_sign hmac hhex
      (hdots x.id (mem_createdIds_of_issued hissued)) hstored hlive

/-- **The life of a session.**  A cookie resolves to a session exactly if it signs an
identifier that was created, was not deleted since, and has not expired; and no step but
a deletion or the passing of time makes a difference for the sessions that are there. -/
theorem session_life_cycle (hhex : ∀ text, Ascii (hmac text)) {steps : List (SessionStep T)}
    {s : Clocked T} (hids : (createdIds steps).Nodup)
    (hdots : ∀ id ∈ createdIds steps, '.' ∉ id.toList)
    (hrun : execute (sessionStep hmac ttl) (Clocked.start start) steps = some s) :
    (∀ cookieValue x, s.Resolves hmac cookieValue x ↔
      ∃ id, cookieValue = some (sign hmac id) ∧ Issued ttl start steps id x ∧
        s.now < x.expiresAt) ∧
      ∀ step t, sessionStep hmac ttl s step = some t →
        (∀ id, step ≠ .delete id) → (∀ now, step ≠ .tick now) →
        (createdIds (steps ++ [step])).Nodup →
        (∀ id ∈ createdIds (steps ++ [step]), '.' ∉ id.toList) →
          ∀ cookieValue x,
            (s.Resolves hmac cookieValue x → t.Resolves hmac cookieValue x) ∧
            (t.Resolves hmac cookieValue x → s.Resolves hmac cookieValue x ∨
              ∃ user csrfToken, step = .create user x.id csrfToken) := by
  have hbefore := resolves_iff hmac hhex hids hdots hrun
  refine ⟨hbefore, fun step t hstep hdelete htick hids' hdots' cookieValue x => ?_⟩
  have hrun' : execute (sessionStep hmac ttl) (Clocked.start start) (steps ++ [step]) = some t :=
    execute_concat_eq_some.mpr ⟨s, hrun, hstep⟩
  have hafter := resolves_iff hmac hhex hids' hdots' hrun' cookieValue x
  have hnow : t.now = s.now := by
    rw [(history_of_run hmac hids' hrun').now, (history_of_run hmac hids hrun).now,
      clockAfter_concat]
    cases step with
    | tick now => exact absurd rfl (htick now)
    | create | get | resolve | delete => rfl
  rw [hafter, hbefore, hnow]
  constructor
  · rintro ⟨id, hcookie, hissued, hlive⟩
    exact ⟨id, hcookie, issued_concat.mpr (.inl ⟨hissued, hdelete id⟩), hlive⟩
  · rintro ⟨id, hcookie, hissued, hlive⟩
    rcases issued_concat.mp hissued with ⟨hissued, -⟩ | ⟨user, csrfToken, rfl, rfl⟩
    · exact .inl ⟨id, hcookie, hissued, hlive⟩
    · exact .inr ⟨user, csrfToken, rfl⟩

/-- A login, a session that expires, another login and a logout. -/
def twoLogins : List (SessionStep Nat) :=
  [.create ⟨"admin", .admin⟩ "Zm9v" "t0", .tick 5, .create ⟨"viewer", .viewer⟩ "YmFy" "t1",
    .tick 12, .get "Zm9v", .delete "Zm9v"]

theorem session_life_cycle_twoLogins :
    ∃ s, execute (sessionStep (fun _ => "5d41402a") 10) (Clocked.start 0) twoLogins = some s ∧
      (∀ cookieValue x, s.Resolves (fun _ => "5d41402a") cookieValue x ↔
        ∃ id, cookieValue = some (sign (fun _ => "5d41402a") id) ∧
          Issued 10 0 twoLogins id x ∧ s.now < x.expiresAt) := by
  have hruns : (execute (sessionStep (fun _ => "5d41402a") 10) (Clocked.start 0)
      twoLogins).isSome = true := by decide +kernel
  obtain ⟨s, hs⟩ := Option.isSome_iff_exists.mp hruns
  have hids : (createdIds twoLogins).Nodup := by decide
  have hdots : ∀ id ∈ createdIds twoLogins, '.' ∉ id.toList := by decide
  exact ⟨s, hs, (session_life_cycle _ (fun _ => by decide) hids hdots hs).1⟩

end SeapathWebui.Core
