/-
  Core/Server.lean --- everybody who comes to the endpoints, at once.

  Source: the routers of app/api/v1, `login` and `logout` of app/api/v1/auth.py, and the
  middleware and the dependencies of app/core/security.py.

  A request is handled in steps: the middleware, then the dependency of the endpoint, then its
  body; a login asks PAM, then the groups, and then makes a session.  Between any two of them
  other requests take theirs, the accounts of the machine change, and time passes.  The events
  say what was decided, in order; what a body goes on to do is elsewhere.

  `acts_are_authorised` follows every act back to a login.
-/
import Mathlib.Data.Fintype.Basic
import SeapathWebui.Core.Accounts
import SeapathWebui.Core.Audit

set_option autoImplicit false

namespace SeapathWebui.Core

open SeapathWebui.Foundation

/-! ## Endpoints -/

/-- `LoginRequest`, as it is validated. -/
structure LoginRequest where
  username : String
  password : String
  isUsername : IsUsername username
  isPassword : 1 ≤ password.length ∧ password.length ≤ 1024
  deriving DecidableEq

/-- The endpoints of the API. -/
inductive Endpoint
  | login (payload : LoginRequest) | logout | me
  | node | cpu | network | disks
  | inventory | raw | discovery | history | diff | export | validate | preview
  | replace | patchHost | revert
  | playbooks | launch | runs | run | log | cancel | events
  | relations | revoke
  deriving DecidableEq

/-- The method of the route. -/
def Endpoint.method : Endpoint → String
  | .login _ | .logout | .validate | .preview | .revert | .launch | .cancel => "POST"
  | .replace => "PUT"
  | .patchHost => "PATCH"
  | .revoke => "DELETE"
  | .me | .node | .cpu | .network | .disks | .inventory | .raw | .discovery | .history | .diff
  | .export | .playbooks | .runs | .run | .log | .events | .relations => "GET"

/-- What an endpoint asks before its body. -/
inductive Guard
  | nothing
  /-- `require_user` -/
  | user
  /-- `Depends(require_role(...))` -/
  | role (required : Role)
  deriving DecidableEq, Repr

/-- The guard of the route. -/
def Endpoint.guard : Endpoint → Guard
  | .login _ | .logout => .nothing
  | .me => .user
  | .replace | .patchHost | .revert | .launch | .revoke => .role .admin
  | .cancel => .role .operator
  | .node | .cpu | .network | .disks | .inventory | .raw | .discovery | .history | .diff
  | .export | .validate | .preview | .playbooks | .runs | .run | .log | .events
  | .relations => .role .viewer

/-- The role is enough for the guard. -/
def Guard.Allows (role : Role) : Guard → Prop
  | .nothing | .user => True
  | .role required => required.rank ≤ role.rank

/-- A request, as far as access goes. -/
structure ApiRequest where
  endpoint : Endpoint
  cookie : Option String
  csrfHeader : Option String
  deriving DecidableEq

/-- What the two layers read of it. -/
def ApiRequest.toRequest (q : ApiRequest) : Request where
  method := q.endpoint.method
  cookie := q.cookie
  csrfHeader := q.csrfHeader

/-- The `ApiError` of `login` for a password that PAM does not accept. -/
def invalidCredentials : Refusal where
  statusCode := 401
  code := "invalid_credentials"
  message := "Wrong user name or password."

/-- The one for an account without a role. -/
def noRole : Refusal where
  statusCode := 403
  code := "no_role"
  message := "This account is not a member of any SEAPATH group. " ++
    "Add it to seapath-admin, seapath-operator or seapath-viewer."

/-! ## The server -/

/-- Where a request stands. -/
inductive Stage (T : Type*)
  /-- not received yet -/
  | idle
  /-- the middleware let it through -/
  | passed (q : ApiRequest)
  /-- the dependency did, too -/
  | admitted (q : ApiRequest) (user : User)
  /-- `login`: PAM accepts the password -/
  | accepted (payload : LoginRequest)
  /-- `login`: the account has a role -/
  | granted (payload : LoginRequest) (role : Role)
  /-- `logout` has found the session -/
  | leaving (x : Session T)
  /-- answered, or stopped before its body -/
  | settled (stop : Option Stop)

/-- What was decided, and by what. -/
inductive Event (ι T : Type*)
  | accepted (t : ι) (a : Accounts) (payload : LoginRequest)
  | failed (payload : LoginRequest)
  | granted (t : ι) (a : Accounts) (payload : LoginRequest) (role : Role)
  | denied (payload : LoginRequest)
  | opened (t : ι) (x : Session T)
  | closed (x : Session T)
  | admitted (t : ι) (q : ApiRequest) (user : User) (time : T)
  /-- the body of the endpoint runs -/
  | acted (t : ι) (q : ApiRequest) (user : User)

variable {ι T : Type*}

/-- The `audit_event` of it. -/
def Event.auditRecord : Event ι T → Option AuditRecord
  | .failed payload => some ⟨"login.failed", Dict.ofList [("user", .str payload.username)]⟩
  | .denied payload =>
      some ⟨"login.denied", Dict.ofList [("user", .str payload.username),
        ("reason", .str "no_role")]⟩
  | .opened _ x =>
      some ⟨"login.succeeded", Dict.ofList [("user", .str x.username),
        ("role", .str x.role.value)]⟩
  | .closed x => some ⟨"logout", Dict.ofList [("user", .str x.username)]⟩
  | .accepted _ _ _ | .granted _ _ _ _ | .admitted _ _ _ _ | .acted _ _ _ => none

/-- The process, the accounts of the machine, and what has happened so far. -/
structure Server (ι T : Type*) where
  clocked : Clocked T
  accounts : Accounts
  stages : ι → Stage T
  events : List (Event ι T)

/-- The start of the service. -/
def Server.start (now : T) (accounts : Accounts) : Server ι T :=
  ⟨Clocked.start now, accounts, fun _ => .idle, []⟩

/-- The steps of the server. -/
inductive ApiLabel (ι T : Type*)
  /-- a request comes in, and goes through the middleware -/
  | arrive (t : ι) (q : ApiRequest)
  /-- its next step; the tokens are what `secrets` gives for a new session -/
  | proceed (t : ι) (id csrfToken : String)
  /-- time passes -/
  | tick (now : T)
  /-- the accounts of the machine change -/
  | change (a : Accounts)

variable [LinearOrder T] (hmac : Hmac)

/-- The guard, on the session that the cookie names. -/
def Guard.check (request : Request) (store : SessionStore T) (now : T) :
    Guard → SessionStore T × Except Stop User
  -- an endpoint with no guard does not come here
  | .nothing | .user => requireUser hmac request store now
  | .role required => requireRole hmac required request store now

variable [DecidableEq ι]

/-- A step of one request. -/
def Server.move (s : Server ι T) (t : ι) (store : SessionStore T) (stage : Stage T)
    (events : List (Event ι T)) : Server ι T where
  clocked := ⟨store, s.clocked.now⟩
  accounts := s.accounts
  stages := Function.update s.stages t stage
  events := s.events ++ events

/-- The step after the middleware. -/
def Server.enter (s : Server ι T) (t : ι) (q : ApiRequest) : Server ι T :=
  match q.endpoint with
  | .login payload =>
      if authenticate s.accounts payload.username payload.password then
        s.move t s.clocked.store (.accepted payload) [.accepted t s.accounts payload]
      else
        s.move t s.clocked.store (.settled (some (.refused invalidCredentials))) [.failed payload]
  | .logout =>
      match s.clocked.store.resolve hmac s.clocked.now q.cookie with
      | (store, none) => s.move t store (.settled (some .raised)) []
      | (store, some none) => s.move t store (.settled none) []
      | (store, some (some x)) => s.move t store (.leaving x) []
  | endpoint =>
      match endpoint.guard.check hmac q.toRequest s.clocked.store s.clocked.now with
      | (store, .error stop) => s.move t store (.settled (some stop)) []
      | (store, .ok user) =>
          s.move t store (.admitted q user) [.admitted t q user s.clocked.now]

/-- One step of the server. -/
def apiStep [Add T] (settings : GroupSettings) (ttl : T) (s : Server ι T) :
    ApiLabel ι T → Option (Server ι T)
  | .arrive t q =>
      match s.stages t with
      | .idle =>
          match dispatch hmac q.toRequest s.clocked.store s.clocked.now with
          | (store, some stop) => some (s.move t store (.settled (some stop)) [])
          | (store, none) => some (s.move t store (.passed q) [])
      | _ => none
  | .proceed t id csrfToken =>
      match s.stages t with
      | .idle | .settled _ => none
      | .passed q => some (s.enter hmac t q)
      | .admitted q user => some (s.move t s.clocked.store (.settled none) [.acted t q user])
      | .accepted payload =>
          match roleFor settings s.accounts payload.username with
          | none =>
              some (s.move t s.clocked.store (.settled (some (.refused noRole))) [.denied payload])
          | some role =>
              some (s.move t s.clocked.store (.granted payload role)
                [.granted t s.accounts payload role])
      | .granted payload role =>
          let (store, x) := s.clocked.store.create ttl s.clocked.now ⟨payload.username, role⟩ id
            csrfToken
          some (s.move t store (.settled none) [.opened t x])
      | .leaving x => some (s.move t (s.clocked.store.delete x.id) (.settled none) [.closed x])
  | .tick now =>
      if s.clocked.now ≤ now then some { s with clocked := ⟨s.clocked.store, now⟩ } else none
  | .change a => some { s with accounts := a }

/-! ## What a step can do -/

/-- Nothing comes into the store. -/
def Shrinks (store after : SessionStore T) : Prop :=
  ∀ id x, after.sessions.get? id = some x → store.sessions.get? id = some x

omit [DecidableEq ι] [LinearOrder T] in
theorem Shrinks.refl (store : SessionStore T) : Shrinks store store := fun _ _ h => h

/-- Events that let nobody in or out. -/
def Event.Quiet : Event ι T → Prop
  | .failed _ | .denied _ => True
  | .accepted _ _ _ | .granted _ _ _ _ | .opened _ _ | .closed _ | .admitted _ _ _ _
  | .acted _ _ _ => False

omit [DecidableEq ι] in
theorem shrinks_resolve (store : SessionStore T) (now : T) (cookieValue : Option String) :
    Shrinks store (store.resolve hmac now cookieValue).1 := by
  intro id x hx
  rcases store.resolve_fst hmac now cookieValue with hsame | ⟨sessionId, hget⟩
  · exact hsame ▸ hx
  · exact SessionStore.get?_get (hget ▸ hx)

theorem requireUser_eq (request : Request) (store : SessionStore T) (now : T) :
    (requireUser hmac request store now).1 = (store.resolve hmac now request.cookie).1 ∧
      ∀ user, (requireUser hmac request store now).2 = .ok user →
        ∃ x, (store.resolve hmac now request.cookie).2 = some (some x) ∧ user = x.user := by
  unfold requireUser
  cases store.resolve hmac now request.cookie with
  | mk after found =>
      cases found with
      | none => exact ⟨rfl, fun _ h => by cases h⟩
      | some found =>
          cases found with
          | none => exact ⟨rfl, fun _ h => by cases h⟩
          | some x => exact ⟨rfl, fun user h => ⟨x, rfl, (Except.ok.inj h).symm⟩⟩

/-- A guard lets through the user of the session that the cookie names. -/
theorem check_eq (g : Guard) (request : Request) (store : SessionStore T) (now : T) :
    (g.check hmac request store now).1 = (store.resolve hmac now request.cookie).1 ∧
      ∀ user, (g.check hmac request store now).2 = .ok user →
        ∃ x, (store.resolve hmac now request.cookie).2 = some (some x) ∧ user = x.user ∧
          g.Allows x.role := by
  obtain ⟨hstore, huser⟩ := requireUser_eq hmac request store now
  cases g with
  | nothing =>
      refine ⟨hstore, fun user h => ?_⟩
      obtain ⟨x, hx, hsame⟩ := huser user h
      exact ⟨x, hx, hsame, trivial⟩
  | user =>
      refine ⟨hstore, fun user h => ?_⟩
      obtain ⟨x, hx, hsame⟩ := huser user h
      exact ⟨x, hx, hsame, trivial⟩
  | role required =>
      refine ⟨?_, fun user h => requireRole_eq_ok hmac h⟩
      rw [← hstore, Guard.check, requireRole]
      cases requireUser hmac request store now with
      | mk after result =>
          cases result with
          | error e => rfl
          | ok user =>
              simp only
              split <;> rfl

variable [Add T] {settings : GroupSettings} {ttl : T}

/-- The steps of the server, by what they let happen. -/
inductive ApiStep (settings : GroupSettings) (ttl : T) (s : Server ι T) :
    ApiLabel ι T → Server ι T → Prop
  | pass (t : ι) (q : ApiRequest)
      (hpass : (dispatch hmac q.toRequest s.clocked.store s.clocked.now).2 = none) :
      ApiStep settings ttl s (.arrive t q)
        (s.move t (dispatch hmac q.toRequest s.clocked.store s.clocked.now).1 (.passed q) [])
  /-- a refusal, or a logout without a session -/
  | quiet (label : ApiLabel ι T) (t : ι) {store : SessionStore T} (stop : Option Stop)
      {events : List (Event ι T)} (hevents : ∀ e ∈ events, e.Quiet)
      (hshrinks : Shrinks s.clocked.store store) :
      ApiStep settings ttl s label (s.move t store (.settled stop) events)
  | accept (t : ι) (id csrfToken : String) {payload : LoginRequest}
      (hpam : authenticate s.accounts payload.username payload.password = true) :
      ApiStep settings ttl s (.proceed t id csrfToken)
        (s.move t s.clocked.store (.accepted payload) [.accepted t s.accounts payload])
  | grant (t : ι) (id csrfToken : String) {payload : LoginRequest} {role : Role}
      (hstage : s.stages t = .accepted payload)
      (hrole : roleFor settings s.accounts payload.username = some role) :
      ApiStep settings ttl s (.proceed t id csrfToken)
        (s.move t s.clocked.store (.granted payload role) [.granted t s.accounts payload role])
  | opens (t : ι) (id csrfToken : String) {payload : LoginRequest} {role : Role}
      (hstage : s.stages t = .granted payload role) :
      ApiStep settings ttl s (.proceed t id csrfToken)
        (s.move t
          (s.clocked.store.create ttl s.clocked.now ⟨payload.username, role⟩ id csrfToken).1
          (.settled none)
          [.opened t (SessionStore.newSession ttl s.clocked.now ⟨payload.username, role⟩ id
            csrfToken)])
  | letThrough (t : ι) (id csrfToken : String) {q : ApiRequest} {x : Session T}
      {store : SessionStore T} (hstage : s.stages t = .passed q)
      (hresolve : s.clocked.Resolves hmac q.cookie x) (hallows : q.endpoint.guard.Allows x.role)
      (hshrinks : Shrinks s.clocked.store store) :
      ApiStep settings ttl s (.proceed t id csrfToken)
        (s.move t store (.admitted q x.user) [.admitted t q x.user s.clocked.now])
  | act (t : ι) (id csrfToken : String) {q : ApiRequest} {user : User}
      (hstage : s.stages t = .admitted q user) :
      ApiStep settings ttl s (.proceed t id csrfToken)
        (s.move t s.clocked.store (.settled none) [.acted t q user])
  | leave (t : ι) (id csrfToken : String) {cookieValue : Option String} {x : Session T}
      {store : SessionStore T} (hresolve : s.clocked.Resolves hmac cookieValue x)
      (hshrinks : Shrinks s.clocked.store store) :
      ApiStep settings ttl s (.proceed t id csrfToken) (s.move t store (.leaving x) [])
  | close (t : ι) (id csrfToken : String) {x : Session T} (hstage : s.stages t = .leaving x) :
      ApiStep settings ttl s (.proceed t id csrfToken)
        (s.move t (s.clocked.store.delete x.id) (.settled none) [.closed x])
  | tick (now : T) (hle : s.clocked.now ≤ now) :
      ApiStep settings ttl s (.tick now) { s with clocked := ⟨s.clocked.store, now⟩ }
  | change (a : Accounts) : ApiStep settings ttl s (.change a) { s with accounts := a }

/-- The step of a request to an endpoint that has a guard. -/
theorem ApiStep.of_check {s : Server ι T} {t : ι} (id csrfToken : String) {q : ApiRequest}
    (hstage : s.stages t = .passed q) :
    ApiStep hmac settings ttl s (.proceed t id csrfToken)
      (match q.endpoint.guard.check hmac q.toRequest s.clocked.store s.clocked.now with
        | (store, .error stop) => s.move t store (.settled (some stop)) []
        | (store, .ok user) =>
            s.move t store (.admitted q user) [.admitted t q user s.clocked.now]) := by
  obtain ⟨hstore, huser⟩ :=
    check_eq hmac q.endpoint.guard q.toRequest s.clocked.store s.clocked.now
  cases hcheck : q.endpoint.guard.check hmac q.toRequest s.clocked.store s.clocked.now with
  | mk after result =>
      rw [hcheck] at hstore huser
      have hshrinks := shrinks_resolve hmac s.clocked.store s.clocked.now q.toRequest.cookie
      rw [← hstore] at hshrinks
      cases result with
      | error stop => exact .quiet _ t _ (by simp) hshrinks
      | ok user =>
          obtain ⟨x, hresolve, rfl, hallows⟩ := huser user rfl
          exact .letThrough t id csrfToken hstage hresolve hallows hshrinks

theorem ApiStep.of_enter {s : Server ι T} {t : ι} (id csrfToken : String) {q : ApiRequest}
    (hstage : s.stages t = .passed q) :
    ApiStep hmac settings ttl s (.proceed t id csrfToken) (s.enter hmac t q) := by
  have hcheck : ApiStep hmac settings ttl s (.proceed t id csrfToken) _ :=
    .of_check hmac id csrfToken hstage
  cases hq : q.endpoint with
  | login payload =>
      simp only [Server.enter, hq]
      split
      · rename_i hpam
        exact .accept t id csrfToken hpam
      · exact .quiet _ t _ (by simp [Event.Quiet]) (.refl _)
  | logout =>
      simp only [Server.enter, hq]
      have hshrinks := shrinks_resolve hmac s.clocked.store s.clocked.now q.cookie
      cases hfound : s.clocked.store.resolve hmac s.clocked.now q.cookie with
      | mk after found =>
          rw [hfound] at hshrinks
          cases found with
          | none => exact .quiet _ t _ (by simp) hshrinks
          | some found =>
              cases found with
              | none => exact .quiet _ t _ (by simp) hshrinks
              | some x =>
                  have hresolve : s.clocked.Resolves hmac q.cookie x := by
                    rw [Clocked.Resolves, hfound]
                  exact .leave t id csrfToken hresolve hshrinks
  | _ =>
      rw [hq] at hcheck
      simpa only [Server.enter, hq] using hcheck

theorem ApiStep.of_eq_some {s s' : Server ι T} {label : ApiLabel ι T}
    (h : apiStep hmac settings ttl s label = some s') :
    ApiStep hmac settings ttl s label s' := by
  cases label with
  | arrive t q =>
      simp only [apiStep] at h
      cases hstage : s.stages t <;> rw [hstage] at h
      case idle =>
        simp only at h
        cases hdispatch : dispatch hmac q.toRequest s.clocked.store s.clocked.now with
        | mk after stop =>
            rw [hdispatch] at h
            cases stop with
            | some stop =>
                obtain rfl := Option.some.inj h
                refine .quiet _ t _ (by simp) fun id x hx => ?_
                exact get?_dispatch hmac (by rw [hdispatch]; exact hx)
            | none =>
                obtain rfl := Option.some.inj h
                have hpass : ApiStep hmac settings ttl s (.arrive t q) _ :=
                  .pass t q (by rw [hdispatch])
                rwa [hdispatch] at hpass
      all_goals cases h
  | proceed t id csrfToken =>
      simp only [apiStep] at h
      cases hstage : s.stages t with
      | idle | settled => rw [hstage] at h; cases h
      | passed q =>
          rw [hstage] at h
          obtain rfl := Option.some.inj h
          exact .of_enter hmac id csrfToken hstage
      | admitted q user =>
          rw [hstage] at h
          obtain rfl := Option.some.inj h
          exact .act t id csrfToken hstage
      | accepted payload =>
          rw [hstage] at h
          simp only at h
          split at h
          · obtain rfl := Option.some.inj h
            exact .quiet _ t _ (by simp [Event.Quiet]) (.refl _)
          · rename_i role hrole
            obtain rfl := Option.some.inj h
            exact .grant t id csrfToken hstage hrole
      | granted payload role =>
          rw [hstage] at h
          obtain rfl := Option.some.inj h
          exact .opens t id csrfToken hstage
      | leaving x =>
          rw [hstage] at h
          obtain rfl := Option.some.inj h
          exact .close t id csrfToken hstage
  | tick now =>
      simp only [apiStep] at h
      split at h
      · rename_i hle
        obtain rfl := Option.some.inj h
        exact .tick now hle
      · cases h
  | change a =>
      obtain rfl := Option.some.inj h
      exact .change a

/-! ## What is behind a session, and behind an act -/

/-- The session was made by a login: PAM accepted a password for its user, then the groups gave
the role it has. -/
def LetIn (settings : GroupSettings) (first : List (Event ι T)) (t : ι) (x : Session T) : Prop :=
  ∃ payload a a', payload.username = x.username ∧
    authenticate a payload.username payload.password = true ∧
    roleFor settings a' payload.username = some x.role ∧
    List.Sublist [.accepted t a payload, .granted t a' payload x.role] first

/-- The session was opened by a login and has not been closed since. -/
def Issuer (settings : GroupSettings) (ttl : T) (events : List (Event ι T)) (x : Session T) :
    Prop :=
  ∃ first t second, events = first ++ .opened t x :: second ∧
    (∀ y, .closed y ∈ second → y.id ≠ x.id) ∧ x.expiresAt = x.createdAt + ttl ∧
      LetIn settings first t x

/-- What a request goes back to that was let through for a user. -/
structure Backed (settings : GroupSettings) (ttl : T) (early : List (Event ι T)) (q : ApiRequest)
    (user : User) (time : T) (x : Session T) : Prop where
  issuer : Issuer settings ttl early x
  user : x.user = user
  allows : q.endpoint.guard.Allows x.role
  cookie : q.cookie = some (sign hmac x.id)
  live : time < x.expiresAt
  token : q.endpoint.method ∉ safeMethods → q.csrfHeader.getD "" = x.csrfToken

/-- What holds of a request at its stage. -/
def Stage.Holds (settings : GroupSettings) (events : List (Event ι T)) (c : Clocked T) (t : ι) :
    Stage T → Prop
  | .passed q => q.endpoint.method ∉ safeMethods →
      ∀ x, c.Resolves hmac q.cookie x → q.csrfHeader.getD "" = x.csrfToken
  | .admitted q user => ∃ time, .admitted t q user time ∈ events
  | .accepted payload => ∃ a, authenticate a payload.username payload.password = true ∧
      .accepted t a payload ∈ events
  | .granted payload role => ∃ a a', authenticate a payload.username payload.password = true ∧
      roleFor settings a' payload.username = some role ∧
      List.Sublist [.accepted t a payload, .granted t a' payload role] events
  | .leaving x => ∃ u, .opened u x ∈ events
  | .idle | .settled _ => True

/-- What an event says of those before it. -/
def Event.Holds (settings : GroupSettings) (ttl : T) (early : List (Event ι T)) :
    Event ι T → Prop
  | .admitted _ q user time => ∃ x, Backed hmac settings ttl early q user time x
  | .acted t q user => ∃ time, .admitted t q user time ∈ early
  | .opened t x => LetIn settings early t x
  | .closed x => ∃ u, .opened u x ∈ early
  | .accepted _ _ _ | .failed _ | .granted _ _ _ _ | .denied _ => True

/-- Everything goes back to what it has to. -/
structure Server.Accountable (settings : GroupSettings) (ttl : T) (s : Server ι T) : Prop where
  stored : ∀ id x, s.clocked.store.sessions.get? id = some x → Issuer settings ttl s.events x
  stages : ∀ t, (s.stages t).Holds hmac settings s.events s.clocked t
  events : ∀ early e late, s.events = early ++ e :: late → e.Holds hmac settings ttl early

omit [DecidableEq ι] [LinearOrder T] in
/-- Events that close nothing leave the session open. -/
theorem Issuer.append {events new : List (Event ι T)} {x : Session T}
    (h : Issuer settings ttl events x) (hnew : ∀ y, .closed y ∈ new → y.id ≠ x.id) :
    Issuer settings ttl (events ++ new) x := by
  obtain ⟨first, t, second, rfl, hclosed, hexpires, hletIn⟩ := h
  refine ⟨first, t, second ++ new, by simp, fun y hy => ?_, hexpires, hletIn⟩
  rcases List.mem_append.mp hy with hy | hy
  · exact hclosed y hy
  · exact hnew y hy

omit [DecidableEq ι] [LinearOrder T] in
theorem Issuer.opened {events : List (Event ι T)} {x : Session T}
    (h : Issuer settings ttl events x) : ∃ u, .opened u x ∈ events := by
  obtain ⟨first, u, second, rfl, -⟩ := h
  exact ⟨u, by simp⟩

omit [DecidableEq ι] [Add T] in
/-- What a cookie resolves to later, it resolves to now, if the session is there. -/
theorem resolves_of_later {c c' : Clocked T} {cookieValue : Option String} {x : Session T}
    (hnow : c.now ≤ c'.now) (h : c'.Resolves hmac cookieValue x)
    (hx : c'.store.sessions.get? x.id = some x → c.store.sessions.get? x.id = some x) :
    c.Resolves hmac cookieValue x := by
  obtain ⟨-, hstored, hlive⟩ := SessionStore.of_resolve hmac h
  exact resolve_of_live hmac h (hx hstored) (lt_of_le_of_lt hnow hlive)

omit [DecidableEq ι] [Add T] in
/-- The same, where no time passes. -/
theorem resolves_of_store {c : Clocked T} {store : SessionStore T} {cookieValue : Option String}
    {x : Session T} (h : (⟨store, c.now⟩ : Clocked T).Resolves hmac cookieValue x)
    (hx : store.sessions.get? x.id = some x → c.store.sessions.get? x.id = some x) :
    c.Resolves hmac cookieValue x := by
  have hnow : c.now ≤ (⟨store, c.now⟩ : Clocked T).now := le_rfl
  exact resolves_of_later hmac hnow h hx

omit [DecidableEq ι] [Add T] in
/-- More events, and a cookie that resolves to nothing new. -/
theorem Stage.Holds.mono {events new : List (Event ι T)} {c c' : Clocked T} {t : ι}
    {stage : Stage T} (h : stage.Holds hmac settings events c t)
    (hpassed : ∀ q, stage = .passed q → ∀ x, c'.Resolves hmac q.cookie x →
      c.Resolves hmac q.cookie x) :
    stage.Holds hmac settings (events ++ new) c' t := by
  cases stage with
  | passed q => exact fun hmethod x hx => h hmethod x (hpassed q rfl x hx)
  | admitted q user =>
      obtain ⟨time, hmem⟩ := h
      exact ⟨time, List.mem_append_left new hmem⟩
  | accepted payload =>
      obtain ⟨a, hpam, hmem⟩ := h
      exact ⟨a, hpam, List.mem_append_left new hmem⟩
  | granted payload role =>
      obtain ⟨a, a', hpam, hrole, hsub⟩ := h
      exact ⟨a, a', hpam, hrole, hsub.trans (List.sublist_append_left events new)⟩
  | leaving x =>
      obtain ⟨u, hmem⟩ := h
      exact ⟨u, List.mem_append_left new hmem⟩
  | idle | settled => trivial

/-- A step of one request. -/
theorem Server.Accountable.move {s : Server ι T} (hs : s.Accountable hmac settings ttl) {t : ι}
    {store : SessionStore T} {stage : Stage T} {new : List (Event ι T)}
    (hstored : ∀ id x, store.sessions.get? id = some x → Issuer settings ttl (s.events ++ new) x)
    (hstage : stage.Holds hmac settings (s.events ++ new) ⟨store, s.clocked.now⟩ t)
    (hnew : ∀ early e late, new = early ++ e :: late →
      e.Holds hmac settings ttl (s.events ++ early))
    (hpassed : ∀ u q, s.stages u = .passed q → ∀ x,
      (⟨store, s.clocked.now⟩ : Clocked T).Resolves hmac q.cookie x →
        s.clocked.Resolves hmac q.cookie x) :
    (s.move t store stage new).Accountable hmac settings ttl := by
  refine ⟨hstored, fun u => ?_, fun early e late hsplit => ?_⟩
  · simp only [Server.move]
    rcases eq_or_ne u t with rfl | hne
    · rw [Function.update_self]
      exact hstage
    · rw [Function.update_of_ne hne]
      exact (hs.stages u).mono hmac (hpassed u)
  · rcases List.append_eq_append_iff.mp hsplit with ⟨middle, rfl, hlate⟩ | ⟨middle, hevents, hrest⟩
    · exact hnew middle e late hlate
    · cases middle with
      | nil =>
          rw [List.append_nil] at hevents
          have hholds := hnew [] e late hrest.symm
          rwa [List.append_nil, hevents] at hholds
      | cons e' rest =>
          obtain ⟨rfl, -⟩ := List.cons.inj hrest
          exact hs.events early e rest hevents

/-! ## Every run -/

/-- The cookie of a request that is between the two layers. -/
def Stage.cookie : Stage T → Option String
  | .passed q => q.cookie
  | .idle | .admitted _ _ | .accepted _ | .granted _ _ | .leaving _ | .settled _ => none

/-- The next step opens a session. -/
def Stage.opens : Stage T → Bool
  | .granted _ _ => true
  | .idle | .passed _ | .admitted _ _ | .accepted _ | .leaving _ | .settled _ => false

/-- Nobody has guessed the identifier of a session to come. -/
def Unguessed (s : Server ι T) : ApiLabel ι T → Prop
  | .proceed t id _ =>
      (s.stages t).opens = true → ∀ u, (s.stages u).cookie ≠ some (sign hmac id)
  | .arrive _ _ | .tick _ | .change _ => True

instance [Fintype ι] (s : Server ι T) : ∀ label : ApiLabel ι T, Decidable (Unguessed hmac s label)
  | .proceed t id _ => inferInstanceAs (Decidable
      ((s.stages t).opens = true → ∀ u, (s.stages u).cookie ≠ some (sign hmac id)))
  | .arrive _ _ | .tick _ | .change _ => inferInstanceAs (Decidable True)

omit [DecidableEq ι] [LinearOrder T] [Add T] in
/-- The one event of a step. -/
theorem holds_of_singleton {P : List (Event ι T) → Event ι T → Prop} {e : Event ι T}
    (h : P [] e) : ∀ early e' late, [e] = early ++ e' :: late → P early e' := by
  intro early e' late hsplit
  cases early with
  | nil =>
      obtain ⟨rfl, -⟩ := List.cons.inj hsplit
      exact h
  | cons first rest =>
      have hlength := congrArg List.length hsplit
      simp at hlength

namespace Server.Accountable

variable {s : Server ι T} (hs : s.Accountable hmac settings ttl) {t : ι}

include hs

/-- What is left of the store is as it was issued, and resolves as before. -/
theorem shrink {store : SessionStore T} {stage : Stage T} {new : List (Event ι T)}
    (hshrinks : Shrinks s.clocked.store store) (hclosed : ∀ y, .closed y ∉ new)
    (hstage : stage.Holds hmac settings (s.events ++ new) ⟨store, s.clocked.now⟩ t)
    (hnew : ∀ early e late, new = early ++ e :: late →
      e.Holds hmac settings ttl (s.events ++ early)) :
    (s.move t store stage new).Accountable hmac settings ttl := by
  refine hs.move hmac (fun id x hx => ?_) hstage hnew fun _ _ _ x hx => ?_
  · exact (hs.stored id x (hshrinks id x hx)).append fun y hy => (hclosed y hy).elim
  · exact resolves_of_store hmac hx (hshrinks x.id x)

/-- The groups give a user whom PAM let in a role. -/
theorem grant {payload : LoginRequest} {role : Role} (hstage : s.stages t = .accepted payload)
    (hrole : roleFor settings s.accounts payload.username = some role) :
    (s.move t s.clocked.store (.granted payload role)
      [.granted t s.accounts payload role]).Accountable hmac settings ttl := by
  have haccepted := hs.stages t
  rw [hstage] at haccepted
  obtain ⟨a, hpam, hmem⟩ := haccepted
  refine hs.shrink hmac (.refl _) (by simp) ?_ (holds_of_singleton trivial)
  exact ⟨a, s.accounts, hpam, hrole,
    (List.singleton_sublist.mpr hmem).append (List.Sublist.refl _)⟩

/-- A login opens a session, under an identifier that no request between the layers carries. -/
theorem opens {payload : LoginRequest} {role : Role} {id csrfToken : String}
    (hstage : s.stages t = .granted payload role)
    (hunguessed : ∀ u, (s.stages u).cookie ≠ some (sign hmac id)) :
    (s.move t
      (s.clocked.store.create ttl s.clocked.now ⟨payload.username, role⟩ id csrfToken).1
      (.settled none)
      [.opened t (SessionStore.newSession ttl s.clocked.now ⟨payload.username, role⟩ id
        csrfToken)]).Accountable hmac settings ttl := by
  have hgranted := hs.stages t
  rw [hstage] at hgranted
  obtain ⟨a, a', hpam, hrole, hsub⟩ := hgranted
  refine hs.move hmac (fun other x hx => ?_) trivial (holds_of_singleton ?_) fun u q hu x hx => ?_
  · obtain ⟨hcreated, -⟩ := SessionStore.get?_create.mp hx
    split at hcreated
    · refine ⟨s.events, t, [], by rw [hcreated], by simp, ?_, ?_⟩
      · rw [← hcreated]
        rfl
      · rw [← hcreated]
        exact ⟨payload, a, a', rfl, hpam, hrole, hsub⟩
    · exact (hs.stored other x hcreated).append (by simp)
  · rw [List.append_nil]
    exact ⟨payload, a, a', rfl, hpam, hrole, hsub⟩
  · refine resolves_of_store hmac hx fun hcreated => ?_
    obtain ⟨hcreated, -⟩ := SessionStore.get?_create.mp hcreated
    split at hcreated
    · rename_i hid
      have hcookie := hunguessed u
      rw [hu, hid] at hcookie
      exact (hcookie (SessionStore.of_resolve hmac hx).1).elim
    · exact hcreated

/-- A request is let through. -/
theorem letThrough {q : ApiRequest} {x : Session T} {store : SessionStore T}
    (hstage : s.stages t = .passed q) (hresolve : s.clocked.Resolves hmac q.cookie x)
    (hallows : q.endpoint.guard.Allows x.role) (hshrinks : Shrinks s.clocked.store store) :
    (s.move t store (.admitted q x.user) [.admitted t q x.user s.clocked.now]).Accountable
      hmac settings ttl := by
  have htoken := hs.stages t
  rw [hstage] at htoken
  obtain ⟨hcookie, hx, hlive⟩ := SessionStore.of_resolve hmac hresolve
  refine hs.shrink hmac hshrinks (by simp) ⟨s.clocked.now, by simp⟩ (holds_of_singleton ?_)
  refine ⟨x, ?_, rfl, hallows, hcookie, hlive, fun hmethod => htoken hmethod x hresolve⟩
  rw [List.append_nil]
  exact hs.stored x.id x hx

/-- A logout closes the session. -/
theorem close {x : Session T} (hstage : s.stages t = .leaving x) :
    (s.move t (s.clocked.store.delete x.id) (.settled none) [.closed x]).Accountable
      hmac settings ttl := by
  have hleaving := hs.stages t
  rw [hstage] at hleaving
  have hshrinks : Shrinks s.clocked.store (s.clocked.store.delete x.id) :=
    fun _ _ hy => (SessionStore.get?_delete.mp hy).1
  refine hs.move hmac (fun other y hy => ?_) trivial (holds_of_singleton ?_)
    fun _ _ _ y hy => resolves_of_store hmac hy (hshrinks y.id y)
  · obtain ⟨hbefore, hne⟩ := SessionStore.get?_delete.mp hy
    refine (hs.stored other y hbefore).append fun z hz hid => ?_
    cases List.mem_singleton.mp hz
    exact hne (by rw [hid, s.clocked.store.keyed other y hbefore])
  · rw [List.append_nil]
    exact hleaving

omit [DecidableEq ι] in
/-- Time passes, and no cookie resolves to more. -/
theorem tick {now : T} (hle : s.clocked.now ≤ now) :
    ({ s with clocked := ⟨s.clocked.store, now⟩ } : Server ι T).Accountable hmac settings ttl := by
  refine ⟨hs.stored, fun u => ?_, hs.events⟩
  have hholds : (s.stages u).Holds hmac settings (s.events ++ []) ⟨s.clocked.store, now⟩ u :=
    (hs.stages u).mono hmac fun q _ x hx => resolves_of_later hmac hle hx id
  rwa [List.append_nil] at hholds

end Server.Accountable

/-- Step lemma. -/
theorem step_accountable {s s' : Server ι T} {label : ApiLabel ι T}
    (hs : s.Accountable hmac settings ttl) (hunguessed : Unguessed hmac s label)
    (h : apiStep hmac settings ttl s label = some s') :
    s'.Accountable hmac settings ttl := by
  cases ApiStep.of_eq_some hmac h with
  | pass t q hpass =>
      have hshrinks : Shrinks s.clocked.store
          (dispatch hmac q.toRequest s.clocked.store s.clocked.now).1 :=
        fun _ _ hx => get?_dispatch hmac hx
      refine hs.shrink hmac hshrinks (by simp) ?_ (by simp)
      exact fun hmethod x hx => csrfHeader_of_dispatch hmac hmethod
        (resolves_of_store hmac hx (hshrinks x.id x)) hpass
  | quiet label t stop hevents hshrinks =>
      refine hs.shrink hmac hshrinks (fun y hy => hevents _ hy) trivial ?_
      rintro early e late rfl
      have hquiet := hevents e (List.mem_append_right early List.mem_cons_self)
      cases e <;> trivial
  | accept t id csrfToken hpam =>
      exact hs.shrink hmac (.refl _) (by simp) ⟨s.accounts, hpam, by simp⟩
        (holds_of_singleton trivial)
  | grant t id csrfToken hstage hrole => exact hs.grant hmac hstage hrole
  | opens t id csrfToken hstage => exact hs.opens hmac hstage (hunguessed (by rw [hstage]; rfl))
  | letThrough t id csrfToken hstage hresolve hallows hshrinks =>
      exact hs.letThrough hmac hstage hresolve hallows hshrinks
  | @act t id csrfToken q user hstage =>
      have hadmitted := hs.stages t
      rw [hstage] at hadmitted
      refine hs.shrink hmac (.refl _) (by simp) trivial (holds_of_singleton ?_)
      rw [List.append_nil]
      exact hadmitted
  | @leave t id csrfToken cookieValue x store hresolve hshrinks =>
      obtain ⟨-, hx, -⟩ := SessionStore.of_resolve hmac hresolve
      refine hs.shrink hmac hshrinks (by simp) ?_ (by simp)
      rw [List.append_nil]
      exact (hs.stored x.id x hx).opened
  | close t id csrfToken hstage => exact hs.close hmac hstage
  | tick now hle => exact hs.tick hmac hle
  | change a => exact ⟨hs.stored, hs.stages, hs.events⟩

omit [DecidableEq ι] in
theorem start_accountable (now : T) (accounts : Accounts) :
    (Server.start now accounts : Server ι T).Accountable hmac settings ttl where
  stored := fun _ _ hx => by cases hx
  stages := fun _ => trivial
  events := by
    intro early e late hsplit
    have hlength := congrArg List.length hsplit
    simp [Server.start] at hlength

/-- Run lemma. -/
theorem accountable_of_run {labels : List (ApiLabel ι T)} {s : Server ι T} {now : T}
    {accounts : Accounts}
    (hunguessed : Along (apiStep hmac settings ttl) (Unguessed hmac) (.start now accounts) labels)
    (hrun : execute (apiStep hmac settings ttl) (.start now accounts) labels = some s) :
    s.Accountable hmac settings ttl :=
  invariant_along (fun _ _ _ hv hok hstep => step_accountable hmac hv hok hstep)
    (start_accountable hmac now accounts) hunguessed hrun

/-- **Every act goes back to a login.**  Where the body of an endpoint runs for a user, a
request was let through before that carries the cookie of a session and, if it can change
anything, its token; the session was opened by a login of this user, whose password PAM
accepted and whom the groups of the machine then entitled to what the endpoint takes; and at
the time it was let through nobody had closed the session, and it had not expired. -/
theorem acts_are_authorised {labels : List (ApiLabel ι T)} {s : Server ι T} {now : T}
    {accounts : Accounts}
    (hunguessed : Along (apiStep hmac settings ttl) (Unguessed hmac) (.start now accounts) labels)
    (hrun : execute (apiStep hmac settings ttl) (.start now accounts) labels = some s)
    {early late : List (Event ι T)} {t : ι} {q : ApiRequest} {user : User}
    (hacted : s.events = early ++ .acted t q user :: late) :
    ∃ before after time x, early = before ++ .admitted t q user time :: after ∧
      Backed hmac settings ttl before q user time x ∧
      ∀ required, q.endpoint.guard = .role required →
        ∃ u a payload, .granted u a payload x.role ∈ before ∧
          payload.username = user.username ∧ Entitled settings a user.username required := by
  have hs := accountable_of_run hmac hunguessed hrun
  obtain ⟨time, hmem⟩ := hs.events early _ late hacted
  obtain ⟨before, after, rfl⟩ := List.append_of_mem hmem
  obtain ⟨x, hbacked⟩ := hs.events before _ (after ++ .acted t q user :: late) (by
    rw [hacted, List.append_assoc, List.cons_append])
  refine ⟨before, after, time, x, rfl, hbacked, fun required hguard => ?_⟩
  obtain ⟨first, u, second, rfl, -, -, payload, a, a', hname, -, hrole, hsub⟩ := hbacked.issuer
  have hallows := hbacked.allows
  rw [hguard] at hallows
  have huser : payload.username = user.username := by
    rw [hname, ← hbacked.user]
    rfl
  have hgranted : Event.granted u a' payload x.role ∈ first := hsub.subset (by simp)
  refine ⟨u, a', payload, List.mem_append_left _ hgranted, huser, ?_⟩
  rw [← huser]
  exact roleFor_can_iff.mp ⟨x.role, hrole, hallows⟩

/-- A machine with one administrator. -/
def oneAdministrator : Accounts where
  pam username password := username = "alice" && password = "secret"
  getgrnam group := if group = "seapath-admin" then some (["alice"], 900) else none
  getpwnam _ := none

/-- She logs in and launches a run. -/
def aliceLaunches : List (ApiLabel Bool Nat) :=
  let payload : LoginRequest := ⟨"alice", "secret", by decide, by decide⟩
  let cookie := some (sign (fun _ => "5d41402a") "Zm9v")
  [.arrive false ⟨.login payload, none, none⟩, .proceed false "" "", .proceed false "" "",
    .proceed false "Zm9v" "dG9rZW4", .arrive true ⟨.launch, cookie, some "dG9rZW4"⟩,
    .proceed true "" "", .tick 5, .proceed true "" ""]

theorem acts_are_authorised_alice :
    ∃ s : Server Bool Nat,
      execute (apiStep (fun _ => "5d41402a") {} 10) (.start 0 oneAdministrator) aliceLaunches =
        some s ∧
      ∃ early late t q user, s.events = early ++ .acted t q user :: late ∧
        ∃ before after time x, early = before ++ .admitted t q user time :: after ∧
          Backed (fun _ => "5d41402a") {} 10 before q user time x ∧
          ∀ required, q.endpoint.guard = .role required →
            ∃ u a payload, .granted u a payload x.role ∈ before ∧
              payload.username = user.username ∧ Entitled {} a user.username required := by
  have hunguessed : Along (apiStep (fun _ => "5d41402a") {} 10) (Unguessed fun _ => "5d41402a")
      (.start 0 oneAdministrator) aliceLaunches := by
    decide +kernel
  have hrun : (execute (apiStep (fun _ => "5d41402a") {} 10) (.start 0 oneAdministrator)
      aliceLaunches).any (fun s => s.events.getLast?.any fun
        | .acted _ _ _ => true
        | _ => false) = true := by
    decide +kernel
  rw [Option.any_eq_true] at hrun
  obtain ⟨s, hs, hlast⟩ := hrun
  rw [Option.any_eq_true] at hlast
  obtain ⟨e, he, hacted⟩ := hlast
  have hsplit := List.dropLast_append_getLast? e he
  cases e with
  | acted t q user =>
      exact ⟨s, hs, _, [], t, q, user, hsplit.symm,
        acts_are_authorised _ hunguessed hs hsplit.symm⟩
  | _ => cases hacted

end SeapathWebui.Core
