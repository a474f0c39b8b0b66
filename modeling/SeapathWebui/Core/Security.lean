/-
  Core/Security.lean --- who is calling, may they, and is this a forgery.

  Source: app/core/security.py, with the errors of app/core/errors.py.

  Two layers look at the session cookie of a request, each for itself: the middleware,
  which checks the token, and the dependency of the endpoint, which checks the role.
  Between the two other requests log in and out and time passes.  The middleware lets a
  request through whose cookie resolves to nothing; `access_gate` says that nothing can
  come of it.
-/
import SeapathWebui.Core.Sessions

set_option autoImplicit false

namespace SeapathWebui.Core

open SeapathWebui.Foundation

/-! ## Requests and refusals -/

/-- `_SAFE_METHODS` -/
def safeMethods : List String := ["GET", "HEAD", "OPTIONS", "TRACE"]

/-- What the two layers read of a request: the method, the session cookie and the header
of the token. -/
structure Request where
  method : String
  cookie : Option String
  csrfHeader : Option String
  deriving DecidableEq, Repr

/-- The error envelope of a refused request, and its status. -/
structure Refusal where
  statusCode : Nat
  code : String
  message : String
  detail : List (String × String) := []
  deriving DecidableEq, Repr

/-- How a request ends before its endpoint. -/
inductive Stop
  | refused (refusal : Refusal)
  /-- `compare_digest` raised -/
  | raised
  deriving DecidableEq, Repr

/-- `_csrf_failure` -/
def csrfFailure : Refusal where
  statusCode := 403
  code := "csrf_failed"
  message := "The request is missing a valid CSRF token. Reload the page and retry."

/-- `AuthenticationRequired` -/
def authenticationRequired : Refusal where
  statusCode := 401
  code := "authentication_required"
  message := "Authentication required."

/-- The value of the enumeration. -/
def Role.value : Role → String
  | .admin => "admin"
  | .operator => "operator"
  | .viewer => "viewer"

/-- The `PermissionDenied` of `require_role`. -/
def permissionDenied (required role : Role) : Refusal where
  statusCode := 403
  code := "permission_denied"
  message := "This action requires the " ++ required.value ++ " role."
  detail := [("required", required.value), ("role", role.value)]

/-! ## The two layers -/

variable {T : Type*} [LinearOrder T] (hmac : Hmac)

/-- `CsrfMiddleware.dispatch`, up to `call_next`: `none` is the call. -/
def dispatch (request : Request) (store : SessionStore T) (now : T) :
    SessionStore T × Option Stop :=
  if request.method ∉ safeMethods ∧ request.cookie.getD "" ≠ "" then
    match store.resolve hmac now request.cookie with
    | (store, none) => (store, some .raised)
    | (store, some none) => (store, none)
    | (store, some (some x)) =>
        match compareDigest (request.csrfHeader.getD "") x.csrfToken with
        | none => (store, some .raised)
        | some true => (store, none)
        | some false => (store, some (.refused csrfFailure))
  else (store, none)

/-- `require_user` -/
def requireUser (request : Request) (store : SessionStore T) (now : T) :
    SessionStore T × Except Stop User :=
  match store.resolve hmac now request.cookie with
  | (store, none) => (store, .error .raised)
  | (store, some none) => (store, .error (.refused authenticationRequired))
  | (store, some (some x)) => (store, .ok x.user)

/-- The dependency that `require_role` makes. -/
def requireRole (required : Role) (request : Request) (store : SessionStore T) (now : T) :
    SessionStore T × Except Stop User :=
  match requireUser hmac request store now with
  | (store, .error e) => (store, .error e)
  | (store, .ok user) =>
      if user.role.can required then (store, .ok user)
      else (store, .error (.refused (permissionDenied required user.role)))

/-- The body of a guarded endpoint runs for the user: the middleware lets the request
through, `steps` happen, and the role is found to be enough. -/
def RunsBody [Add T] (ttl : T) (request : Request) (required : Role) (s₁ : Clocked T)
    (steps : List (SessionStep T)) (s₂ : Clocked T) (user : User) : Prop :=
  (dispatch hmac request s₁.store s₁.now).2 = none ∧
    execute (sessionStep hmac ttl) { s₁ with store := (dispatch hmac request s₁.store s₁.now).1 }
      steps = some s₂ ∧
    (requireRole hmac required request s₂.store s₂.now).2 = .ok user

/-- The session is in the store, and has not expired. -/
def Session.LiveIn (x : Session T) (s : Clocked T) : Prop :=
  s.store.sessions.get? x.id = some x ∧ s.now < x.expiresAt

/-! ## What each layer lets through -/

/-- The middleware drops a session only if it has expired. -/
theorem get?_dispatch {request : Request} {store : SessionStore T} {now : T} {id : String}
    {x : Session T} (h : (dispatch hmac request store now).1.sessions.get? id = some x) :
    store.sessions.get? id = some x := by
  have hstore : (dispatch hmac request store now).1 = store ∨
      (dispatch hmac request store now).1 = (store.resolve hmac now request.cookie).1 := by
    unfold dispatch
    split
    · cases hresolve : store.resolve hmac now request.cookie with
      | mk after found =>
          cases found with
          | none => exact .inr rfl
          | some found =>
              cases found with
              | none => exact .inr rfl
              | some y =>
                  refine .inr ?_
                  cases hdigest : compareDigest (request.csrfHeader.getD "") y.csrfToken with
                  | none => simp only [hdigest]
                  | some equal => cases equal <;> simp only [hdigest]
    · exact .inl rfl
  rcases hstore with hsame | hresolved
  · exact hsame ▸ h
  · rw [hresolved] at h
    rcases store.resolve_fst hmac now request.cookie with hsame | ⟨sessionId, hget⟩
    · exact hsame ▸ h
    · exact SessionStore.get?_get (hget ▸ h)

/-- An unsafe request whose cookie resolves passes only with the token of the session. -/
theorem csrfHeader_of_dispatch {request : Request} {store : SessionStore T} {now : T}
    {x : Session T} (hmethod : request.method ∉ safeMethods)
    (hresolve : (store.resolve hmac now request.cookie).2 = some (some x))
    (hpasses : (dispatch hmac request store now).2 = none) :
    request.csrfHeader.getD "" = x.csrfToken := by
  have hcookie : request.cookie.getD "" ≠ "" := by
    rw [(SessionStore.of_resolve hmac hresolve).1]
    exact sign_ne_empty hmac x.id
  unfold dispatch at hpasses
  rw [if_pos ⟨hmethod, hcookie⟩] at hpasses
  cases hfound : store.resolve hmac now request.cookie with
  | mk after found =>
      rw [hfound] at hresolve hpasses
      obtain rfl : found = some (some x) := hresolve
      simp only at hpasses
      unfold compareDigest at hpasses
      by_cases hascii : Ascii (request.csrfHeader.getD "") ∧ Ascii x.csrfToken
      · by_cases hequal : request.csrfHeader.getD "" = x.csrfToken
        · exact hequal
        · simp [hascii, hequal] at hpasses
      · simp [hascii] at hpasses

theorem requireRole_eq_ok {required : Role} {request : Request} {store : SessionStore T}
    {now : T} {user : User} (h : (requireRole hmac required request store now).2 = .ok user) :
    ∃ x, (store.resolve hmac now request.cookie).2 = some (some x) ∧ user = x.user ∧
      required.rank ≤ x.role.rank := by
  unfold requireRole requireUser at h
  cases hfound : store.resolve hmac now request.cookie with
  | mk after found =>
      rw [hfound] at h
      cases found with
      | none => cases h
      | some found =>
          cases found with
          | none => cases h
          | some x =>
              simp only at h
              split at h
              · rename_i hcan
                obtain rfl := Except.ok.inj h
                exact ⟨x, rfl, rfl, of_decide_eq_true hcan⟩
              · cases h

/-! ## What happens between them -/

/-- What one store resolves, another does that has the session too. -/
theorem resolve_of_live {store other : SessionStore T} {now later : T}
    {cookieValue : Option String} {x : Session T}
    (h : (store.resolve hmac now cookieValue).2 = some (some x))
    (hx : other.sessions.get? x.id = some x) (hlive : later < x.expiresAt) :
    (other.resolve hmac later cookieValue).2 = some (some x) := by
  unfold SessionStore.resolve at h ⊢
  split at h
  · cases h
  · rename_i value
    split at h
    · cases h
    · rename_i hne
      rw [if_neg hne]
      split at h
      · cases h
      · cases h
      · rename_i sessionId hunsign
        obtain ⟨hstored, -⟩ := SessionStore.get_eq_some.mp (Option.some.inj h)
        obtain rfl := store.keyed sessionId x hstored
        simp only
        exact congrArg some (SessionStore.get_eq_some.mpr ⟨hx, hlive⟩)

variable [Add T] {ttl : T}

/-- Step lemma: time does not go back, and only its creation brings a session into the
store. -/
theorem of_sessionStep {s t : Clocked T} {step : SessionStep T}
    (h : sessionStep hmac ttl s step = some t) :
    s.now ≤ t.now ∧ ∀ id x, id ∉ createdIds [step] → t.store.sessions.get? id = some x →
      s.store.sessions.get? id = some x := by
  cases step with
  | create user created csrfToken =>
      obtain rfl := Option.some.inj h
      refine ⟨le_rfl, fun id x hid hx => ?_⟩
      have hne : ¬ created = id := by
        rintro rfl
        exact hid List.mem_cons_self
      obtain ⟨hstored, -⟩ := SessionStore.get?_create.mp hx
      rwa [if_neg hne] at hstored
  | get sessionId =>
      obtain rfl := Option.some.inj h
      exact ⟨le_rfl, fun id x _ hx => SessionStore.get?_get hx⟩
  | resolve cookieValue =>
      obtain rfl := Option.some.inj h
      refine ⟨le_rfl, fun id x _ hx => ?_⟩
      rcases s.store.resolve_fst hmac s.now cookieValue with hsame | ⟨sessionId, hget⟩
      · exact hsame ▸ hx
      · exact SessionStore.get?_get (hget ▸ hx)
  | delete sessionId =>
      obtain rfl := Option.some.inj h
      exact ⟨le_rfl, fun id x _ hx => (SessionStore.get?_delete.mp hx).1⟩
  | tick now =>
      simp only [sessionStep] at h
      split at h
      · rename_i hle
        obtain rfl := Option.some.inj h
        exact ⟨hle, fun id x _ hx => hx⟩
      · cases h

/-- Run lemma. -/
theorem of_sessionRun {steps : List (SessionStep T)} :
    ∀ {s t : Clocked T}, execute (sessionStep hmac ttl) s steps = some t →
      s.now ≤ t.now ∧ ∀ id x, id ∉ createdIds steps → t.store.sessions.get? id = some x →
        s.store.sessions.get? id = some x := by
  induction steps with
  | nil =>
      intro s t hrun
      obtain rfl := Option.some.inj hrun
      exact ⟨le_rfl, fun id x _ hx => hx⟩
  | cons step rest ih =>
      intro s t hrun
      obtain ⟨u, hstep, hrest⟩ := execute_cons_eq_some.mp hrun
      obtain ⟨hnow, hback⟩ := of_sessionStep hmac hstep
      obtain ⟨hnow', hback'⟩ := ih hrest
      refine ⟨le_trans hnow hnow', fun id x hid hx => ?_⟩
      have hsplit : createdIds (step :: rest) = createdIds [step] ++ createdIds rest := by
        rw [createdIds, ← List.singleton_append, List.filterMap_append]
        rfl
      rw [hsplit, List.mem_append, not_or] at hid
      exact hback id x hid.1 (hback' id x hid.2 hx)

/-- **The access gate.**  The body of a guarded endpoint runs only for one session, live
at both layers, that the cookie names, whose role is enough and whose token the header
carries.  What `hfresh` says is that nobody guessed the identifier of a session to come:
none that is created between the layers is the one the cookie names. -/
theorem access_gate {request : Request} {required : Role} {s₁ s₂ : Clocked T}
    {steps : List (SessionStep T)} {user : User} (hmethod : request.method ∉ safeMethods)
    (hfresh : ∀ id ∈ createdIds steps, request.cookie ≠ some (sign hmac id))
    (hruns : RunsBody hmac ttl request required s₁ steps s₂ user) :
    ∃ x : Session T, request.cookie = some (sign hmac x.id) ∧ x.LiveIn s₁ ∧ x.LiveIn s₂ ∧
      s₁.Resolves hmac request.cookie x ∧ s₂.Resolves hmac request.cookie x ∧
      required.rank ≤ x.role.rank ∧ request.csrfHeader.getD "" = x.csrfToken ∧
      user = x.user := by
  obtain ⟨hpasses, hrun, hrole⟩ := hruns
  obtain ⟨x, hlater, huser, hrank⟩ := requireRole_eq_ok hmac hrole
  obtain ⟨hcookie, hstored, hlive⟩ := SessionStore.of_resolve hmac hlater
  obtain ⟨hnow, hback⟩ := of_sessionRun hmac hrun
  have hid : x.id ∉ createdIds steps := fun hmem => hfresh x.id hmem hcookie
  have hbefore : s₁.store.sessions.get? x.id = some x :=
    get?_dispatch hmac (hback x.id x hid hstored)
  have hliveBefore : s₁.now < x.expiresAt := lt_of_le_of_lt hnow hlive
  have hearlier := resolve_of_live hmac hlater hbefore hliveBefore
  have htoken := csrfHeader_of_dispatch hmac hmethod hearlier hpasses
  exact ⟨x, hcookie, ⟨hbefore, hliveBefore⟩, ⟨hstored, hlive⟩, hearlier, hlater, hrank, htoken,
    huser⟩

/-- The state after an administrator logged in. -/
def loggedIn : Clocked Nat where
  store := (SessionStore.empty.create 10 0 ⟨"admin", .admin⟩ "Zm9v" "dG9rZW4").1
  now := 0

/-- A request of the administrator. -/
def launchRequest : Request where
  method := "POST"
  cookie := some (sign (fun _ => "5d41402a") "Zm9v")
  csrfHeader := some "dG9rZW4"

theorem access_gate_loggedIn :
    ∃ s₂ : Clocked Nat, ∃ x : Session Nat,
      launchRequest.cookie = some (sign (fun _ => "5d41402a") x.id) ∧
        x.LiveIn loggedIn ∧ x.LiveIn s₂ ∧
        loggedIn.Resolves (fun _ => "5d41402a") launchRequest.cookie x ∧
        s₂.Resolves (fun _ => "5d41402a") launchRequest.cookie x ∧
        Role.operator.rank ≤ x.role.rank ∧ launchRequest.csrfHeader.getD "" = x.csrfToken ∧
        (⟨"admin", .admin⟩ : User) = x.user := by
  have hruns : (execute (sessionStep (fun _ => "5d41402a") 10)
      { loggedIn with
        store := (dispatch (fun _ => "5d41402a") launchRequest loggedIn.store loggedIn.now).1 }
      [.create ⟨"viewer", .viewer⟩ "YmFy" "t1", .tick 7]).any (fun s =>
        match (requireRole (fun _ => "5d41402a") .operator launchRequest s.store s.now).2 with
        | .ok user => user = ⟨"admin", .admin⟩
        | .error _ => false) = true := by
    decide +kernel
  rw [Option.any_eq_true] at hruns
  obtain ⟨s₂, hs₂, hbody⟩ := hruns
  have hrole : (requireRole (fun _ => "5d41402a") .operator launchRequest s₂.store s₂.now).2 =
      .ok ⟨"admin", .admin⟩ := by
    split at hbody
    · rename_i user huser
      rw [huser, of_decide_eq_true hbody]
    · cases hbody
  have hpasses : (dispatch (fun _ => "5d41402a") launchRequest loggedIn.store
      loggedIn.now).2 = none := by
    decide +kernel
  exact ⟨s₂, access_gate _ (by decide) (by decide +kernel) ⟨hpasses, hs₂, hrole⟩⟩

end SeapathWebui.Core
