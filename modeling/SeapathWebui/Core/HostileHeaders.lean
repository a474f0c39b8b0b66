/-
  Core/HostileHeaders.lean --- cookies and tokens that nobody issued.

  Source: `unsign` and `resolve` of app/core/sessions.py, and `CsrfMiddleware.dispatch` of
  app/core/security.py.

  Both comparisons are of strings, and `compare_digest` raises where one of them is not
  ASCII.  What it is compared with always is: the signature is in hexadecimal and the
  tokens are URL safe (`urlSafe_of_run`).  So a request is answered exactly if the two
  strings that it brings to a comparison are ASCII, and the second comparison is only come
  to with a session.
-/
import SeapathWebui.Core.Security

set_option autoImplicit false

namespace SeapathWebui.Core

open SeapathWebui.Foundation SeapathWebui.Foundation.Text

/-! ## What is compared -/

/-- The characters of URL safe Base64. -/
def urlSafeAlphabet : String :=
  "ABCDEFGHIJKLMNOPQRSTUVWXYZabcdefghijklmnopqrstuvwxyz0123456789-_"

/-- A text as `secrets.token_urlsafe` returns it. -/
def UrlSafe (s : String) : Prop := ∀ c ∈ s.toList, c ∈ urlSafeAlphabet.toList

instance (s : String) : Decidable (UrlSafe s) := List.decidableBAll _ _

theorem ascii_urlSafeAlphabet : Ascii urlSafeAlphabet := by decide

theorem UrlSafe.ascii {s : String} (h : UrlSafe s) : Ascii s := fun c hc =>
  ascii_urlSafeAlphabet c (h c hc)

theorem UrlSafe.dot_not_mem {s : String} (h : UrlSafe s) : '.' ∉ s.toList := fun hdot =>
  absurd (h '.' hdot) (by decide)

theorem compareDigest_eq_none {a b : String} (hb : Ascii b) :
    compareDigest a b = none ↔ ¬ Ascii a := by
  unfold compareDigest
  by_cases ha : Ascii a
  · simp [ha, hb]
  · simp [ha]

/-! ## The cookie -/

/-- The signature of the cookie, the text after its first dot, is ASCII. -/
def AsciiSignature (cookieValue : String) : Prop :=
  ∀ supplied, (partition '.' cookieValue).2 = some supplied → Ascii supplied

variable (hmac : Hmac)

theorem unsign_eq_none (hhex : ∀ text, Ascii (hmac text)) {cookieValue : String} :
    unsign hmac cookieValue = none ↔ ¬ AsciiSignature cookieValue := by
  unfold unsign AsciiSignature
  split
  · rename_i hpartition
    simp [hpartition]
  · rename_i sessionId supplied hpartition
    have hsignature : Ascii (signature hmac sessionId) := hhex _
    rw [Option.map_eq_none_iff, compareDigest_eq_none hsignature, hpartition]
    simp

variable {T : Type*} [LinearOrder T]

/-- A lookup raises where the signature cannot be compared, and nowhere else. -/
theorem resolve_eq_none {store : SessionStore T} {now : T} {cookieValue : Option String} :
    (store.resolve hmac now cookieValue).2 = none ↔
      ∃ value, cookieValue = some value ∧ unsign hmac value = none := by
  unfold SessionStore.resolve
  split
  · simp
  · rename_i value
    split
    · rename_i hempty
      subst hempty
      have hunsign : unsign hmac "" ≠ none := by
        have hpartition : partition '.' "" = ("", none) := by decide
        simp [unsign, hpartition]
      simpa using hunsign
    · split
      · rename_i hunsign
        simpa using hunsign
      · rename_i hunsign
        simp [hunsign]
      · rename_i hunsign
        simp [hunsign]

/-! ## The middleware -/

/-- How the comparison of the token ends the request. -/
def tokenStop : Option Bool → Option Stop
  | none => some .raised
  | some true => none
  | some false => some (.refused csrfFailure)

/-- With a session the header is compared, without one it is not looked at. -/
theorem dispatch_of_resolve {request : Request} {store : SessionStore T} {now : T}
    {found : Option (Session T)} (hmethod : request.method ∉ safeMethods)
    (hcookie : request.cookie.getD "" ≠ "")
    (hresolve : (store.resolve hmac now request.cookie).2 = some found) :
    (dispatch hmac request store now).2 =
      found.bind fun x =>
        tokenStop (compareDigest (request.csrfHeader.getD "") x.csrfToken) := by
  unfold dispatch
  rw [if_pos ⟨hmethod, hcookie⟩]
  cases hfound : store.resolve hmac now request.cookie with
  | mk after result =>
      rw [hfound] at hresolve
      obtain rfl : result = some found := hresolve
      cases found with
      | none => rfl
      | some x =>
          simp only [Option.bind_some]
          cases hdigest : compareDigest (request.csrfHeader.getD "") x.csrfToken with
          | none => rfl
          | some equal => cases equal <;> rfl

/-- The middleware answers 403, or passes the request on. -/
def Answers (request : Request) (s : Clocked T) : Prop :=
  (dispatch hmac request s.store s.now).2 = none ∨
    (dispatch hmac request s.store s.now).2 = some (.refused csrfFailure)

/-- The header can be compared, if it comes to that: the method is unsafe, and the cookie is
the signed form of a session that is there. -/
def AsciiToken (request : Request) (s : Clocked T) : Prop :=
  request.method ∉ safeMethods → ∀ x : Session T, x.LiveIn s →
    request.cookie = some (sign hmac x.id) → Ascii (request.csrfHeader.getD "")

/-- Every session of the store has tokens that `secrets` made. -/
def UrlSafeTokens (store : SessionStore T) : Prop :=
  ∀ id x, store.sessions.get? id = some x → UrlSafe x.id ∧ UrlSafe x.csrfToken

theorem csrfFailure_answers_iff (hhex : ∀ text, Ascii (hmac text)) {request : Request}
    {s : Clocked T} (htokens : UrlSafeTokens s.store)
    (hresolves : (s.store.resolve hmac s.now request.cookie).2 ≠ none) :
    Answers hmac request s ↔ AsciiToken hmac request s := by
  obtain ⟨found, hfound⟩ := Option.ne_none_iff_exists'.mp hresolves
  by_cases hchecked : request.method ∉ safeMethods ∧ request.cookie.getD "" ≠ ""
  · have hdispatch := dispatch_of_resolve hmac hchecked.1 hchecked.2 hfound
    cases found with
    | none =>
        refine iff_of_true (.inl hdispatch) fun _ x hlive hcookie => ?_
        -- a live session under its own cookie would have been found
        have hsession := SessionStore.resolve_sign hmac hhex
          (htokens x.id x hlive.1).1.dot_not_mem hlive.1 hlive.2
        rw [← hcookie, hfound] at hsession
        cases hsession
    | some x =>
        obtain ⟨hcookie, hstored, hnow⟩ := SessionStore.of_resolve hmac hfound
        have htoken : Ascii x.csrfToken := (htokens x.id x hstored).2.ascii
        have hheader : AsciiToken hmac request s ↔ Ascii (request.csrfHeader.getD "") :=
          ⟨fun h => h hchecked.1 x ⟨hstored, hnow⟩ hcookie, fun h _ _ _ _ => h⟩
        rw [hheader, Answers, hdispatch, Option.bind_some]
        by_cases hascii : Ascii (request.csrfHeader.getD "")
        · refine iff_of_true ?_ hascii
          rw [compareDigest, if_pos ⟨hascii, htoken⟩]
          by_cases hequal : request.csrfHeader.getD "" = x.csrfToken
          · exact .inl (by simp [hequal, tokenStop])
          · exact .inr (by simp [hequal, tokenStop])
        · rw [(compareDigest_eq_none htoken).mpr hascii]
          exact iff_of_false (by simp [tokenStop]) hascii
  · have hpasses : (dispatch hmac request s.store s.now).2 = none := by
      unfold dispatch
      rw [if_neg hchecked]
    refine iff_of_true (.inl hpasses) fun hmethod x _ hcookie => ?_
    refine absurd ⟨hmethod, ?_⟩ hchecked
    rw [hcookie]
    exact sign_ne_empty hmac x.id

/-! ## Histories -/

variable [Add T] {ttl start : T}

/-- The tokens of the sessions that a step creates are made by `secrets`. -/
def SessionStep.UrlSafe : SessionStep T → Prop
  | .create _ id csrfToken => Core.UrlSafe id ∧ Core.UrlSafe csrfToken
  | .get _ | .resolve _ | .delete _ | .tick _ => True

/-- Step lemma. -/
theorem urlSafe_of_step {s t : Clocked T} {step : SessionStep T} (hs : UrlSafeTokens s.store)
    (hstep : step.UrlSafe) (h : sessionStep hmac ttl s step = some t) :
    UrlSafeTokens t.store := by
  cases step with
  | create user created csrfToken =>
      obtain rfl := Option.some.inj h
      intro id x hx
      obtain ⟨hstored, -⟩ := SessionStore.get?_create.mp hx
      split at hstored
      · obtain rfl := hstored
        exact hstep
      · exact hs id x hstored
  | get sessionId =>
      obtain rfl := Option.some.inj h
      exact fun id x hx => hs id x (SessionStore.get?_get hx)
  | resolve cookieValue =>
      obtain rfl := Option.some.inj h
      intro id x hx
      rcases s.store.resolve_fst hmac s.now cookieValue with hsame | ⟨sessionId, hget⟩
      · exact hs id x (hsame ▸ hx)
      · exact hs id x (SessionStore.get?_get (hget ▸ hx))
  | delete sessionId =>
      obtain rfl := Option.some.inj h
      exact fun id x hx => hs id x (SessionStore.get?_delete.mp hx).1
  | tick now =>
      simp only [sessionStep] at h
      split at h
      · obtain rfl := Option.some.inj h
        exact hs
      · cases h

/-- Run lemma. -/
theorem urlSafe_of_run {steps : List (SessionStep T)} :
    ∀ {s t : Clocked T}, UrlSafeTokens s.store → (∀ step ∈ steps, step.UrlSafe) →
      execute (sessionStep hmac ttl) s steps = some t → UrlSafeTokens t.store := by
  induction steps with
  | nil =>
      intro s t hs _ hrun
      obtain rfl := Option.some.inj hrun
      exact hs
  | cons step rest ih =>
      intro s t hs hsteps hrun
      obtain ⟨u, hstep, hrest⟩ := execute_cons_eq_some.mp hrun
      have hu := urlSafe_of_step hmac hs (hsteps step List.mem_cons_self) hstep
      exact ih hu (fun other hother => hsteps other (List.mem_cons_of_mem step hother)) hrest

/-- Nothing raises on the cookie and the header of a request. -/
structure NeverRaises (request : Request) (s : Clocked T) : Prop where
  unsign : ∀ value, request.cookie = some value → unsign hmac value ≠ none
  resolve : (s.store.resolve hmac s.now request.cookie).2 ≠ none
  answers : Answers hmac request s

/-- **Hostile headers are refused and not crashed on exactly if the signature of the cookie is
ASCII, and the header too where it is compared with the token of a session.** -/
theorem never_raises_iff (hhex : ∀ text, Ascii (hmac text)) {steps : List (SessionStep T)}
    {s : Clocked T} (hsteps : ∀ step ∈ steps, step.UrlSafe)
    (hrun : execute (sessionStep hmac ttl) (Clocked.start start) steps = some s)
    (request : Request) :
    NeverRaises hmac request s ↔
      (∀ value, request.cookie = some value → AsciiSignature value) ∧
        AsciiToken hmac request s := by
  have htokens : UrlSafeTokens s.store :=
    urlSafe_of_run hmac (by rintro id x ⟨⟩) hsteps hrun
  have hunsign : ∀ value, unsign hmac value ≠ none ↔ AsciiSignature value := fun value =>
    (unsign_eq_none hmac hhex).not_left
  have hresolve : (∀ value, request.cookie = some value → AsciiSignature value) →
      (s.store.resolve hmac s.now request.cookie).2 ≠ none := by
    intro hcookie hnone
    obtain ⟨value, hvalue, hraises⟩ := (resolve_eq_none hmac).mp hnone
    exact (hunsign value).mpr (hcookie value hvalue) hraises
  constructor
  · intro h
    exact ⟨fun value hvalue => (hunsign value).mp (h.unsign value hvalue),
      (csrfFailure_answers_iff hmac hhex htokens h.resolve).mp h.answers⟩
  · rintro ⟨hcookie, htoken⟩
    exact ⟨fun value hvalue => (hunsign value).mpr (hcookie value hvalue), hresolve hcookie,
      (csrfFailure_answers_iff hmac hhex htokens (hresolve hcookie)).mpr htoken⟩

/-- An administrator logs in. -/
def oneLogin : List (SessionStep Nat) := [.create ⟨"admin", .admin⟩ "Zm9v" "dG9rZW4"]

theorem urlSafe_oneLogin : ∀ step ∈ oneLogin, step.UrlSafe := by
  intro step hstep
  obtain rfl := List.mem_singleton.mp hstep
  exact ⟨by decide, by decide⟩

theorem never_raises_oneLogin :
    ∃ s, execute (sessionStep (fun _ => "5d41402a") 10) (Clocked.start 0) oneLogin = some s ∧
      (NeverRaises (fun _ => "5d41402a") launchRequest s ↔
        (∀ value, launchRequest.cookie = some value → AsciiSignature value) ∧
          AsciiToken (fun _ => "5d41402a") launchRequest s) :=
  ⟨_, rfl, never_raises_iff _ (fun _ => by decide) urlSafe_oneLogin rfl launchRequest⟩

/-- The cookie raises without a session, the header raises with one. -/
theorem hostile_headers_raise :
    (∀ step ∈ oneLogin, step.UrlSafe) ∧
      ∃ s, execute (sessionStep (fun _ => "5d41402a") 10) (Clocked.start 0) oneLogin = some s ∧
        ¬ NeverRaises (fun _ => "5d41402a")
            { method := "GET", cookie := some "a.é", csrfHeader := none } s ∧
          ¬ NeverRaises (fun _ => "5d41402a") { launchRequest with csrfHeader := some "é" } s := by
  refine ⟨urlSafe_oneLogin, _, rfl, fun h => ?_, fun h => ?_⟩
  · exact h.unsign "a.é" rfl (by decide +kernel)
  · rcases h.answers with hpasses | hrefused
    · exact absurd hpasses (by decide +kernel)
    · exact absurd hrefused (by decide +kernel)

end SeapathWebui.Core
