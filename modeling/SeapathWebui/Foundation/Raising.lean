/-
  Foundation/Raising.lean --- what a computation may raise, and what a handler lets
  through.

  A computation returns or raises one exception.  `RaisesOnly p x` bounds the exception:
  whatever `x` raises satisfies `p`.  It composes along a sequence as returning does, so
  that a block of code is judged against the clause around it step by step: a `try` that
  catches `p` returns exactly if its block raises only `p` (`returns_attempt`).

  The rules are equivalences where they can be.  What a sequence does after a step is
  asked only of the results the step can have, which is what makes the exact condition of
  a block the conjunction of those of its steps.
-/
import SeapathWebui.Foundation.Value

set_option autoImplicit false

namespace SeapathWebui.Foundation

variable {ε α β : Type}

/-- Whatever the computation raises satisfies `p`. -/
def RaisesOnly (p : ε → Prop) (x : Except ε α) : Prop := ∀ e, x = .error e → p e

variable {p q : ε → Prop} {x : Except ε α} {f : α → Except ε β}

@[simp] theorem raisesOnly_ok (a : α) : RaisesOnly p (.ok a : Except ε α) := by
  intro e h
  exact absurd h (ok_ne_error a e)

@[simp] theorem raisesOnly_pure (a : α) : RaisesOnly p (pure a : Except ε α) := raisesOnly_ok a

@[simp] theorem raisesOnly_error {e : ε} : RaisesOnly p (.error e : Except ε α) ↔ p e := by
  constructor
  · intro h
    exact h e rfl
  · intro h e' heq
    obtain rfl := Except.error.inj heq
    exact h

theorem raisesOnly_of_returns (h : Returns x) : RaisesOnly p x := by
  obtain ⟨a, rfl⟩ := h
  exact raisesOnly_ok a

/-- A computation returns if it can raise nothing at all. -/
theorem returns_iff_raisesOnly : Returns x ↔ RaisesOnly (fun _ => False) x := by
  cases x with
  | ok a => simp
  | error e => simp

/-- What raises nothing that `p` allows, and only what `p` allows, returns. -/
theorem raisesOnly_iff_returns (h : RaisesOnly (fun e => ¬ p e) x) :
    RaisesOnly p x ↔ Returns x := by
  refine ⟨fun hp => ?_, raisesOnly_of_returns⟩
  rw [returns_iff_raisesOnly]
  exact fun e heq => h e heq (hp e heq)

/-! ## Sequences -/

@[simp] theorem ok_bind (a : α) : ((.ok a : Except ε α) >>= f) = f a := rfl

@[simp] theorem error_bind (e : ε) : ((.error e : Except ε α) >>= f) = .error e := rfl

/-- A sequence raises what its first step raises, or the rest after a result of that. -/
theorem raisesOnly_bind :
    RaisesOnly p (x >>= f) ↔ RaisesOnly p x ∧ ∀ a, x = .ok a → RaisesOnly p (f a) := by
  cases x with
  | ok a => simp [bind, Except.bind]
  | error e => simp [bind, Except.bind]

theorem returns_bind : Returns (x >>= f) ↔ Returns x ∧ ∀ a, x = .ok a → Returns (f a) := by
  simp only [returns_iff_raisesOnly, raisesOnly_bind]

/-! A step whose result is not looked at. -/

section
variable {y : Except ε β}

theorem seq_eq_ok {b : β} : (x >>= fun _ => y) = .ok b ↔ Returns x ∧ y = .ok b := by
  rw [bind_eq_ok, exists_and_right, Returns]

theorem raisesOnly_seq : RaisesOnly p (x >>= fun _ => y) ↔
    RaisesOnly p x ∧ (Returns x → RaisesOnly p y) := by
  rw [raisesOnly_bind, Returns, forall_exists_index]

theorem returns_seq : Returns (x >>= fun _ => y) ↔ Returns x ∧ Returns y := by
  rw [returns_bind, and_congr_right_iff]
  rintro ⟨a, ha⟩
  exact ⟨fun h => h a ha, fun h _ _ => h⟩

end

/-! A sequence that ends with a value. -/

section
variable {g : α → β}

theorem raisesOnly_bind_pure :
    RaisesOnly p (x >>= fun a => pure (g a)) ↔ RaisesOnly p x := by
  rw [raisesOnly_bind]
  exact and_iff_left fun a _ => raisesOnly_pure (g a)

theorem returns_bind_pure : Returns (x >>= fun a => pure (g a)) ↔ Returns x := by
  rw [returns_iff_raisesOnly, returns_iff_raisesOnly, raisesOnly_bind_pure]

theorem bind_pure_eq_ok {b : β} :
    (x >>= fun a => pure (g a)) = .ok b ↔ ∃ a, x = .ok a ∧ b = g a := by
  rw [bind_eq_ok]
  refine exists_congr fun a => and_congr_right fun _ => ?_
  constructor
  · intro h
    exact (Except.ok.inj h).symm
  · rintro rfl
    rfl

end

/-- A loop raises what one of its rounds raises. -/
theorem raisesOnly_mapM {items : List α} (h : ∀ a ∈ items, RaisesOnly p (f a)) :
    RaisesOnly p (items.mapM f) := by
  induction items with
  | nil => exact raisesOnly_pure []
  | cons a rest ih =>
      obtain ⟨hfirst, hrest⟩ := List.forall_mem_cons.mp h
      rw [List.mapM_cons, raisesOnly_bind]
      refine ⟨hfirst, fun b _ => raisesOnly_bind.mpr ⟨ih hrest, fun bs _ => ?_⟩⟩
      exact raisesOnly_pure (b :: bs)

/-- A loop whose rounds are known to return. -/
theorem mapM_of_forall_eq_ok {g : α → β} {items : List α} (h : ∀ a ∈ items, f a = .ok (g a)) :
    items.mapM f = .ok (items.map g) := by
  rw [mapM_eq_ok, List.forall₂_map_right_iff, List.forall₂_same]
  exact h

/-! ## Handlers -/

/-- `try: x except caught: ...`, with a handler that goes on; `none` where it ran. -/
def attempt (caught : ε → Bool) (x : Except ε α) : Except ε (Option α) :=
  match x with
  | .ok a => .ok (some a)
  | .error e => if caught e then .ok none else .error e

variable {caught : ε → Bool}

@[simp] theorem attempt_ok (a : α) :
    attempt caught (.ok a : Except ε α) = .ok (some a) := rfl

theorem attempt_caught {e : ε} (h : caught e = true) :
    attempt caught (.error e : Except ε α) = .ok none := if_pos h

theorem attempt_uncaught {e : ε} (h : caught e = false) :
    attempt caught (.error e : Except ε α) = .error e := if_neg (by simp [h])

/-- A `try` returns exactly if its block raises nothing but what it catches. -/
theorem returns_attempt : Returns (attempt caught x) ↔ RaisesOnly (caught · = true) x := by
  cases x with
  | ok a => simp
  | error e =>
      cases h : caught e with
      | true => simp [attempt_caught h, h]
      | false => simp [attempt_uncaught h, h]

/-- What a `try` lets through is what its block raises and it does not catch. -/
theorem raisesOnly_attempt :
    RaisesOnly p (attempt caught x) ↔ RaisesOnly (fun e => caught e = true ∨ p e) x := by
  cases x with
  | ok a => simp
  | error e =>
      cases h : caught e with
      | true => simp [attempt_caught h, h]
      | false => simp [attempt_uncaught h, h]

/-- `try: x except caught: handler; raise` -/
def cleanUp (caught : ε → Bool) (handler : Except ε Unit) (x : Except ε α) : Except ε α :=
  match x with
  | .ok a => .ok a
  | .error e =>
      if caught e then do
        handler
        .error e
      else .error e

section
variable {handler : Except ε Unit}

theorem cleanUp_caught {e : ε} (h : caught e = true) :
    cleanUp caught handler (.error e : Except ε α) = (handler >>= fun _ => .error e) := if_pos h

theorem cleanUp_uncaught {e : ε} (h : caught e = false) :
    cleanUp caught handler (.error e : Except ε α) = .error e := if_neg (by simp [h])

/-- Cleaning up after a failure does not undo it. -/
theorem returns_cleanUp : Returns (cleanUp caught handler x) ↔ Returns x := by
  cases x with
  | ok a => exact Iff.rfl
  | error e =>
      refine iff_of_false (fun h => ?_) (not_returns_error e)
      cases hc : caught e with
      | true =>
          rw [cleanUp_caught hc] at h
          exact not_returns_error e (returns_seq.mp h).2
      | false =>
          rw [cleanUp_uncaught hc] at h
          exact not_returns_error e h

theorem raisesOnly_cleanUp (hx : RaisesOnly p x) (hhandler : RaisesOnly p handler) :
    RaisesOnly p (cleanUp caught handler x) := by
  cases x with
  | ok a => exact raisesOnly_ok a
  | error e =>
      cases hc : caught e with
      | true =>
          rw [cleanUp_caught hc]
          exact raisesOnly_seq.mpr ⟨hhandler, fun _ => hx⟩
      | false =>
          rw [cleanUp_uncaught hc]
          exact hx

end

end SeapathWebui.Foundation
