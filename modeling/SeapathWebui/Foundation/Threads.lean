/-
  Foundation/Threads.lean --- threads that interleave over shared memory.

  A configuration is one shared memory and the local state of every thread.  A
  step belongs to one thread: it reads and writes the shared memory and that
  thread's own local state, nothing else, so an interleaving is a list of
  (thread, action) pairs.

  Two proof rules are given, each proved once.

  * `assertions_advance`: an assertion about one thread's local state and the
    shared memory survives every step when the owner keeps it and no other
    thread disturbs it.
  * `LockProtocol`: where ownership of a resource is only entered from a state
    in which the resource is free, and only an owner frees it, there is at most
    one owner, whatever the number of threads and the order of their steps.
-/
import Mathlib.Logic.Function.Basic

set_option autoImplicit false

namespace SeapathWebui.Foundation

variable {ι S L A : Type*}

/-- The shared memory and what every thread holds privately. -/
structure Config (ι S L : Type*) where
  shared : S
  locals : ι → L

/-- One thread takes one step.  `act` is `none` where the action is not enabled
at this point of the thread's code. -/
def Config.advance [DecidableEq ι] (act : ι → A → S → L → Option (S × L))
    (c : Config ι S L) (i : ι) (a : A) : Option (Config ι S L) :=
  match act i a c.shared (c.locals i) with
  | none => none
  | some (s, l) => some ⟨s, Function.update c.locals i l⟩

variable [DecidableEq ι] {act : ι → A → S → L → Option (S × L)}

theorem Config.advance_eq_some {c d : Config ι S L} {i : ι} {a : A} :
    c.advance act i a = some d ↔
      ∃ s l, act i a c.shared (c.locals i) = some (s, l) ∧
        d = ⟨s, Function.update c.locals i l⟩ := by
  unfold Config.advance
  cases h : act i a c.shared (c.locals i) with
  | none => simp
  | some p =>
      obtain ⟨s, l⟩ := p
      constructor
      · intro hd
        exact ⟨s, l, rfl, (Option.some.inj hd).symm⟩
      · rintro ⟨s', l', hp, rfl⟩
        cases hp
        rfl

/-! ## Assertions about one thread -/

/-- A thread-modular assertion that each step keeps for its own thread and for
every other one holds of all threads after the step. -/
theorem assertions_advance {P : ι → S → L → Prop} {c d : Config ι S L} {i : ι} {a : A}
    (h : c.advance act i a = some d)
    (hall : ∀ j, P j c.shared (c.locals j))
    (hown : ∀ s l, act i a c.shared (c.locals i) = some (s, l) → P i s l)
    (hother : ∀ j s l, j ≠ i → act i a c.shared (c.locals i) = some (s, l) →
      P j c.shared (c.locals j) → P j s (c.locals j)) :
    ∀ j, P j d.shared (d.locals j) := by
  obtain ⟨s, l, hact, rfl⟩ := Config.advance_eq_some.mp h
  intro j
  by_cases hj : j = i
  · subst hj
    simpa using hown s l hact
  · simpa [Function.update_of_ne hj] using hother j s l hj hact (hall j)

/-! ## Exclusive ownership -/

/-- At most one thread owns the resource, and while one does it is taken. -/
structure Exclusive (taken : S → Prop) (owns : L → Prop) (c : Config ι S L) : Prop where
  unique : ∀ i j, owns (c.locals i) → owns (c.locals j) → i = j
  guarded : ∀ i, owns (c.locals i) → taken c.shared

/-- What the steps of a thread may do to the resource: take it only while it is
free, keep it taken while owning it, and leave it alone otherwise. -/
structure LockProtocol (act : ι → A → S → L → Option (S × L)) (taken : S → Prop)
    (owns : L → Prop) : Prop where
  enter : ∀ {i a s l s' l'}, act i a s l = some (s', l') → ¬ owns l → owns l' →
    ¬ taken s ∧ taken s'
  keep : ∀ {i a s l s' l'}, act i a s l = some (s', l') → owns l → owns l' →
    taken s → taken s'
  outside : ∀ {i a s l s' l'}, act i a s l = some (s', l') → ¬ owns l → ¬ owns l' →
    taken s → taken s'

variable {taken : S → Prop} {owns : L → Prop}

/-- One step of any thread preserves exclusive ownership. -/
theorem LockProtocol.exclusive_advance (hp : LockProtocol act taken owns)
    {c d : Config ι S L} {i : ι} {a : A} (h : c.advance act i a = some d)
    (hex : Exclusive taken owns c) : Exclusive taken owns d := by
  classical
  obtain ⟨s, l, hact, rfl⟩ := Config.advance_eq_some.mp h
  have hi : (Function.update c.locals i l) i = l := Function.update_self i l c.locals
  have hj : ∀ j, j ≠ i → (Function.update c.locals i l) j = c.locals j :=
    fun j hne => Function.update_of_ne hne l c.locals
  -- the stepping thread owns the resource after the step: nobody else did
  have alone : owns l → ∀ j, j ≠ i → ¬ owns (c.locals j) := by
    intro hl j hne howns
    by_cases hbefore : owns (c.locals i)
    · exact hne (hex.unique j i howns hbefore)
    · exact (hp.enter hact hbefore hl).1 (hex.guarded j howns)
  refine ⟨?_, ?_⟩
  · intro j k hjo hko
    by_cases hji : j = i
    · by_cases hki : k = i
      · exact hji.trans hki.symm
      · subst hji
        exact absurd ((hj k hki) ▸ hko) (alone (hi ▸ hjo) k hki)
    · by_cases hki : k = i
      · subst hki
        exact absurd ((hj j hji) ▸ hjo) (alone (hi ▸ hko) j hji)
      · exact hex.unique j k ((hj j hji) ▸ hjo) ((hj k hki) ▸ hko)
  · intro j hjo
    by_cases hji : j = i
    · subst hji
      have hl : owns l := hi ▸ hjo
      by_cases hbefore : owns (c.locals j)
      · exact hp.keep hact hbefore hl (hex.guarded j hbefore)
      · exact (hp.enter hact hbefore hl).2
    · have howns : owns (c.locals j) := (hj j hji) ▸ hjo
      have htaken := hex.guarded j howns
      by_cases hbefore : owns (c.locals i)
      · exact absurd (hex.unique j i howns hbefore) hji
      · by_cases hl : owns l
        · exact absurd howns (alone hl j hji)
        · exact hp.outside hact hbefore hl htaken

/-- Only an owner frees the resource, and then no other thread owns it. -/
theorem LockProtocol.freed_by_owner (hp : LockProtocol act taken owns)
    {c d : Config ι S L} {i : ι} {a : A} (h : c.advance act i a = some d)
    (hex : Exclusive taken owns c) (hbefore : taken c.shared) (hafter : ¬ taken d.shared) :
    owns (c.locals i) ∧ ∀ j, owns (c.locals j) → j = i := by
  classical
  obtain ⟨s, l, hact, rfl⟩ := Config.advance_eq_some.mp h
  have howns : owns (c.locals i) := by
    by_contra hnot
    by_cases hl : owns l
    · exact hafter (hp.enter hact hnot hl).2
    · exact hafter (hp.outside hact hnot hl hbefore)
  exact ⟨howns, fun j hj => hex.unique j i hj howns⟩

end SeapathWebui.Foundation
