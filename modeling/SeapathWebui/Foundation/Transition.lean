/-
  Foundation/Transition.lean --- runs of a partial step function.

  A machine is a step function `σ → α → Option σ`: `none` says that the label is
  not enabled in that state.  This file is the induction every safety result
  rests on, stated once: what one step preserves, every run preserves.

  `Along ok` restricts a run to steps that meet a condition on the state before
  the step and the label.  It is what a result of the shape "in every run whose
  steps all meet the condition" quantifies over.

  Nothing here mentions a particular machine.
-/
import Mathlib.Data.List.Basic
import Mathlib.Data.List.Induction

set_option autoImplicit false

namespace SeapathWebui.Foundation

variable {σ α : Type*}

/-! ## Runs -/

/-- Take the labels one after the other, stopping at the first that is not
enabled. -/
def execute (step : σ → α → Option σ) : σ → List α → Option σ
  | s, [] => some s
  | s, a :: rest =>
      match step s a with
      | none => none
      | some t => execute step t rest

@[simp] theorem execute_nil (step : σ → α → Option σ) (s : σ) :
    execute step s [] = some s := rfl

theorem execute_cons_eq_some {step : σ → α → Option σ} {s u : σ} {a : α}
    {rest : List α} :
    execute step s (a :: rest) = some u ↔
      ∃ t, step s a = some t ∧ execute step t rest = some u := by
  simp only [execute]
  cases step s a <;> simp

/-- A run splits at every cut point of its labels. -/
theorem execute_append_eq_some {step : σ → α → Option σ} {u : σ} {before after : List α} :
    ∀ {s : σ}, execute step s (before ++ after) = some u ↔
      ∃ t, execute step s before = some t ∧ execute step t after = some u := by
  induction before with
  | nil => intro s; simp
  | cons a rest ih =>
      intro s
      simp only [List.cons_append, execute_cons_eq_some, ih]
      constructor
      · rintro ⟨t, hstep, v, hrest, hafter⟩
        exact ⟨v, ⟨t, hstep, hrest⟩, hafter⟩
      · rintro ⟨v, ⟨t, hstep, hrest⟩, hafter⟩
        exact ⟨t, hstep, v, hrest, hafter⟩

/-- The last step of a run. -/
theorem execute_concat_eq_some {step : σ → α → Option σ} {s u : σ} {a : α}
    {labels : List α} :
    execute step s (labels ++ [a]) = some u ↔
      ∃ t, execute step s labels = some t ∧ step t a = some u := by
  rw [execute_append_eq_some]
  simp [execute_cons_eq_some]

/-! ## Runs whose steps meet a condition -/

/-- Every step of the run meets `ok`, read on the state before the step. -/
def Along (step : σ → α → Option σ) (ok : σ → α → Prop) : σ → List α → Prop
  | _, [] => True
  | s, a :: rest => ok s a ∧ ∀ t, step s a = some t → Along step ok t rest

/-- A condition that can be checked can be checked along a run. -/
instance decidableAlong {step : σ → α → Option σ} {ok : σ → α → Prop}
    [∀ s a, Decidable (ok s a)] : ∀ (labels : List α) (s : σ), Decidable (Along step ok s labels)
  | [], _ => isTrue trivial
  | a :: rest, s =>
      match h : step s a with
      | none => decidable_of_iff (ok s a) (by simp [Along, h])
      | some t =>
          have : Decidable (Along step ok t rest) := decidableAlong rest t
          decidable_of_iff (ok s a ∧ Along step ok t rest) (by simp [Along, h])

/-- What every step that meets the condition preserves, every run whose steps
all meet it preserves. -/
theorem invariant_along {step : σ → α → Option σ} {ok : σ → α → Prop} {I : σ → Prop}
    (hstep : ∀ s a t, I s → ok s a → step s a = some t → I t)
    {labels : List α} :
    ∀ {s t : σ}, I s → Along step ok s labels → execute step s labels = some t → I t := by
  induction labels with
  | nil =>
      intro s t hinit _ hrun
      cases hrun
      exact hinit
  | cons a rest ih =>
      intro s t hinit halong hrun
      obtain ⟨u, hfirst, hrest⟩ := execute_cons_eq_some.mp hrun
      exact ih (hstep s a u hinit halong.1 hfirst) (halong.2 u hfirst) hrest

/-- Two conditions that agree on every step a run can take agree along the run. -/
theorem along_congr {step : σ → α → Option σ} {ok ok' : σ → α → Prop} {I : σ → Prop}
    (hinv : ∀ s a t, I s → step s a = some t → I t)
    (hstep : ∀ s a t, I s → step s a = some t → (ok s a ↔ ok' s a)) {labels : List α} :
    ∀ {s t : σ}, I s → execute step s labels = some t →
      (Along step ok s labels ↔ Along step ok' s labels) := by
  induction labels with
  | nil => exact fun _ _ => Iff.rfl
  | cons a rest ih =>
      intro s t hI hrun
      obtain ⟨u, hfirst, hrest⟩ := execute_cons_eq_some.mp hrun
      have hsame := ih (hinv s a u hI hfirst) hrest
      refine and_congr (hstep s a u hI hfirst) (forall₂_congr fun v hv => ?_)
      rw [hfirst] at hv
      exact Option.some.inj hv ▸ hsame

theorem along_true {step : σ → α → Option σ} {labels : List α} :
    ∀ {s : σ}, Along step (fun _ _ => True) s labels := by
  induction labels with
  | nil => intro s; trivial
  | cons a rest ih => intro s; exact ⟨trivial, fun _ _ => ih⟩

/-- A condition on the label alone. -/
theorem along_of_forall {step : σ → α → Option σ} {ok : α → Prop} {labels : List α} :
    ∀ {s : σ}, (∀ a ∈ labels, ok a) → Along step (fun _ a => ok a) s labels := by
  induction labels with
  | nil => exact fun _ => trivial
  | cons a rest ih =>
      intro s h
      exact ⟨h a List.mem_cons_self, fun _ _ => ih fun b hb => h b (List.mem_cons_of_mem a hb)⟩

/-- Two conditions that are met along a run are met together. -/
theorem Along.and {step : σ → α → Option σ} {ok ok' : σ → α → Prop} {labels : List α} :
    ∀ {s : σ}, Along step ok s labels → Along step ok' s labels →
      Along step (fun s a => ok s a ∧ ok' s a) s labels := by
  induction labels with
  | nil => exact fun _ _ => trivial
  | cons a rest ih =>
      exact fun h h' => ⟨⟨h.1, h'.1⟩, fun t ht => ih (h.2 t ht) (h'.2 t ht)⟩

/-- The induction rule of unconditional safety. -/
theorem invariant_run {step : σ → α → Option σ} {I : σ → Prop}
    (hstep : ∀ s a t, I s → step s a = some t → I t)
    {labels : List α} {s t : σ} (hinit : I s) (hrun : execute step s labels = some t) :
    I t :=
  invariant_along (fun s a t hI _ h => hstep s a t hI h) hinit along_true hrun

/-- The rule for an invariant that also speaks of the labels taken so far. -/
theorem invariant_history {step : σ → α → Option σ} {s₀ : σ} {I : List α → σ → Prop}
    (hinit : I [] s₀)
    (hstep : ∀ labels s a t, execute step s₀ labels = some s → I labels s → step s a = some t →
      I (labels ++ [a]) t) (labels : List α) :
    ∀ {t : σ}, execute step s₀ labels = some t → I labels t := by
  induction labels using List.reverseRecOn with
  | nil =>
      intro t hrun
      obtain rfl := Option.some.inj hrun
      exact hinit
  | append_singleton before a ih =>
      intro t hrun
      obtain ⟨s, hbefore, hlast⟩ := execute_concat_eq_some.mp hrun
      exact hstep before s a t hbefore (ih hbefore) hlast

/-- A relation between the start of a run and its end: reflexive, and extended
by every step that the invariant `I` holds before. -/
theorem relation_run {step : σ → α → Option σ} {I : σ → Prop} {R : σ → σ → Prop}
    (hinv : ∀ s a t, I s → step s a = some t → I t)
    (hrefl : ∀ s, R s s)
    (hstep : ∀ s a t u, I s → step s a = some t → R t u → R s u)
    {labels : List α} :
    ∀ {s u : σ}, I s → execute step s labels = some u → R s u := by
  induction labels with
  | nil =>
      intro s u _ hrun
      cases hrun
      exact hrefl s
  | cons a rest ih =>
      intro s u hI hrun
      obtain ⟨t, hfirst, hrest⟩ := execute_cons_eq_some.mp hrun
      exact hstep s a t u hI hfirst (ih (hinv s a t hI hfirst) hrest)

/-- Where each step keeps `P` exactly if it meets the condition, a run keeps `P` exactly
if all its steps meet it. -/
theorem run_iff_along {step : σ → α → Option σ} {ok : σ → α → Prop} {I P : σ → Prop}
    (hinv : ∀ s a t, I s → step s a = some t → I t)
    (hstep : ∀ s a t, I s → step s a = some t → (P t ↔ P s ∧ ok s a))
    {labels : List α} :
    ∀ {s t : σ}, I s → execute step s labels = some t →
      (P t ↔ P s ∧ Along step ok s labels) := by
  induction labels with
  | nil =>
      intro s t _ hrun
      cases hrun
      exact (and_iff_left trivial).symm
  | cons a rest ih =>
      intro s t hI hrun
      obtain ⟨u, hfirst, hrest⟩ := execute_cons_eq_some.mp hrun
      have hnext : Along step ok s (a :: rest) ↔ ok s a ∧ Along step ok u rest := by
        constructor
        · exact fun h => ⟨h.1, h.2 u hfirst⟩
        · rintro ⟨hok, halong⟩
          refine ⟨hok, fun v hv => ?_⟩
          rw [hfirst] at hv
          exact Option.some.inj hv ▸ halong
      rw [ih (hinv s a u hI hfirst) hrest, hstep s a u hI hfirst, hnext, and_assoc]

end SeapathWebui.Foundation
