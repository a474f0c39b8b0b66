/-
  Foundation/Potential.lean --- runs that come to their end.

  Two rules for a machine that gives every state a natural number.  Where each step is paid
  for by what it takes from that number, a run is no longer than what it was given
  (`cost_run`).  Where every state short of a goal has a step that comes nearer to it, the goal
  is reached (`exists_run_to`).

  Nothing here mentions a particular machine.
-/
import SeapathWebui.Foundation.Transition

set_option autoImplicit false

namespace SeapathWebui.Foundation

variable {σ α : Type*} {step : σ → α → Option σ}

/-- What the labels come to, each at its price. -/
def total (price : α → Nat) : List α → Nat
  | [] => 0
  | a :: rest => price a + total price rest

/-- What the labels cost is paid by the potential of the first state and by what they
give. -/
theorem cost_run {potential : σ → Nat} {cost gain : α → Nat}
    (hstep : ∀ s a t, step s a = some t → cost a + potential t ≤ potential s + gain a)
    {labels : List α} :
    ∀ {s t : σ}, execute step s labels = some t →
      total cost labels + potential t ≤ potential s + total gain labels := by
  induction labels with
  | nil =>
      intro s t hrun
      cases hrun
      exact Nat.le_of_eq (Nat.add_comm _ _)
  | cons a rest ih =>
      intro s t hrun
      obtain ⟨u, hfirst, hrest⟩ := execute_cons_eq_some.mp hrun
      have hnow := hstep s a u hfirst
      have hlater := ih hrest
      simp only [total]
      omega

/-- From every state of `P` a run of good labels gets to the goal. -/
theorem exists_run_to {P goal : σ → Prop} {good : α → Prop} (distance : σ → Nat)
    (hstep : ∀ s, P s → ¬ goal s →
      ∃ a t, good a ∧ step s a = some t ∧ P t ∧ distance t < distance s) :
    ∀ {s : σ}, P s →
      ∃ labels t, (∀ a ∈ labels, good a) ∧ execute step s labels = some t ∧ P t ∧ goal t ∧
        labels.length ≤ distance s := by
  intro s
  induction hn : distance s using Nat.strongRecOn generalizing s with
  | ind n ih =>
      intro hP
      by_cases hgoal : goal s
      · exact ⟨[], s, fun _ h => (List.not_mem_nil h).elim, rfl, hP, hgoal, Nat.zero_le n⟩
      · obtain ⟨a, t, hgood, hfirst, hPt, hlt⟩ := hstep s hP hgoal
        obtain ⟨rest, u, hrest, hrun, hPu, hgoalu, hlength⟩ := ih _ (hn ▸ hlt) rfl hPt
        refine ⟨a :: rest, u, ?_, ?_, hPu, hgoalu, ?_⟩
        · intro b hb
          rcases List.mem_cons.mp hb with rfl | hb
          · exact hgood
          · exact hrest b hb
        · exact execute_cons_eq_some.mpr ⟨t, hfirst, hrun⟩
        · rw [List.length_cons]
          omega

end SeapathWebui.Foundation
