/-
  Foundation/Ranges.lean --- increasing lists of numbers, as ranges.

  A list of numbers is taken apart into runs of consecutive ones.  Writing the runs out
  gives the list again, whatever it was (`expand_runsFrom`); of an increasing list the
  runs are the maximal ones, with a gap between any two (`separated_runsFrom`).
-/
import Mathlib.Algebra.Order.Group.Unbundled.Int
import Mathlib.Data.List.Dedup
import Mathlib.Data.List.Sort

set_option autoImplicit false

namespace SeapathWebui.Foundation

/-- The numbers from `first` to `last`, both included. -/
def interval (first last : Int) : List Int :=
  (List.range (last + 1 - first).toNat).map fun i : Nat => first + (i : Int)

theorem mem_interval {first last c : Int} : c ∈ interval first last ↔ first ≤ c ∧ c ≤ last := by
  simp only [interval, List.mem_map, List.mem_range]
  constructor
  · rintro ⟨i, hi, rfl⟩
    omega
  · intro h
    exact ⟨(c - first).toNat, by omega, by omega⟩

theorem interval_self (n : Int) : interval n n = [n] := by
  simp [interval]

/-- One number more. -/
theorem interval_concat {first last : Int} (h : first ≤ last + 1) :
    interval first (last + 1) = interval first last ++ [last + 1] := by
  have hlength : (last + 1 + 1 - first).toNat = (last + 1 - first).toNat + 1 := by omega
  have hlast : first + ((last + 1 - first).toNat : Int) = last + 1 := by omega
  rw [interval, hlength, List.range_succ, List.map_append, List.map_singleton, hlast, interval]

/-! ## Runs -/

/-- The runs of a list, from the one that goes from `start` to `previous` on. -/
def runsFrom (start previous : Int) : List Int → List (Int × Int)
  | [] => [(start, previous)]
  | n :: rest =>
      if n = previous + 1 then runsFrom start n rest
      else (start, previous) :: runsFrom n n rest

/-- Runs written out. -/
def expand (runs : List (Int × Int)) : List Int := runs.flatMap fun r => interval r.1 r.2

/-- No run is empty, and between any two there is a gap. -/
structure Separated (runs : List (Int × Int)) : Prop where
  nonempty : ∀ r ∈ runs, r.1 ≤ r.2
  gaps : runs.Pairwise fun r r' => r.2 + 1 < r'.1

theorem expand_runsFrom {l : List Int} :
    ∀ {start previous : Int}, start ≤ previous →
      expand (runsFrom start previous l) = interval start previous ++ l := by
  induction l with
  | nil =>
      intro start previous _
      simp [runsFrom, expand]
  | cons n rest ih =>
      intro start previous h
      rw [runsFrom]
      split
      · rename_i hn
        subst hn
        rw [ih (by omega), interval_concat (by omega), List.append_assoc]
        rfl
      · have hnext := ih (le_refl n)
        rw [interval_self] at hnext
        rw [expand, List.flatMap_cons]
        exact congrArg (interval start previous ++ ·) hnext

/-- The first number of any run that is made is the first one, or in the rest. -/
theorem fst_of_mem_runsFrom {l : List Int} :
    ∀ {start previous : Int}, ∀ r ∈ runsFrom start previous l, r.1 = start ∨ r.1 ∈ l := by
  induction l with
  | nil =>
      intro start previous r hr
      exact .inl (congrArg Prod.fst (List.mem_singleton.mp hr))
  | cons n rest ih =>
      intro start previous r hr
      rw [runsFrom] at hr
      split at hr
      · exact (ih r hr).imp_right (List.mem_cons_of_mem _)
      · rcases List.mem_cons.mp hr with rfl | hr
        · exact .inl rfl
        · rcases ih r hr with heq | hmem
          · exact .inr (heq ▸ List.mem_cons_self)
          · exact .inr (List.mem_cons_of_mem _ hmem)

theorem separated_runsFrom {l : List Int} :
    ∀ {start previous : Int}, start ≤ previous → (previous :: l).Pairwise (· < ·) →
      Separated (runsFrom start previous l) := by
  induction l with
  | nil =>
      intro start previous h _
      exact ⟨fun r hr => List.mem_singleton.mp hr ▸ h, List.pairwise_singleton _ _⟩
  | cons n rest ih =>
      intro start previous h hincreasing
      obtain ⟨hafter, hrest⟩ := List.pairwise_cons.mp hincreasing
      have hn := hafter n List.mem_cons_self
      rw [runsFrom]
      split
      · exact ih (by omega) hrest
      · rename_i hgap
        have hnext : Separated (runsFrom n n rest) := ih (le_refl n) hrest
        refine ⟨fun r hr => ?_, List.pairwise_cons.mpr ⟨fun r hr => ?_, hnext.gaps⟩⟩
        · rcases List.mem_cons.mp hr with rfl | hr
          · exact h
          · exact hnext.nonempty r hr
        · have hfirst : n ≤ r.1 := by
            rcases fst_of_mem_runsFrom r hr with heq | hmem
            · exact heq.ge
            · exact ((List.pairwise_cons.mp hrest).1 _ hmem).le
          change previous + 1 < r.1
          omega

/-- The bounds of the runs are numbers of the list. -/
theorem mem_expand_of_mem {runs : List (Int × Int)} {r : Int × Int} (hr : r ∈ runs)
    (h : r.1 ≤ r.2) : r.1 ∈ expand runs ∧ r.2 ∈ expand runs :=
  ⟨List.mem_flatMap.mpr ⟨r, hr, mem_interval.mpr ⟨le_rfl, h⟩⟩,
    List.mem_flatMap.mpr ⟨r, hr, mem_interval.mpr ⟨h, le_rfl⟩⟩⟩

theorem pairwise_interval (first last : Int) : (interval first last).Pairwise (· < ·) := by
  refine List.pairwise_map.mpr (List.pairwise_lt_range.imp fun {i j} hlt => ?_)
  omega

/-- An increasing list of so many numbers has one that is as great. -/
theorem exists_le_of_increasing {l : List Int} :
    ∀ {least : Int}, l ≠ [] → l.Pairwise (· < ·) → (∀ n ∈ l, least ≤ n) →
      ∃ n ∈ l, least + l.length ≤ n + 1 := by
  induction l with
  | nil => exact fun h => absurd rfl h
  | cons n rest ih =>
      intro least _ hincreasing hleast
      obtain ⟨hafter, hrest⟩ := List.pairwise_cons.mp hincreasing
      have hn := hleast n List.mem_cons_self
      by_cases hnil : rest = []
      · subst hnil
        exact ⟨n, List.mem_cons_self, by simpa using hn⟩
      · obtain ⟨m, hm, hlength⟩ := ih hnil hrest fun k hk => Int.add_one_le_of_lt (hafter k hk)
        refine ⟨m, List.mem_cons_of_mem _ hm, ?_⟩
        rw [List.length_cons]
        omega

/-! ## Sorting -/

/-- An increasing list is the sorted list of its members. -/
theorem sorted_dedup_eq_self {l : List Int} (h : l.Pairwise (· < ·)) :
    l.dedup.insertionSort (· ≤ ·) = l := by
  have hnodup : l.Nodup := h.imp fun hlt => ne_of_lt hlt
  rw [List.dedup_eq_self.mpr hnodup, List.Pairwise.insertionSort_eq (h.imp fun hlt => le_of_lt hlt)]

theorem pairwise_sorted_dedup (l : List Int) :
    (l.dedup.insertionSort (· ≤ ·)).Pairwise (· < ·) := by
  have hnodup : (l.dedup.insertionSort (· ≤ ·)).Nodup :=
    (List.perm_insertionSort _ _).nodup_iff.mpr l.nodup_dedup
  refine (List.pairwise_insertionSort (· ≤ ·) _).imp₂ (fun a b hle hne => ?_) hnodup
  exact lt_of_le_of_ne hle hne

end SeapathWebui.Foundation
