/-
  Foundation/WriteOnce.lean --- files that a program makes once, at its first start.

  The files are made in order from one generated value, and only where one of them is
  missing; a start may be cut off after any operation.  Since they are made in order, the
  last file decides: while it is missing, the next start makes all of them again; once it is
  there, no start makes any (`Material.starts_of_settled`).  So a start that is cut off between
  making the last file and writing it leaves it empty for ever, and nothing else goes wrong
  (`Material.usable_starts_iff`).

  Nothing here mentions a particular file or program.
-/
import SeapathWebui.Foundation.Replace
import SeapathWebui.Foundation.Transition

set_option autoImplicit false

namespace SeapathWebui.Foundation

/-- A file that is made from a generated value: opened with one mode, written, and given
another. -/
structure Part (P G : Type*) where
  path : P
  openMode : Nat
  finalMode : Nat
  text : G → String

variable {P G : Type*} [DecidableEq P]

/-- The operations that make the file. -/
def Part.ops (x : Part P G) (owner : Nat × Nat) (g : G) : List (FileOp P) :=
  [.openNew x.path x.openMode owner, .write x.path (x.text g), .chmod x.path x.finalMode]

/-- The content of a file. -/
def contentOf (d : FileTree P) (p : P) : Option String := (d p).map (·.content)

/-- The file was made from the value. -/
def Part.MadeFrom (x : Part P G) (g : G) (d : FileTree P) : Prop :=
  contentOf d x.path = some (x.text g)

namespace Part

variable (x : Part P G) (owner : Nat × Nat) (g : G)

omit [DecidableEq P] in
theorem ops_on : ∀ op ∈ x.ops owner g, op.On x.path := by
  intro op hop
  simp only [ops, List.mem_cons, List.not_mem_nil, or_false] at hop
  rcases hop with rfl | rfl | rfl <;> rfl

/-- Other files are left alone. -/
theorem applyOps_of_ne {q : P} (hq : q ≠ x.path) (d : FileTree P) :
    applyOps d (x.ops owner g) q = d q := applyOps_of_on hq (x.ops_on owner g)

theorem contentOf_openNew (d : FileTree P) :
    contentOf (applyOps d [.openNew x.path x.openMode owner]) x.path = some "" := by
  cases hd : d x.path <;> simp [contentOf, applyOps, FileOp.apply, hd, emptied]

/-- Opened and written, with or without the mode. -/
theorem madeFrom_write (d : FileTree P) :
    x.MadeFrom g (applyOps d ((x.ops owner g).take 2)) ∧
      x.MadeFrom g (applyOps d (x.ops owner g)) := by
  cases hd : d x.path <;>
    simp [MadeFrom, contentOf, ops, applyOps, FileOp.apply, hd, emptied]

end Part

/-- Files made one after the other, under names that differ. -/
structure Material (P G : Type*) where
  first : List (Part P G)
  last : Part P G
  nodup : ((first ++ [last]).map (·.path)).Nodup

namespace Material

variable (m : Material P G) (owner : Nat × Nat)

/-- All the files, in order. -/
def parts : List (Part P G) := m.first ++ [m.last]

/-- The operations that make them. -/
def ops (g : G) : List (FileOp P) := m.parts.flatMap fun x => x.ops owner g

/-- A start of the program. -/
structure Start (G : Type*) where
  /-- what it generates, if it does -/
  value : G
  /-- it is cut off after so many operations on the files -/
  cut : Option Nat := none

/-- Every file is there. -/
def Present (d : FileTree P) : Prop := ∀ x ∈ m.parts, (d x.path).isSome = true

instance (d : FileTree P) : Decidable (m.Present d) := List.decidableBAll _ _

/-- The files after a start. -/
def start (d : FileTree P) (s : Start G) : FileTree P :=
  if m.Present d then d
  else
    applyOps d
      (match s.cut with
        | some n => (m.ops owner s.value).take n
        | none => m.ops owner s.value)

/-- A sequence of starts. -/
def starts (d : FileTree P) (calls : List (Start G)) : FileTree P :=
  calls.foldl (m.start owner) d

/-- A start, as a step. -/
def step (d : FileTree P) (s : Start G) : Option (FileTree P) := some (m.start owner d s)

theorem execute_step (calls : List (Start G)) :
    ∀ d, execute (m.step owner) d calls = some (m.starts owner d calls) := by
  induction calls with
  | nil => exact fun _ => rfl
  | cons s rest ih => exact fun d => ih (m.start owner d s)

/-! ## What a start leaves -/

/-- The files are those made from one value. -/
def Whole (d : FileTree P) : Prop := ∃ g, ∀ x ∈ m.parts, x.MadeFrom g d

/-- They are, but the last one is empty. -/
def Torn (d : FileTree P) : Prop :=
  ∃ g, (∀ x ∈ m.first, x.MadeFrom g d) ∧ contentOf d m.last.path = some ""

/-- The start is cut off between making the last file and writing it. -/
def CutAtLast (d : FileTree P) (s : Start G) : Prop :=
  d m.last.path = none ∧ s.cut = some (3 * m.first.length + 1)

instance (d : FileTree P) (s : Start G) : Decidable (m.CutAtLast d s) :=
  inferInstanceAs (Decidable (_ ∧ _))

omit [DecidableEq P] in
theorem last_notMem : m.last.path ∉ m.first.map (·.path) := by
  have hnodup := m.nodup
  rw [List.map_append, List.nodup_append] at hnodup
  intro hmem
  exact hnodup.2.2 m.last.path hmem m.last.path (List.mem_singleton.mpr rfl) rfl

/-- Operations on other files leave a file alone. -/
theorem applyOps_of_elsewhere {q : P} {ops : List (FileOp P)} :
    ∀ {d : FileTree P}, (∀ op ∈ ops, ∃ p, op.On p ∧ q ≠ p) → applyOps d ops q = d q := by
  induction ops with
  | nil => exact fun _ => rfl
  | cons op rest ih =>
      intro d h
      obtain ⟨p, hon, hne⟩ := h op List.mem_cons_self
      exact (ih fun op hop => h op (List.mem_cons_of_mem _ hop)).trans
        (FileOp.apply_of_on hon hne d)

omit [DecidableEq P] in
theorem elsewhere_of_notMem (g : G) {xs : List (Part P G)} {q : P}
    (hq : q ∉ xs.map (·.path)) :
    ∀ op ∈ xs.flatMap fun x => x.ops owner g, ∃ p, op.On p ∧ q ≠ p := by
  intro op hop
  obtain ⟨x, hx, hop⟩ := List.mem_flatMap.mp hop
  refine ⟨x.path, x.ops_on owner g op hop, ?_⟩
  rintro rfl
  exact hq (List.mem_map_of_mem hx)

/-- Made one after the other, all are made. -/
theorem madeFrom_flatMap (g : G) {xs : List (Part P G)} :
    (xs.map (·.path)).Nodup → ∀ (d : FileTree P), ∀ x ∈ xs,
      x.MadeFrom g (applyOps d (xs.flatMap fun x => x.ops owner g)) := by
  induction xs with
  | nil => exact fun _ _ x hx => (List.not_mem_nil hx).elim
  | cons y rest ih =>
      intro hnodup d x hx
      obtain ⟨hy, hrest⟩ := List.nodup_cons.mp hnodup
      rw [List.flatMap_cons, applyOps_append]
      rcases List.mem_cons.mp hx with rfl | hx
      · have hlater := applyOps_of_elsewhere (d := applyOps d (x.ops owner g))
          (elsewhere_of_notMem owner g hy)
        rw [Part.MadeFrom, contentOf, hlater]
        exact (x.madeFrom_write owner g d).2
      · exact ih hrest _ x hx

omit [DecidableEq P] in
theorem length_firstOps (g : G) (xs : List (Part P G)) :
    (xs.flatMap fun x => x.ops owner g).length = 3 * xs.length := by
  induction xs with
  | nil => rfl
  | cons x rest ih =>
      rw [List.flatMap_cons, List.length_append, ih, List.length_cons]
      simp only [Part.ops, List.length_cons, List.length_nil]
      omega

/-- The first files are made, and some operations on the last one done. -/
theorem madeFrom_first (g : G) (d : FileTree P) {ops : List (FileOp P)}
    (hops : ∀ op ∈ ops, op.On m.last.path) :
    ∀ x ∈ m.first, x.MadeFrom g
      (applyOps (applyOps d (m.first.flatMap fun x => x.ops owner g)) ops) := by
  intro x hx
  have hnodup : (m.first.map (·.path)).Nodup := by
    have hnodup := m.nodup
    rw [List.map_append] at hnodup
    exact (List.nodup_append.mp hnodup).1
  have hne : x.path ≠ m.last.path := fun h => m.last_notMem (h ▸ List.mem_map_of_mem hx)
  rw [Part.MadeFrom, contentOf, applyOps_of_on hne hops]
  exact madeFrom_flatMap owner g hnodup d x hx

/-- What a start makes where the last file is missing. -/
inductive FirstStart (d : FileTree P) (s : Start G) (after : FileTree P) : Prop
  | missing : after m.last.path = none → s.cut ≠ none → ¬ m.CutAtLast d s → FirstStart d s after
  | whole : m.Whole after → ¬ m.CutAtLast d s → FirstStart d s after
  | torn : m.Torn after → m.CutAtLast d s → FirstStart d s after

theorem whole_of_last (g : G) (d : FileTree P) {ops : List (FileOp P)}
    (hops : ∀ op ∈ ops, op.On m.last.path)
    (hlast : m.last.MadeFrom g
      (applyOps (applyOps d (m.first.flatMap fun x => x.ops owner g)) ops)) :
    m.Whole (applyOps (applyOps d (m.first.flatMap fun x => x.ops owner g)) ops) := by
  refine ⟨g, fun x hx => ?_⟩
  rcases List.mem_append.mp hx with hx | hx
  · exact m.madeFrom_first owner g d hops x hx
  · rw [List.mem_singleton.mp hx]
    exact hlast

/-- Step lemma: where the last file is missing, a start leaves it missing, makes all the
files, or is cut off in between. -/
theorem start_of_missing {d : FileTree P} (hmissing : d m.last.path = none) (s : Start G) :
    m.FirstStart d s (m.start owner d s) := by
  have habsent : ¬ m.Present d := by
    intro hpresent
    have hsome := hpresent m.last (List.mem_append_right _ (List.mem_singleton.mpr rfl))
    rw [hmissing] at hsome
    cases hsome
  have hops : m.ops owner s.value =
      (m.first.flatMap fun x => x.ops owner s.value) ++ m.last.ops owner s.value := by
    rw [ops, parts, List.flatMap_append, List.flatMap_singleton]
  have hlength := length_firstOps owner s.value m.first
  have htake (n : Nat) : ∀ op ∈ (m.last.ops owner s.value).take n, op.On m.last.path :=
    fun op hop => m.last.ops_on owner s.value op (List.mem_of_mem_take hop)
  unfold start
  rw [if_neg habsent, hops]
  cases hcut : s.cut with
  | none =>
      rw [applyOps_append]
      refine .whole (m.whole_of_last owner s.value d (m.last.ops_on owner s.value) ?_) ?_
      · exact (m.last.madeFrom_write owner s.value _).2
      · rintro ⟨-, hnone⟩
        rw [hcut] at hnone
        cases hnone
  | some n =>
      simp only [List.take_append, hlength]
      rcases Nat.lt_trichotomy n (3 * m.first.length + 1) with hbefore | rfl | hafter
      · refine .missing ?_ (by rw [hcut]; simp) ?_
        · rw [Nat.sub_eq_zero_of_le (by omega), List.take_zero, List.append_nil]
          refine (applyOps_of_elsewhere fun op hop => ?_).trans hmissing
          exact elsewhere_of_notMem owner s.value m.last_notMem op (List.mem_of_mem_take hop)
        · rintro ⟨-, hsome⟩
          rw [hcut] at hsome
          have hn := Option.some.inj hsome
          omega
      · rw [List.take_of_length_le (by omega), Nat.add_sub_cancel_left, applyOps_append]
        refine .torn ⟨s.value, m.madeFrom_first owner s.value d (htake 1), ?_⟩ ⟨hmissing, hcut⟩
        exact m.last.contentOf_openNew owner _
      · rw [List.take_of_length_le (by omega), applyOps_append]
        refine .whole (m.whole_of_last owner s.value d (htake _) ?_) ?_
        · have hwritten := m.last.madeFrom_write owner s.value
            (applyOps d (m.first.flatMap fun x => x.ops owner s.value))
          rcases Nat.lt_or_ge (n - 3 * m.first.length) 3 with hlt | hge
          · have htwo : n - 3 * m.first.length = 2 := by omega
            rw [htwo]
            exact hwritten.1
          · rw [List.take_of_length_le (by simpa [Part.ops] using hge)]
            exact hwritten.2
        · rintro ⟨-, hsome⟩
          rw [hcut] at hsome
          have hn := Option.some.inj hsome
          omega

/-! ## A sequence of starts -/

/-- The next start finds all the files, or makes them. -/
def Usable (d : FileTree P) : Prop := d m.last.path = none ∨ m.Whole d

variable {m owner}

omit [DecidableEq P] in
theorem Whole.isSome {d : FileTree P} (h : m.Whole d) : (d m.last.path).isSome = true := by
  obtain ⟨g, hg⟩ := h
  obtain ⟨f, hf, -⟩ := Option.map_eq_some_iff.mp
    (hg m.last (List.mem_append_right _ (List.mem_singleton.mpr rfl)))
  rw [hf]
  rfl

/-- Where all the files are there, whole or torn, a start makes none. -/
theorem start_of_settled {d : FileTree P} (h : m.Whole d ∨ m.Torn d) (s : Start G) :
    m.start owner d s = d := by
  have hsome : ∀ {p : P} {text : String}, contentOf d p = some text → (d p).isSome = true := by
    intro p text hp
    obtain ⟨f, hf, -⟩ := Option.map_eq_some_iff.mp hp
    rw [hf]
    rfl
  have hpresent : m.Present d := by
    intro x hx
    rcases h with ⟨g, hg⟩ | ⟨g, hg, hlast⟩
    · exact hsome (hg x hx)
    · rcases List.mem_append.mp hx with hx | hx
      · exact hsome (hg x hx)
      · rw [List.mem_singleton.mp hx]
        exact hsome hlast
  rw [start, if_pos hpresent]

/-- So does a sequence of them. -/
theorem starts_of_settled {d : FileTree P} (h : m.Whole d ∨ m.Torn d) (calls : List (Start G)) :
    m.starts owner d calls = d := by
  induction calls with
  | nil => rfl
  | cons s rest ih =>
      rw [starts, List.foldl_cons, start_of_settled h]
      exact ih

omit [DecidableEq P] in
theorem not_usable_of_torn (htext : ∀ g, m.last.text g ≠ "") {d : FileTree P}
    (h : m.Torn d) : ¬ m.Usable d := by
  obtain ⟨g, -, hempty⟩ := h
  rintro (hmissing | ⟨g', hg'⟩)
  · rw [contentOf, hmissing] at hempty
    cases hempty
  · have hlast := hg' m.last (List.mem_append_right _ (List.mem_singleton.mpr rfl))
    rw [Part.MadeFrom, hempty] at hlast
    exact htext g' (Option.some.inj hlast).symm

/-- Step lemma: a start leaves the files usable or torn. -/
theorem usable_or_torn_start {d : FileTree P} (h : m.Usable d ∨ m.Torn d) (s : Start G) :
    m.Usable (m.start owner d s) ∨ m.Torn (m.start owner d s) := by
  rcases h with (hmissing | hwhole) | htorn
  · rcases m.start_of_missing owner hmissing s with h | h | h
    · exact .inl (.inl h)
    · exact .inl (.inr h)
    · exact .inr h
  · rw [start_of_settled (.inl hwhole)]
    exact .inl (.inr hwhole)
  · rw [start_of_settled (.inr htorn)]
    exact .inr htorn

/-- Step lemma: it leaves them usable exactly if they were, and it is not cut off between
making the last file and writing it. -/
theorem usable_start_iff (htext : ∀ g, m.last.text g ≠ "") {d : FileTree P}
    (h : m.Usable d ∨ m.Torn d) (s : Start G) :
    m.Usable (m.start owner d s) ↔ m.Usable d ∧ ¬ m.CutAtLast d s := by
  rcases h with (hmissing | hwhole) | htorn
  · rcases m.start_of_missing owner hmissing s with ⟨h, -, hcut⟩ | ⟨h, hcut⟩ | ⟨h, hcut⟩
    · exact iff_of_true (.inl h) ⟨.inl hmissing, hcut⟩
    · exact iff_of_true (.inr h) ⟨.inl hmissing, hcut⟩
    · exact iff_of_false (not_usable_of_torn htext h) fun h' => h'.2 hcut
  · rw [start_of_settled (.inl hwhole)]
    refine iff_of_true (.inr hwhole) ⟨.inr hwhole, fun hcut => ?_⟩
    have hsome := hwhole.isSome
    rw [hcut.1] at hsome
    cases hsome
  · rw [start_of_settled (.inr htorn)]
    exact iff_of_false (not_usable_of_torn htext htorn)
      fun h' => not_usable_of_torn htext htorn h'.1

/-- **Run lemma: the files stay usable exactly if no start is cut off there; otherwise the last
one is empty.** -/
theorem usable_starts_iff (htext : ∀ g, m.last.text g ≠ "") {d : FileTree P}
    (hmissing : d m.last.path = none) (calls : List (Start G)) :
    (m.Usable (m.starts owner d calls) ∨ m.Torn (m.starts owner d calls)) ∧
      (m.Usable (m.starts owner d calls) ↔
        Along (m.step owner) (fun d s => ¬ m.CutAtLast d s) d calls) := by
  have hinv : ∀ d' s d'', m.Usable d' ∨ m.Torn d' → m.step owner d' s = some d'' →
      m.Usable d'' ∨ m.Torn d'' := by
    intro d' s d'' h hstep
    obtain rfl := Option.some.inj hstep
    exact usable_or_torn_start h s
  have hstep : ∀ d' s d'', m.Usable d' ∨ m.Torn d' → m.step owner d' s = some d'' →
      (m.Usable d'' ↔ m.Usable d' ∧ ¬ m.CutAtLast d' s) := by
    intro d' s d'' h hstep
    obtain rfl := Option.some.inj hstep
    exact usable_start_iff htext h s
  have hrun := m.execute_step owner calls d
  refine ⟨invariant_run hinv (.inl (.inl hmissing)) hrun, ?_⟩
  rw [run_iff_along hinv hstep (.inl (.inl hmissing)) hrun]
  exact and_iff_right (.inl hmissing)

/-- A start that is not cut off leaves all the files whole, if it finds them usable. -/
theorem whole_of_uncut {d : FileTree P} (h : m.Usable d) {s : Start G} (huncut : s.cut = none) :
    m.Whole (m.start owner d s) := by
  rcases h with hmissing | hwhole
  · rcases m.start_of_missing owner hmissing s with ⟨-, hcut, -⟩ | ⟨h, -⟩ | ⟨-, hcut⟩
    · exact (hcut huncut).elim
    · exact h
    · rw [hcut.2] at huncut
      cases huncut
  · rw [start_of_settled (.inl hwhole)]
    exact hwhole

/-- A start that is not cut off leaves all the files there, so no later one makes any. -/
theorem starts_after_uncut {d : FileTree P} (h : m.Usable d ∨ m.Torn d) {s : Start G}
    (huncut : s.cut = none) (more : List (Start G)) :
    m.starts owner (m.start owner d s) more = m.start owner d s := by
  refine starts_of_settled ?_ more
  rcases h with husable | htorn
  · exact .inl (whole_of_uncut husable huncut)
  · rw [start_of_settled (.inr htorn)]
    exact .inr htorn

end Material

end SeapathWebui.Foundation
