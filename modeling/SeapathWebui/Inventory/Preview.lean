/-
  Inventory/Preview.lean --- previews that interleave.

  Source: `diff_against` of app/inventory/repository.py, called by
  `InventoryService.preview` for POST /inventory/preview.

  A call writes its candidate to a file beside the inventory, has git compare the two,
  and removes the file.  The file has one name, and any number of calls are handled by
  concurrent worker threads.  So a call compares its own candidate exactly as long as no
  other call writes or removes the file between its write and its comparison
  (`own_comparisons_iff`).
-/
import Mathlib.Data.Fintype.Basic
import SeapathWebui.Foundation.Threads
import SeapathWebui.Foundation.Transition
import SeapathWebui.Inventory.CommandLines

set_option autoImplicit false

namespace SeapathWebui.Inventory

open SeapathWebui.Foundation

/-! ## What git answers -/

/-- The name of the file with the candidate. -/
def temporaryName : String := "." ++ inventoryFilename ++ ".candidate"

/-- How a command of git ends. -/
structure Completed where
  returncode : Nat
  stdout : String
  deriving DecidableEq

/-- `_run`, from the end of the command on. -/
def runAnswer (allowedReturncodes : List Nat) (result : Completed) : Except RepoError String :=
  if result.returncode ∈ allowedReturncodes then .ok result.stdout else .error .git

/-- `git diff --no-index`. -/
structure GitDiff where
  /-- Its end for the inventory, or `/dev/null` where there is none, and the file with the
  candidate, if that is there. -/
  noIndex : Option String → Option String → Completed
  /-- 0 for two files that are the same, 1 for two that differ -/
  compares : ∀ inventory candidate, (noIndex inventory (some candidate)).returncode ∈ [0, 1]

/-- The answer of `diff_against`, from what git finds in the file on. -/
def diffAnswer (git : GitDiff) (inventory seen : Option String) : Except RepoError String :=
  (runAnswer [0, 1] (git.noIndex inventory seen)).map (Text.replace temporaryName inventoryFilename)

/-- What committing the candidate would change. -/
def ownDiff (git : GitDiff) (inventory : Option String) (candidate : String) : String :=
  Text.replace temporaryName inventoryFilename (git.noIndex inventory (some candidate)).stdout

theorem diffAnswer_own (git : GitDiff) (inventory : Option String) (candidate : String) :
    diffAnswer git inventory (some candidate) = .ok (ownDiff git inventory candidate) := by
  rw [diffAnswer, runAnswer, if_pos (git.compares inventory candidate)]
  rfl

/-! ## The steps of `diff_against` -/

/-- The next operation of a call. -/
inductive PreviewPhase
  | writing
  /-- `git diff` -/
  | comparing
  /-- `unlink(missing_ok=True)`; git found this in the file -/
  | unlinking (seen : Option String)
  /-- returned or raised -/
  | returned (seen : Option String)
  deriving DecidableEq

variable {ι : Type*}

/-- One step of a call.  What the calls share is the content of the file. -/
def previewStep (candidates : ι → String) (t : ι) :
    Unit → Option String → PreviewPhase → Option (Option String × PreviewPhase)
  | (), _, .writing => some (some (candidates t), .comparing)
  | (), file, .comparing => some (file, .unlinking file)
  | (), _, .unlinking seen => some (none, .returned seen)
  | (), _, .returned _ => none

/-- The file and every call. -/
abbrev Previews (ι : Type*) : Type _ := Config ι (Option String) PreviewPhase

/-- One call takes one step. -/
def previewsStep [DecidableEq ι] (candidates : ι → String) (c : Previews ι) (t : ι) :
    Option (Previews ι) :=
  c.advance (previewStep candidates) t ()

/-- Before the first step: a file may have been left. -/
def previews (leftover : Option String) : Previews ι := ⟨leftover, fun _ => .writing⟩

/-- The next step of the call writes the file or removes it. -/
def PreviewPhase.Disturbs : PreviewPhase → Prop
  | .writing | .unlinking _ => True
  | .comparing | .returned _ => False

instance : DecidablePred PreviewPhase.Disturbs
  | .writing | .unlinking _ => isTrue trivial
  | .comparing | .returned _ => isFalse id

/-- The step leaves the file alone, or no other call is between its write and its
comparison. -/
def Undisturbed (c : Previews ι) (t : ι) : Prop :=
  (c.locals t).Disturbs → ∀ u, u ≠ t → c.locals u ≠ .comparing

instance [Fintype ι] [DecidableEq ι] (c : Previews ι) (t : ι) : Decidable (Undisturbed c t) :=
  inferInstanceAs (Decidable (_ → _))

/-! ## What a call compares -/

/-- A call that has written finds its candidate in the file, and one that has compared did. -/
def FindsOwn (candidates : ι → String) (t : ι) (file : Option String) : PreviewPhase → Prop
  | .writing => True
  | .comparing => file = some (candidates t)
  | .unlinking seen | .returned seen => seen = some (candidates t)

/-- All calls do. -/
def AllOwn (candidates : ι → String) (c : Previews ι) : Prop :=
  ∀ t, FindsOwn candidates t c.shared (c.locals t)

variable {candidates : ι → String}

/-- Only a call before its comparison looks at the file. -/
theorem findsOwn_congr {t : ι} {file other : Option String} {phase : PreviewPhase}
    (h : phase ≠ .comparing) :
    FindsOwn candidates t file phase ↔ FindsOwn candidates t other phase := by
  cases phase with
  | comparing => exact absurd rfl h
  | writing | unlinking | returned => exact Iff.rfl

theorem file_previewStep {t : ι} {file file' : Option String} {phase phase' : PreviewPhase}
    (h : previewStep candidates t () file phase = some (file', phase')) (hok : ¬ phase.Disturbs) :
    file' = file := by
  cases phase with
  | writing | unlinking => exact absurd trivial hok
  | comparing => exact (Prod.mk.inj (Option.some.inj h)).1.symm
  | returned => cases h

/-- A call finds its own candidate after its step exactly if it did before. -/
theorem findsOwn_previewStep {t : ι} {file file' : Option String} {phase phase' : PreviewPhase}
    (h : previewStep candidates t () file phase = some (file', phase')) :
    FindsOwn candidates t file' phase' ↔ FindsOwn candidates t file phase := by
  cases phase with
  | writing =>
      cases h
      exact iff_of_true rfl trivial
  | comparing =>
      cases h
      exact Iff.rfl
  | unlinking seen =>
      cases h
      exact Iff.rfl
  | returned seen => cases h

theorem allOwn_previews (candidates : ι → String) (leftover : Option String) :
    AllOwn candidates (previews leftover) := fun _ => trivial

section Steps

variable [DecidableEq ι]

/-- Step lemma: where no call is disturbed, all of them find their own candidate. -/
theorem allOwn_step {c d : Previews ι} {t : ι} (h : previewsStep candidates c t = some d)
    (hall : AllOwn candidates c) (hok : Undisturbed c t) : AllOwn candidates d := by
  refine assertions_advance h hall ?_ ?_
  · intro file phase hact
    exact (findsOwn_previewStep hact).mpr (hall t)
  · intro u file phase hne hact hown
    by_cases hcompares : c.locals u = .comparing
    · rw [file_previewStep hact fun hdisturbs => hok hdisturbs u hne hcompares]
      exact hown
    · exact (findsOwn_congr hcompares).mp hown

/-- Of different candidates, one that is not the call's own takes its place. -/
theorem undisturbed_of_allOwn (hdiff : Function.Injective candidates) {c d : Previews ι} {t : ι}
    (h : previewsStep candidates c t = some d) (hall : AllOwn candidates d) :
    Undisturbed c t := by
  obtain ⟨file, phase, hact, rfl⟩ := Config.advance_eq_some.mp h
  intro hdisturbs u hne hcompares
  have hfile := hall u
  simp only [Function.update_of_ne hne] at hfile
  rw [hcompares] at hfile
  cases hphase : c.locals t with
  | writing =>
      rw [hphase] at hact
      cases hact
      exact hne (hdiff (Option.some.inj hfile)).symm
  | comparing | returned =>
      rw [hphase] at hdisturbs
      exact hdisturbs
  | unlinking seen =>
      rw [hphase] at hact
      cases hact
      cases hfile

/-- What a call has taken the place of stays lost. -/
theorem allOwn_step_iff (hdiff : Function.Injective candidates) {c d : Previews ι} {t : ι}
    (h : previewsStep candidates c t = some d) :
    AllOwn candidates d ↔ AllOwn candidates c ∧ Undisturbed c t := by
  refine ⟨fun hall => ?_, fun hboth => allOwn_step h hboth.1 hboth.2⟩
  have hok := undisturbed_of_allOwn hdiff h hall
  obtain ⟨file, phase, hact, rfl⟩ := Config.advance_eq_some.mp h
  refine ⟨fun u => ?_, hok⟩
  have hown := hall u
  by_cases hu : u = t
  · subst hu
    simp only [Function.update_self] at hown
    exact (findsOwn_previewStep hact).mp hown
  · simp only [Function.update_of_ne hu] at hown
    by_cases hcompares : c.locals u = .comparing
    · rw [← file_previewStep hact fun hdisturbs => hok hdisturbs u hu hcompares]
      exact hown
    · exact (findsOwn_congr hcompares).mp hown

/-! ## Runs -/

/-- **Where no call writes or removes the file between another's write and its comparison, every
call that returns has the diff of its own candidate.** -/
theorem own_previews (git : GitDiff) (inventory leftover : Option String)
    (candidates : ι → String) {labels : List ι} {d : Previews ι}
    (hrun : execute (previewsStep candidates) (previews leftover) labels = some d)
    (hok : Along (previewsStep candidates) Undisturbed (previews leftover) labels) (t : ι)
    (seen : Option String) (hreturned : d.locals t = .returned seen) :
    diffAnswer git inventory seen = .ok (ownDiff git inventory (candidates t)) := by
  have hall : AllOwn candidates d :=
    invariant_along (fun c t d hc hok h => allOwn_step h hc hok)
      (allOwn_previews candidates leftover) hok hrun
  have hown := hall t
  rw [hreturned] at hown
  obtain rfl : seen = some (candidates t) := hown
  exact diffAnswer_own git inventory (candidates t)

/-- That is the only way: of different candidates, each is compared by its own call exactly if
the condition is met throughout. -/
theorem own_comparisons_iff (hdiff : Function.Injective candidates) {leftover : Option String}
    {labels : List ι} {d : Previews ι}
    (hrun : execute (previewsStep candidates) (previews leftover) labels = some d)
    (hdone : ∀ t, ∃ seen, d.locals t = .returned seen) :
    (∀ t, d.locals t = .returned (some (candidates t))) ↔
      Along (previewsStep candidates) Undisturbed (previews leftover) labels := by
  have hall := run_iff_along (I := fun _ => True) (fun _ _ _ _ _ => trivial)
    (fun c t d _ h => allOwn_step_iff hdiff h) trivial hrun
  rw [and_iff_right (allOwn_previews candidates leftover)] at hall
  rw [← hall]
  refine forall_congr' fun t => ?_
  obtain ⟨seen, hseen⟩ := hdone t
  rw [hseen]
  exact ⟨fun heq => PreviewPhase.returned.inj heq, fun hown => congrArg _ hown⟩

end Steps

/-! ### Two operators -/

/-- Two candidates for one machine. -/
def twoCandidates : Bool → String
  | false => "ntp_servers: []\n"
  | true => "ntp_servers: [10.0.0.1]\n"

/-- What git prints of a candidate of one line where there is no inventory; `blob` begins the hash
of the candidate. -/
def newFile (blob candidate : String) : String :=
  "diff --git a/" ++ temporaryName ++ " b/" ++ temporaryName ++ "\n" ++
  "new file mode 100644\n" ++
  "index 0000000.." ++ blob ++ "\n" ++
  "--- /dev/null\n" ++
  "+++ b/" ++ temporaryName ++ "\n" ++
  "@@ -0,0 +1 @@\n" ++
  "+" ++ candidate

/-- git, of these two and no inventory.  Where there is no candidate it has an error to tell on
the other stream, and ends with the code of two files that differ. -/
def printing : GitDiff where
  noIndex _ candidate := ⟨1, candidate.elim "" fun text =>
    newFile (if text = twoCandidates true then "4134096" else "b8e91ce") text⟩
  compares _ _ := by simp

theorem own_previews_serial :
    ∃ d, execute (previewsStep twoCandidates) (previews none)
        [false, false, false, true, true, true] = some d ∧
      ∀ t seen, d.locals t = .returned seen →
        diffAnswer printing none seen = .ok (ownDiff printing none (twoCandidates t)) := by
  refine ⟨_, rfl, fun t seen hreturned => ?_⟩
  have hok : Along (previewsStep twoCandidates) Undisturbed (previews none)
      [false, false, false, true, true, true] := by decide
  exact own_previews printing none none twoCandidates rfl hok t seen hreturned

/-- Both write, one compares and removes the file, then the other compares. -/
def mixedSteps : List Bool := [false, true, false, false, true, true]

/-- One is shown the other's candidate, the other that nothing would change. -/
theorem previews_get_mixed :
    ∃ d seen other, execute (previewsStep twoCandidates) (previews none) mixedSteps = some d ∧
      d.locals false = .returned seen ∧ d.locals true = .returned other ∧
      diffAnswer printing none seen = .ok (ownDiff printing none (twoCandidates true)) ∧
      diffAnswer printing none seen ≠ .ok (ownDiff printing none (twoCandidates false)) ∧
      diffAnswer printing none other = .ok "" ∧
      diffAnswer printing none other ≠ .ok (ownDiff printing none (twoCandidates true)) :=
  ⟨_, some (twoCandidates true), none, rfl, rfl, rfl, rfl, by decide +kernel, by decide +kernel,
    by decide +kernel⟩

end SeapathWebui.Inventory
