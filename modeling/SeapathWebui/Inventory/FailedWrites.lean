/-
  Inventory/FailedWrites.lean --- what a failed write leaves behind.

  Source: `commit` and `revert` of app/inventory/repository.py.

  The working file, the index and HEAD are written by three separate commands, and
  nothing puts the file back when a later one fails.  `read`, and with it the
  no-change shortcut of the next `commit`, looks at the file; the recorded version
  looks at HEAD.  `Operation.Breaks` is the list of failures that pull the two
  apart.  In a run without one of them the file and HEAD agree after every
  operation (`Repo.InStep`), and an operation that raises has changed neither.
-/
import SeapathWebui.Foundation.Transition
import SeapathWebui.Inventory.Repository

set_option autoImplicit false

namespace SeapathWebui.Inventory

open SeapathWebui.Foundation

/-! ## Operations -/

/-- One operation on the repository, with what git makes of its commands. -/
inductive Operation
  | commit (q : WriteRequest) (hash : Hash) (f : Faults)
  | revert (author : String) (outcome : RevertOutcome) (logFails : Bool)
  deriving DecidableEq

namespace Operation

/-- The repository after the operation, and what it returned or raised. -/
def run (s : Repo) : Operation → Repo × Except RepoError (Option Commit)
  | .commit q hash f => Inventory.commit s q hash f
  | .revert author outcome logFails =>
      let (s', result) := Inventory.revert s author outcome logFails
      (s', result.map some)

/-- The hash the operation gives to a new commit is one git could give. -/
def Fresh (s : Repo) : Operation → Prop
  | .commit _ hash _ => s.Fresh hash
  | .revert _ (.reverted hash _ _) _ => s.Fresh hash
  | .revert _ _ _ => True

instance (s : Repo) : ∀ op : Operation, Decidable (op.Fresh s)
  | .commit _ hash _ => inferInstanceAs (Decidable (s.Fresh hash))
  | .revert _ .refused _ => inferInstanceAs (Decidable True)
  | .revert _ (.conflict _) _ => inferInstanceAs (Decidable True)
  | .revert _ (.reverted hash _ _) _ => inferInstanceAs (Decidable (s.Fresh hash))

/-- One step of a sequence of operations. -/
def step (s : Repo) (op : Operation) : Option Repo :=
  if op.Fresh s then some (op.run s).1 else none

/-- The operation did no harm: if it raised, HEAD and `read` are as they were; if it
is a commit that reported no change, HEAD has the given content. -/
def Intact (s : Repo) (op : Operation) : Prop :=
  (∀ e, (op.run s).2 = .error e → (op.run s).1.head = s.head ∧ (op.run s).1.read = s.read) ∧
  (∀ q hash f, op = .commit q hash f → (op.run s).2 = .ok none →
    s.headContent = some q.content)

/-- `commit` comes as far as comparing the file. -/
def PassesChecks (s : Repo) (q : WriteRequest) (f : Faults) : Prop :=
  (s.initialised = true ∨ f.init = false) ∧
    staleCheck (if f.revParse then none else s.head) q.expectedHead = none

instance (s : Repo) (q : WriteRequest) (f : Faults) : Decidable (PassesChecks s q f) :=
  inferInstanceAs (Decidable (_ ∧ _))

/-- The failures that do harm: `git add` or `git commit` after the file was given
another text, `git log` after HEAD moved, a revert that conflicts, and a commit of
the text the file reads as although HEAD has no file, or one with other line ends. -/
def Breaks (s : Repo) : Operation → Prop
  | .commit q _ f =>
      PassesChecks s q f ∧
        if s.reads q.content then (s.headContent.all fun h => ¬ Text.NewlinesOnly h) = true
        else if f.add || f.commit then Text.universalNewlines q.content ≠ s.read
        else f.log = true ∧ s.headContent ≠ some q.content
  | .revert _ .refused _ => False
  | .revert _ (.conflict markers) _ =>
      s.initialised = true ∧ s.clean = true ∧ Text.universalNewlines markers ≠ s.read
  | .revert _ (.reverted _ _ _) logFails =>
      s.initialised = true ∧ s.clean = true ∧ logFails = true

instance (s : Repo) : ∀ op : Operation, Decidable (op.Breaks s)
  | .commit q _ f => inferInstanceAs (Decidable (PassesChecks s q f ∧
      if s.reads q.content then (s.headContent.all fun h => ¬ Text.NewlinesOnly h) = true
      else if f.add || f.commit then Text.universalNewlines q.content ≠ s.read
      else f.log = true ∧ s.headContent ≠ some q.content))
  | .revert _ .refused _ => inferInstanceAs (Decidable False)
  | .revert _ (.conflict _) _ => inferInstanceAs (Decidable (_ ∧ _ ∧ _))
  | .revert _ (.reverted _ _ _) _ => inferInstanceAs (Decidable (_ ∧ _ ∧ _))

/-! ## What a call does

One lemma for each way through `commit`, and one for `revert`. -/

variable {s : Repo} {q : WriteRequest} {hash : Hash} {f : Faults}

/-- Refused by `git init` or by the check of HEAD: nothing is touched. -/
theorem commit_of_not_passes (hash : Hash) (h : ¬ PassesChecks s q f) :
    (∃ e, (Inventory.commit s q hash f).2 = .error e) ∧
      (Inventory.commit s q hash f).1.log = s.log ∧
      (Inventory.commit s q hash f).1.file = s.file := by
  unfold Inventory.commit
  cases hinit : initialise s f.init with
  | error e => exact ⟨⟨e, rfl⟩, rfl, rfl⟩
  | ok t =>
      obtain ⟨hlog, hfile, -, -⟩ := initialise_ok hinit
      have hhead : t.head = s.head := by simp only [Repo.head, hlog]
      simp only [hhead]
      cases hstale : staleCheck (if f.revParse then none else s.head) q.expectedHead with
      | some e => exact ⟨⟨e, rfl⟩, hlog, hfile⟩
      | none =>
          refine (h ⟨?_, hstale⟩).elim
          unfold initialise at hinit
          split at hinit
          · exact Or.inl ‹_›
          · split at hinit
            · cases hinit
            · exact Or.inr (Bool.eq_false_iff.mpr ‹_›)

/-- Past the checks, `commit` compares the file and goes on. -/
theorem commit_of_passes (hash : Hash) (h : PassesChecks s q f) :
    ∃ t : Repo, t.log = s.log ∧ t.file = s.file ∧ t.index = s.index ∧
      Inventory.commit s q hash f =
        if t.reads q.content then (t, .ok none) else writeAndCommit t q hash f := by
  have hinit : ∃ t, initialise s f.init = .ok t := by
    unfold initialise
    rcases h.1 with hinit | hinit
    · exact ⟨s, if_pos hinit⟩
    · rw [hinit]
      split
      · exact ⟨_, rfl⟩
      · exact ⟨_, rfl⟩
  obtain ⟨t, ht⟩ := hinit
  obtain ⟨hlog, hfile, hindex, -⟩ := initialise_ok ht
  refine ⟨t, hlog, hfile, hindex, ?_⟩
  have hhead : t.head = s.head := by simp only [Repo.head, hlog]
  unfold Inventory.commit
  simp only [ht, hhead, h.2]

/-- `git add` or `git commit` fails, or there is nothing to commit: the file has the
new text, HEAD is as it was. -/
theorem writeAndCommit_of_fails (s : Repo) (q : WriteRequest) (hash : Hash)
    (h : (f.add || f.commit) = true ∨ s.headContent = some q.content) :
    (writeAndCommit s q hash f).2 = .error .git ∧ (writeAndCommit s q hash f).1.log = s.log ∧
      (writeAndCommit s q hash f).1.file = some q.content := by
  unfold writeAndCommit
  cases hadd : f.add with
  | true => exact ⟨rfl, rfl, rfl⟩
  | false =>
      cases hcommit : f.commit with
      | true => exact ⟨rfl, rfl, rfl⟩
      | false =>
          simp only [hadd, hcommit, Bool.or_self, Bool.false_eq_true, false_or] at h
          have hgit : (s.writeFile q.content).gitAdd.gitCommit hash q.author q.message = none :=
            dif_neg fun hne => hne.1 h.symm
          simp only [Bool.false_eq_true, if_false, hgit]
          exact ⟨trivial, rfl, rfl⟩

/-- Neither fails: HEAD moves to a commit of the given text, and only `git log` can
still raise. -/
theorem writeAndCommit_of_succeeds (h : (f.add || f.commit) = false)
    (hne : s.headContent ≠ some q.content) (hfresh : s.Fresh hash) :
    ∃ (t : Repo) (c : Commit), t.log = c :: s.log ∧ c.hash = hash ∧
      c.content = some q.content ∧ t.file = some q.content ∧
      writeAndCommit s q hash f = (t, if f.log then .error .noHistory else .ok (some c)) := by
  obtain ⟨hadd, hcommit⟩ := Bool.or_eq_false_iff.mp h
  let ready := (s.writeFile q.content).gitAdd
  let c := ready.newCommit hash ready.index q.author q.message
  have hgit : ready.gitCommit hash q.author q.message = some (ready.push c hfresh) :=
    Repo.gitCommit_eq_some.mpr ⟨fun heq => hne heq.symm, hfresh, rfl⟩
  refine ⟨ready.push c hfresh, c, rfl, rfl, rfl, rfl, ?_⟩
  unfold writeAndCommit
  simp only [hadd, hcommit, Bool.false_eq_true, if_false]
  rw [hgit]
  cases f.log <;> rfl

/-- `revert` of a working directory that is not clean, or a refusal. -/
theorem revert_of_refused {author : String} {outcome : RevertOutcome} {logFails : Bool}
    (h : ¬ (s.initialised = true ∧ s.clean = true) ∨ outcome = .refused) :
    Inventory.revert s author outcome logFails = (s, .error .git) := by
  have hgit : gitRevert s author outcome = (s, false) := by
    unfold gitRevert
    rcases h with h | rfl
    · rw [if_neg (by simpa using h)]
    · split <;> rfl
  unfold Inventory.revert
  rw [hgit]

theorem revert_of_conflict {author markers : String} {logFails : Bool}
    (hinit : s.initialised = true) (hclean : s.clean = true) :
    Inventory.revert s author (.conflict markers) logFails =
      ({ s with file := some markers, index := none }, .error .git) := by
  simp only [Inventory.revert, gitRevert, hinit, hclean, Bool.and_self, if_true]

theorem revert_of_reverted (author message : String) (content : Option String)
    (logFails : Bool) (hinit : s.initialised = true) (hclean : s.clean = true)
    (hfresh : s.Fresh hash) :
    ∃ (t : Repo) (c : Commit), t.log = c :: s.log ∧ c.hash = hash ∧ c.content = content ∧
      t.file = content ∧
      Inventory.revert s author (.reverted hash content message) logFails =
        (t, if logFails then .error .noHistory else .ok c) := by
  let c := s.newCommit hash content author message
  refine ⟨{ s.push c hfresh with file := content, index := content }, c, rfl, rfl, rfl, rfl, ?_⟩
  simp only [Inventory.revert, gitRevert, hinit, hclean, Bool.and_self, if_true, dif_pos hfresh]
  cases logFails <;> rfl

end Operation

/-! ## The invariant -/

/-- The file reads as the one of HEAD. -/
def Repo.InStep (s : Repo) : Prop :=
  s.read = Text.universalNewlines (s.headContent.getD "")

theorem Repo.inStep_of_file {s : Repo} (h : s.file = s.headContent) : s.InStep := by
  rw [Repo.InStep, Repo.read, h]

/-- Same log, same text. -/
theorem Repo.InStep.of_same {s t : Repo} (hs : s.InStep) (hlog : t.log = s.log)
    (hread : t.read = s.read) : t.InStep := by
  rw [Repo.InStep, hread, Repo.headContent, hlog]
  exact hs

/-- A text the file reads as is what `read` returns. -/
theorem Repo.read_of_reads {s : Repo} {content : String} (h : s.reads content) :
    s.read = content := by
  obtain ⟨text, hfile, hread⟩ := Option.map_eq_some_iff.mp h
  rw [Repo.read, hfile, Option.getD_some, hread]

/-- Where the file reads as the content and as what HEAD has, HEAD has that content
exactly if it has a file, and one with newlines only. -/
theorem Repo.headContent_eq_iff {s : Repo} {content : String} (hs : s.InStep)
    (hreads : s.reads content) :
    s.headContent = some content ↔
      ¬ (s.headContent.all fun h => ¬ Text.NewlinesOnly h) = true := by
  have hread : content = Text.universalNewlines (s.headContent.getD "") :=
    (Repo.read_of_reads hreads).symm.trans hs
  cases hhead : s.headContent with
  | none => simp
  | some text =>
      rw [hhead, Option.getD_some] at hread
      rw [hread, Option.some.injEq, eq_comm, Text.universalNewlines_eq_self_iff]
      simp

namespace Operation

/-- An operation that raised and left the log and the text alone did no harm. -/
theorem intact_of_raised {s : Repo} {op : Operation} {e : RepoError}
    (hresult : (op.run s).2 = .error e) (hlog : (op.run s).1.log = s.log)
    (hread : (op.run s).1.read = s.read) : op.Intact s := by
  refine ⟨fun _ _ => ⟨by simp only [Repo.head, hlog], hread⟩, ?_⟩
  intro q hash f _ hnone
  rw [hresult] at hnone
  cases hnone

/-- One that raised after HEAD moved did. -/
theorem not_intact_of_moved {s : Repo} {op : Operation} {e : RepoError} {c : Commit}
    (hresult : (op.run s).2 = .error e) (hlog : (op.run s).1.log = c :: s.log)
    (hfresh : s.Fresh c.hash) : ¬ op.Intact s := by
  intro hintact
  have hhead := (hintact.1 e hresult).1
  rw [Repo.head, hlog] at hhead
  exact Repo.head_ne_of_fresh hfresh hhead.symm

/-- One that returned something did none. -/
theorem intact_of_returned {s : Repo} {op : Operation} {c : Commit}
    (hresult : (op.run s).2 = .ok (some c)) : op.Intact s := by
  refine ⟨fun e he => ?_, fun q hash f _ hnone => ?_⟩
  · rw [hresult] at he
    cases he
  · rw [hresult] at hnone
    cases Except.ok.inj hnone

/-- One that raised and left HEAD did harm exactly if the text is another. -/
theorem intact_iff_of_raised {s : Repo} {op : Operation} {e : RepoError}
    (hresult : (op.run s).2 = .error e) (hlog : (op.run s).1.log = s.log) :
    op.Intact s ↔ (op.run s).1.read = s.read :=
  ⟨fun hintact => (hintact.1 e hresult).2, intact_of_raised hresult hlog⟩

/-- One that moved HEAD did harm exactly if `git log` failed afterwards. -/
theorem intact_iff_of_moved {s : Repo} {op : Operation} {c : Commit} {logFails : Bool}
    (hresult : (op.run s).2 = if logFails then .error .noHistory else .ok (some c))
    (hlog : (op.run s).1.log = c :: s.log) (hfresh : s.Fresh c.hash) :
    op.Intact s ↔ ¬ logFails = true := by
  cases logFails with
  | true =>
      have hmoved : ¬ op.Intact s := not_intact_of_moved hresult hlog hfresh
      simp [hmoved]
  | false =>
      have hintact : op.Intact s := intact_of_returned hresult
      simp [hintact]

/-! ### The step, one way through at a time -/

/-- `Breaks` tells whether the operation does harm here, and where it does none the file
still reads as the one of HEAD. -/
def DecidedByBreaks (s : Repo) (op : Operation) : Prop :=
  (op.Intact s ↔ ¬ op.Breaks s) ∧ (¬ op.Breaks s → (op.run s).1.InStep)

theorem DecidedByBreaks.of_iff {s : Repo} {op : Operation} {P : Prop}
    (hbreaks : op.Breaks s ↔ P) (hintact : op.Intact s ↔ ¬ P)
    (hstep : ¬ P → (op.run s).1.InStep) : op.DecidedByBreaks s := by
  unfold DecidedByBreaks
  rw [hbreaks]
  exact ⟨hintact, hstep⟩

section Commit

variable {s : Repo} {q : WriteRequest} {hash : Hash} {f : Faults}

/-- Refused before anything is written. -/
theorem commit_decided_of_not_passes (hs : s.InStep) (hp : ¬ PassesChecks s q f) :
    (Operation.commit q hash f).DecidedByBreaks s := by
  obtain ⟨⟨e, herror⟩, hlog, hfile⟩ := commit_of_not_passes hash hp
  have hread : ((Operation.commit q hash f).run s).1.read = s.read :=
    congrArg (fun file : Option String => Text.universalNewlines (file.getD "")) hfile
  have hintact : (Operation.commit q hash f).Intact s := intact_of_raised herror hlog hread
  refine .of_iff (P := False) ⟨fun h => hp h.1, False.elim⟩ ?_ fun _ => hs.of_same hlog hread
  exact ⟨fun _ => not_false, fun _ => hintact⟩

/-- Nothing to change: the shortcut. -/
theorem commit_decided_of_same (hs : s.InStep) (hp : PassesChecks s q f)
    (hsame : s.reads q.content) : (Operation.commit q hash f).DecidedByBreaks s := by
  obtain ⟨t, hlog, hfile, -, hcommit⟩ := commit_of_passes hash hp
  have hreads : t.reads q.content := by simpa only [Repo.reads, hfile] using hsame
  have hread : t.read = s.read := by simp only [Repo.read, hfile]
  have hrun : (Operation.commit q hash f).run s = (t, .ok none) := hcommit.trans (if_pos hreads)
  refine .of_iff (P := (s.headContent.all fun h => ¬ Text.NewlinesOnly h) = true) ?_ ?_ ?_
  · simp only [Breaks, hp, true_and, if_pos hsame]
  · rw [← Repo.headContent_eq_iff hs hsame]
    constructor
    · intro hintact
      exact hintact.2 q hash f rfl (by rw [hrun])
    · intro hhas
      refine ⟨fun e he => ?_, fun q' hash' f' heq _ => ?_⟩
      · rw [hrun] at he
        cases he
      · cases heq
        exact hhas
  · intro _
    rw [hrun]
    exact hs.of_same hlog hread

/-- The file is written, and HEAD is not going to move. -/
theorem commit_decided_of_fails (hs : s.InStep) (hp : PassesChecks s q f)
    (hother : ¬ s.reads q.content)
    (hfails : (f.add || f.commit) = true ∨ s.headContent = some q.content) :
    (Operation.commit q hash f).DecidedByBreaks s := by
  obtain ⟨t, hlog, hfile, -, hcommit⟩ := commit_of_passes hash hp
  have hcontent : t.headContent = s.headContent := by simp only [Repo.headContent, hlog]
  have hreads : ¬ t.reads q.content := by simpa only [Repo.reads, hfile] using hother
  have hrun : (Operation.commit q hash f).run s = writeAndCommit t q hash f :=
    hcommit.trans (if_neg hreads)
  obtain ⟨herror, hlog', hfile'⟩ :=
    writeAndCommit_of_fails t q hash (hfails.imp_right hcontent.trans)
  rw [← hrun] at herror hlog' hfile'
  rw [hlog] at hlog'
  have hread : ((Operation.commit q hash f).run s).1.read =
      Text.universalNewlines q.content := by
    rw [Repo.read, hfile', Option.getD_some]
  refine .of_iff (P := Text.universalNewlines q.content ≠ s.read) ?_ ?_ ?_
  · simp only [Breaks, hp, true_and, if_neg hother]
    split
    · exact Iff.rfl
    · -- git was not to fail, so HEAD has the content already
      rename_i hgit
      have hhead : s.headContent = some q.content := hfails.resolve_left hgit
      rw [hs, hhead]
      simp
  · rw [not_not, intact_iff_of_raised herror hlog', hread]
  · intro hsame
    exact hs.of_same hlog' (hread.trans (not_not.mp hsame))

/-- The file is written and HEAD moves. -/
theorem commit_decided_of_succeeds (hp : PassesChecks s q f) (hother : ¬ s.reads q.content)
    (hsucceeds : ¬ ((f.add || f.commit) = true ∨ s.headContent = some q.content))
    (hfresh : s.Fresh hash) : (Operation.commit q hash f).DecidedByBreaks s := by
  obtain ⟨hgit, hne⟩ := not_or.mp hsucceeds
  obtain ⟨t, hlog, hfile, -, hcommit⟩ := commit_of_passes hash hp
  have hcontent : t.headContent = s.headContent := by simp only [Repo.headContent, hlog]
  have hreads : ¬ t.reads q.content := by simpa only [Repo.reads, hfile] using hother
  have hfresh' : t.Fresh hash := by simpa only [Repo.Fresh, hlog] using hfresh
  obtain ⟨t', c, hlog', hhash, hnew, hfile', hresult⟩ :=
    writeAndCommit_of_succeeds (Bool.eq_false_iff.mpr hgit) (hcontent ▸ hne) hfresh'
  rw [hlog] at hlog'
  have hrun : (Operation.commit q hash f).run s =
      (t', if f.log then .error .noHistory else .ok (some c)) :=
    (hcommit.trans (if_neg hreads)).trans hresult
  refine .of_iff (P := f.log = true) ?_ ?_ fun _ => ?_
  · simp only [Breaks, hp, true_and, if_neg hother, if_neg hgit, ne_eq, hne, not_false_eq_true,
      and_true]
  · exact intact_iff_of_moved (congrArg Prod.snd hrun)
      ((congrArg (·.1.log) hrun).trans hlog') (hhash ▸ hfresh)
  · rw [hrun]
    refine Repo.inStep_of_file ?_
    rw [hfile', Repo.headContent, hlog']
    exact hnew.symm

/-- Step lemma for `commit`: in a repository whose file reads as the one of HEAD, it does
no harm exactly if it meets none of the failures that do; and then the file still
does. -/
theorem commit_decided (hs : s.InStep) (hfresh : s.Fresh hash) :
    (Operation.commit q hash f).DecidedByBreaks s := by
  by_cases hp : PassesChecks s q f
  · by_cases hsame : s.reads q.content
    · exact commit_decided_of_same hs hp hsame
    · by_cases hfails : (f.add || f.commit) = true ∨ s.headContent = some q.content
      · exact commit_decided_of_fails hs hp hsame hfails
      · exact commit_decided_of_succeeds hp hsame hfails hfresh
  · exact commit_decided_of_not_passes hs hp

end Commit

/-- Step lemma for `revert`. -/
theorem revert_decided {s : Repo} {author : String} {outcome : RevertOutcome} {logFails : Bool}
    (hs : s.InStep) (hfresh : (Operation.revert author outcome logFails).Fresh s) :
    (Operation.revert author outcome logFails).DecidedByBreaks s := by
  by_cases hrefused : ¬ (s.initialised = true ∧ s.clean = true) ∨ outcome = .refused
  · have hrun : (Operation.revert author outcome logFails).run s = (s, .error .git) := by
      simp only [run, revert_of_refused hrefused]
      rfl
    have hbreaks : ¬ (Operation.revert author outcome logFails).Breaks s := by
      rcases hrefused with hdirty | rfl
      · cases outcome with
        | refused => exact id
        | conflict markers => exact fun h => hdirty ⟨h.1, h.2.1⟩
        | reverted hash content message => exact fun h => hdirty ⟨h.1, h.2.1⟩
      · exact id
    refine ⟨⟨fun _ => hbreaks, fun _ => ?_⟩, fun _ => by rw [hrun]; exact hs⟩
    exact intact_of_raised (e := .git) (by rw [hrun]) (by rw [hrun]) (by rw [hrun])
  · obtain ⟨hready, hrefused⟩ := not_or.mp hrefused
    obtain ⟨hinit, hclean⟩ := not_not.mp hready
    cases outcome with
    | refused => exact (hrefused rfl).elim
    | conflict markers =>
        have hrun : (Operation.revert author (.conflict markers) logFails).run s =
            ({ s with file := some markers, index := none }, .error .git) := by
          simp only [run, revert_of_conflict hinit hclean]
          rfl
        have hread : ((Operation.revert author (.conflict markers) logFails).run s).1.read =
            Text.universalNewlines markers := by
          rw [hrun]
          rfl
        have hlog : ((Operation.revert author (.conflict markers) logFails).run s).1.log =
            s.log := by rw [hrun]
        refine .of_iff (P := Text.universalNewlines markers ≠ s.read) ?_ ?_ fun hsame => ?_
        · simp only [Breaks, hinit, hclean, true_and]
        · rw [not_not, intact_iff_of_raised (e := .git) (by rw [hrun]) hlog, hread]
        · exact hs.of_same hlog (hread.trans (not_not.mp hsame))
    | reverted hash content message =>
        obtain ⟨t, c, hlog, hhash, hnew, hfile, hrevert⟩ :=
          revert_of_reverted author message content logFails hinit hclean hfresh
        have hrun : (Operation.revert author (.reverted hash content message) logFails).run s =
            (t, if logFails then .error .noHistory else .ok (some c)) := by
          simp only [run, hrevert]
          cases logFails <;> rfl
        refine .of_iff (P := logFails = true) ?_ ?_ fun _ => ?_
        · simp only [Breaks, hinit, hclean, true_and]
        · exact intact_iff_of_moved (congrArg Prod.snd hrun)
            ((congrArg (·.1.log) hrun).trans hlog) (hhash ▸ hfresh)
        · rw [hrun]
          refine Repo.inStep_of_file ?_
          rw [hfile, Repo.headContent, hlog]
          exact hnew.symm

/-- Step lemma: in a repository whose file is the one of HEAD, an operation does no
harm exactly if it meets none of the failures that do; and then the file still is. -/
theorem decided_by_breaks {s : Repo} {op : Operation} (hs : s.InStep) (hfresh : op.Fresh s) :
    op.DecidedByBreaks s := by
  cases op with
  | commit q hash f => exact commit_decided hs hfresh
  | revert author outcome logFails => exact revert_decided hs hfresh

end Operation

/-! ## Sequences of operations -/

/-- Run lemma: both sides step together, as long as the file is the one of HEAD. -/
theorem along_intact_iff {ops : List Operation} :
    ∀ {s t : Repo}, s.InStep → execute Operation.step s ops = some t →
      (Along Operation.step (fun s op => op.Intact s) s ops ↔
        Along Operation.step (fun s op => ¬ op.Breaks s) s ops) := by
  induction ops with
  | nil =>
      intro s t _ _
      exact Iff.rfl
  | cons op rest ih =>
      intro s t hs hrun
      obtain ⟨u, hstep, hrest⟩ := execute_cons_eq_some.mp hrun
      have hfresh : op.Fresh s := by
        unfold Operation.step at hstep
        split at hstep
        · assumption
        · cases hstep
      have hu : (op.run s).1 = u := by
        simpa only [Operation.step, if_pos hfresh, Option.some.injEq] using hstep
      obtain ⟨hiff, hkeeps⟩ := Operation.decided_by_breaks hs hfresh
      simp only [Along, hiff, hstep, Option.some.injEq, forall_eq']
      refine and_congr_right fun hok => ?_
      exact ih (hu ▸ hkeeps hok) hrest

/-- A write that names this commit. -/
def secondWrite (expectedHead : Hash) : WriteRequest where
  content := "two\n"
  message := "network: set gateway_addr on node1"
  author := "bob"
  expectedHead := some expectedHead

/-- A stale write, a write, a refused revert and a revert. -/
def harmless : List Operation :=
  [.commit (secondWrite "c9") "c1" {}, .commit (secondWrite "c0") "c1" {},
    .revert "alice" .refused false,
    .revert "alice" (.reverted "c2" (some "one\n") "Revert") false]

end SeapathWebui.Inventory
