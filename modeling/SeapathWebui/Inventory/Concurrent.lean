/-
  Inventory/Concurrent.lean --- inventory writes that interleave.

  Source: `commit` of app/inventory/repository.py, called by `InventoryService.save`
  for PUT /inventory and PATCH /inventory/hosts/{name}.

  Any number of requests are handled by concurrent worker threads, and nothing
  serialises them.  `WritePhase` says which operation of `commit` comes next.  The
  shared memory is the repository, and a history variable that no step reads: the
  order in which writes passed their check of HEAD, wrote the file, added it and
  made their commits.

  The check of HEAD and the steps that act on it are separate, and so are the write
  of the file, `git add` and `git commit`.  That no update is lost is therefore true
  of exactly the interleavings in which no other commit lands in between, and none
  commits the text of another write (`Serial`).
-/
import SeapathWebui.Foundation.Threads
import SeapathWebui.Foundation.Transition
import SeapathWebui.Inventory.Repository

set_option autoImplicit false

namespace SeapathWebui.Inventory

open SeapathWebui.Foundation

variable {ι : Type*}

/-! ## The steps of `commit` -/

/-- The next operation of a write. -/
inductive WritePhase
  | initialising
  /-- reading HEAD and comparing it with `expected_head` -/
  | checking
  /-- comparing the content of the file -/
  | comparing
  | writing
  /-- `git add` -/
  | adding
  /-- `git commit` -/
  | committing
  /-- `git log`; `own` is the commit just made -/
  | logging (own : Commit)
  /-- returned or raised, with the commit it made on the way -/
  | done (own : Option Commit) (result : Except RepoError (Option Commit))
  deriving DecidableEq

/-- The commit a write has produced. -/
def WritePhase.produced : WritePhase → Option Commit
  | .logging own => some own
  | .done own _ => own
  | _ => none

/-- What happens at the next step of a write. -/
inductive WriteAction
  /-- the operation succeeds; `hash` is the one a new commit gets -/
  | proceed (hash : Hash)
  /-- the git command fails -/
  | fail
  deriving DecidableEq

/-- What the history variable records. -/
inductive Event (ι : Type*)
  /-- the write found HEAD where it expected it -/
  | checked (t : ι)
  /-- the write wrote the file while HEAD was `head` -/
  | wrote (t : ι) (head : Option Hash)
  /-- `git add` -/
  | added (t : ι)
  /-- the write's commit landed while the file was `file` -/
  | committed (t : ι) (file : Option String)
  deriving DecidableEq

/-- What the writes share; `trace` has the newest event first. -/
structure Shared (ι : Type*) where
  repo : Repo
  trace : List (Event ι) := []

/-- Where the check of HEAD leads. -/
def afterCheck (q : WriteRequest) (t : ι) (current : Option Hash) (s : Shared ι) :
    Shared ι × WritePhase :=
  match staleCheck current q.expectedHead with
  | some e => (s, .done none (.error e))
  | none => ({ s with trace := .checked t :: s.trace }, .comparing)

/-- One step of a write. -/
def writeStep (requests : ι → WriteRequest) (t : ι) :
    WriteAction → Shared ι → WritePhase → Option (Shared ι × WritePhase)
  | .proceed _, s, .initialising => some ({ s with repo := s.repo.gitInit }, .checking)
  | .fail, s, .initialising =>
      if s.repo.initialised then none else some (s, .done none (.error .git))
  | .proceed _, s, .checking => some (afterCheck (requests t) t s.repo.head s)
  -- `head` answers `None` where `git rev-parse` fails
  | .fail, s, .checking => some (afterCheck (requests t) t none s)
  | .proceed _, s, .comparing =>
      if s.repo.reads (requests t).content then some (s, .done none (.ok none))
      else some (s, .writing)
  | .proceed _, s, .writing =>
      some ({ repo := s.repo.writeFile (requests t).content
              trace := .wrote t s.repo.head :: s.trace }, .adding)
  | .proceed _, s, .adding =>
      some ({ repo := s.repo.gitAdd, trace := .added t :: s.trace }, .committing)
  | .fail, s, .adding => some (s, .done none (.error .git))
  | .proceed hash, s, .committing =>
      if s.repo.Fresh hash then
        match s.repo.gitCommit hash (requests t).author (requests t).message with
        | none => some (s, .done none (.error .git))
        | some repo =>
            some ({ repo := repo, trace := .committed t s.repo.file :: s.trace },
              .logging (s.repo.newCommit hash s.repo.index (requests t).author
                (requests t).message))
      else none
  | .fail, s, .committing => some (s, .done none (.error .git))
  | .proceed _, s, .logging own =>
      match s.repo.history 1 false with
      | [] => some (s, .done (some own) (.error .noHistory))
      | c :: _ => some (s, .done (some own) (.ok (some c)))
  | .fail, s, .logging own => some (s, .done (some own) (.error .noHistory))
  | _, _, _ => none

/-- The repository and every write. -/
abbrev Desk (ι : Type*) : Type _ := Config ι (Shared ι) WritePhase

/-- One write takes one step. -/
def deskStep [DecidableEq ι] (requests : ι → WriteRequest) (w : Desk ι) (label : ι × WriteAction) :
    Option (Desk ι) :=
  w.advance (writeStep requests) label.1 label.2

/-- Before the first step. -/
def desk (s : Repo) : Desk ι := ⟨{ repo := s }, fun _ => .initialising⟩

/-! ### A write alone -/

/-- Steps of one write. -/
def writeRun (requests : ι → WriteRequest) (t : ι) (p : Shared ι × WritePhase)
    (actions : List WriteAction) : Option (Shared ι × WritePhase) :=
  execute (fun p a => writeStep requests t a p.1 p.2) p actions

/-- The operations of one write, taken one after the other, are `commit` without a
fault. -/
theorem write_alone (requests : ι → WriteRequest) (t : ι) (s : Repo) (hash : Hash)
    (hfresh : s.Fresh hash) :
    ∃ n final own result,
      writeRun requests t ({ repo := s }, .initialising) (List.replicate n (.proceed hash)) =
        some (final, .done own result) ∧
      (final.repo, result) = commit s (requests t) hash {} := by
  have hcommit : commit s (requests t) hash {} =
      match staleCheck s.gitInit.head (requests t).expectedHead with
      | some e => (s.gitInit, .error e)
      | none =>
          if s.gitInit.reads (requests t).content then (s.gitInit, .ok none)
          else writeAndCommit s.gitInit (requests t) hash {} := by
    unfold commit
    rw [initialise_of_not_fails]
    rfl
  rw [hcommit]
  cases hstale : staleCheck s.gitInit.head (requests t).expectedHead with
  | some e =>
      refine ⟨2, { repo := s.gitInit }, none, .error e, ?_, rfl⟩
      simp only [writeRun, execute, List.replicate, writeStep, afterCheck, hstale]
  | none =>
      by_cases hsame : s.gitInit.reads (requests t).content
      · refine ⟨3, ⟨s.gitInit, [.checked t]⟩, none, .ok none, ?_, by rw [if_pos hsame]⟩
        simp only [writeRun, execute, List.replicate, writeStep, afterCheck, hstale, if_pos hsame]
      · simp only [if_neg hsame]
        -- the repository as `git commit` finds it
        have hfresh' : (s.gitInit.writeFile (requests t).content).gitAdd.Fresh hash := hfresh
        cases hgit : (s.gitInit.writeFile (requests t).content).gitAdd.gitCommit hash
            (requests t).author (requests t).message with
        | none =>
            refine ⟨6, ⟨(s.gitInit.writeFile (requests t).content).gitAdd,
              [.added t, .wrote t s.gitInit.head, .checked t]⟩, none, .error .git, ?_,
              by simp [writeAndCommit, hgit]⟩
            simp only [writeRun, execute, List.replicate, writeStep, afterCheck, hstale,
              if_neg hsame, if_pos hfresh', hgit]
        | some repo =>
            obtain ⟨-, hfresh'', rfl⟩ := Repo.gitCommit_eq_some.mp hgit
            let ready := (s.gitInit.writeFile (requests t).content).gitAdd
            let own := ready.newCommit hash ready.index (requests t).author (requests t).message
            refine ⟨7, ⟨ready.push own hfresh'', [.committed t ready.file, .added t,
              .wrote t s.gitInit.head, .checked t]⟩, some own, .ok (some own), ?_, ?_⟩
            · simp only [writeRun, execute, List.replicate, writeStep, afterCheck, hstale,
                if_neg hsame, if_pos hfresh', hgit]
              rfl
            · simp only [writeAndCommit, Bool.false_eq_true, if_false, hgit]
              rfl

/-! ## The condition -/

/-- It is a commit. -/
def Event.isCommit : Event ι → Bool
  | .committed _ _ => true
  | .checked _ | .wrote _ _ | .added _ => false

/-- The events since the write's check. -/
def window [DecidableEq ι] (t : ι) (trace : List (Event ι)) : List (Event ι) :=
  trace.takeWhile (· ≠ .checked t)

/-- No commit has landed since the write's check. -/
def Quiet [DecidableEq ι] (t : ι) (trace : List (Event ι)) : Prop :=
  ∀ e ∈ window t trace, e.isCommit = false

/-- The text that a write of the file gives it. -/
def Event.text? (requests : ι → WriteRequest) : Event ι → Option String
  | .wrote t _ => some (requests t).content
  | .checked _ | .added _ | .committed _ _ => none

/-- It is a `git add`. -/
def Event.isAdd : Event ι → Bool
  | .added _ => true
  | .checked _ | .wrote _ _ | .committed _ _ => false

/-- The text that the file was last given. -/
def written (requests : ι → WriteRequest) (trace : List (Event ι)) : Option String :=
  trace.findSome? (Event.text? requests)

/-- The text that it had been given last when `git add` was last run. -/
def staged (requests : ι → WriteRequest) (trace : List (Event ι)) : Option String :=
  written requests (trace.dropWhile fun e => !e.isAdd)

/-- From a write's check of HEAD to its write of the file and to its own commit no other commit
lands; and when it commits, the file was last given its text, and so it was when `git add` was
last run. -/
def Serial [DecidableEq ι] (requests : ι → WriteRequest) : List (Event ι) → Prop
  | [] => True
  | .checked _ :: trace | .added _ :: trace => Serial requests trace
  | .wrote t _ :: trace => Serial requests trace ∧ Quiet t trace
  | .committed t _ :: trace =>
      Serial requests trace ∧ Quiet t trace ∧
        written requests trace = some (requests t).content ∧
        staged requests trace = some (requests t).content

/-! ## The property -/

/-- No update is lost: each commit has the commit its write named for parent, and
the text its write sent; of two writes that name the same commit at most one produces
a commit; what a commit is made on top of is the commit its write named, so none in
between is written over; no write of the file is made while HEAD is another commit
than the one it names; and when a commit lands, the file holds its text. -/
structure NoLostUpdate (requests : ι → WriteRequest) (named : ι → Hash) (w : Desk ι) : Prop where
  parent : ∀ t c, (w.locals t).produced = some c → c.parent = some (named t)
  content : ∀ t c, (w.locals t).produced = some c → c.content = some (requests t).content
  once : ∀ t u c c', (w.locals t).produced = some c → (w.locals u).produced = some c' →
    named t = named u → t = u
  onTop : ∀ t c, (w.locals t).produced = some c →
    ∃ newer older, w.shared.repo.log = newer ++ c :: older ∧
      older.head?.map (·.hash) = some (named t)
  file : ∀ t text, .committed t text ∈ w.shared.trace → text = some (requests t).content
  head : ∀ t head, .wrote t head ∈ w.shared.trace → head = some (named t)

/-! ## The invariant -/

/-- The write has checked HEAD and not tried to commit yet. -/
def WritePhase.inWindow : WritePhase → Bool
  | .comparing | .writing | .adding | .committing => true
  | _ => false

/-- The write has written the file, and not tried to commit yet. -/
def WritePhase.hasWritten : WritePhase → Bool
  | .adding | .committing => true
  | _ => false

/-- The write has added the file, and not tried to commit yet. -/
def WritePhase.hasAdded : WritePhase → Bool
  | .committing => true
  | _ => false

/-- The steps so far were right: those that wrote the file, and those that committed. -/
structure Right (requests : ι → WriteRequest) (named : ι → Hash) (w : Desk ι) : Prop where
  parent : ∀ t c, (w.locals t).produced = some c → c.parent = some (named t)
  content : ∀ t c, (w.locals t).produced = some c → c.content = some (requests t).content
  file : ∀ t text, .committed t text ∈ w.shared.trace → text = some (requests t).content
  head : ∀ t head, .wrote t head ∈ w.shared.trace → head = some (named t)

/-- The invariant of the writes, each naming a commit. -/
structure Desk.Invariant [DecidableEq ι] (requests : ι → WriteRequest) (named : ι → Hash)
    (w : Desk ι) : Prop where
  /-- In the window HEAD is the named commit as long as no commit landed. -/
  inWindow : ∀ t, (w.locals t).inWindow = true →
    named t ∈ w.shared.repo.log.map (·.hash) ∧
      (w.shared.repo.head = some (named t) ↔ Quiet t w.shared.trace)
  /-- A produced commit is in the log, on top of its parent. -/
  produced : ∀ t c, (w.locals t).produced = some c →
    ∃ newer older, w.shared.repo.log = newer ++ c :: older ∧
      c.parent = older.head?.map (·.hash)
  /-- No commit is produced by two writes. -/
  distinct : ∀ t u c, (w.locals t).produced = some c → (w.locals u).produced = some c → t = u
  /-- The file has the text that it was last given, -/
  file : ∀ text, written requests w.shared.trace = some text → w.shared.repo.file = some text
  /-- and the index the one it had at the last `git add`. -/
  index : ∀ text, staged requests w.shared.trace = some text → w.shared.repo.index = some text
  hasWritten : ∀ t, (w.locals t).hasWritten = true → written requests w.shared.trace ≠ none
  hasAdded : ∀ t, (w.locals t).hasAdded = true → staged requests w.shared.trace ≠ none
  /-- The trace is serial where the steps were right. -/
  serial : Serial requests w.shared.trace ↔ Right requests named w

/-- A step that leaves HEAD, the file, the index and the trace, and after which the write has
written nothing. -/
structure Silent (s s' : Shared ι) (l l' : WritePhase) : Prop where
  log : s'.repo.log = s.repo.log
  file : s'.repo.file = s.repo.file
  index : s'.repo.index = s.repo.index
  trace : s'.trace = s.trace
  inWindow : l'.inWindow = true → l.inWindow = true
  produced : l'.produced = l.produced
  hasWritten : l'.hasWritten = false
  hasAdded : l'.hasAdded = false

/-- What a step of a write that names a commit can be. -/
inductive WriteStep (request : WriteRequest) (named : Hash) (t : ι) (s : Shared ι) :
    WritePhase → Shared ι → WritePhase → Prop
  | silent {s' : Shared ι} {l l' : WritePhase} (h : Silent s s' l l') :
      WriteStep request named t s l s' l'
  /-- the check passes -/
  | checked {l : WritePhase} (hhead : s.repo.head = some named) (hl : l.produced = none) :
      WriteStep request named t s l { s with trace := .checked t :: s.trace } .comparing
  | wrote :
      WriteStep request named t s .writing
        { repo := s.repo.writeFile request.content
          trace := .wrote t s.repo.head :: s.trace } .adding
  | added :
      WriteStep request named t s .adding
        { repo := s.repo.gitAdd, trace := .added t :: s.trace } .committing
  /-- the commit lands -/
  | committed {c : Commit} (hfresh : s.repo.Fresh c.hash) (hparent : c.parent = s.repo.head)
      (hcontent : c.content = s.repo.index) :
      WriteStep request named t s .committing
        ⟨s.repo.push c hfresh, .committed t s.repo.file :: s.trace⟩ (.logging c)

/-- The check of a write that names a commit: it fails and touches nothing, or HEAD is
that commit. -/
theorem afterCheck_cases {request : WriteRequest} {t : ι} {named : Hash} {current : Option Hash}
    {s s' : Shared ι} {l' : WritePhase} (hmatch : request.expectedHead = some named)
    (h : afterCheck request t current s = (s', l')) :
    Silent s s' .checking l' ∨
      (current = some named ∧ s' = { s with trace := .checked t :: s.trace } ∧
        l' = .comparing) := by
  unfold afterCheck at h
  cases hstale : staleCheck current request.expectedHead with
  | some e =>
      rw [hstale] at h
      obtain ⟨rfl, rfl⟩ := Prod.mk.inj h
      exact Or.inl ⟨rfl, rfl, rfl, rfl, (by rintro ⟨⟩), rfl, rfl, rfl⟩
  | none =>
      rw [hstale] at h
      obtain ⟨rfl, rfl⟩ := Prod.mk.inj h
      exact Or.inr ⟨staleCheck_eq_none.mp hstale named hmatch, rfl, rfl⟩

theorem writeStep_cases {requests : ι → WriteRequest} {t : ι} {named : Hash} {a : WriteAction}
    {s s' : Shared ι} {l l' : WritePhase} (hmatch : (requests t).expectedHead = some named)
    (h : writeStep requests t a s l = some (s', l')) :
    WriteStep (requests t) named t s l s' l' := by
  cases l with
  | initialising =>
      cases a with
      | proceed hash =>
          obtain ⟨rfl, rfl⟩ := Prod.mk.inj (Option.some.inj h)
          exact .silent ⟨rfl, rfl, rfl, rfl, (by rintro ⟨⟩), rfl, rfl, rfl⟩
      | fail =>
          simp only [writeStep] at h
          split at h
          · cases h
          · obtain ⟨rfl, rfl⟩ := Prod.mk.inj (Option.some.inj h)
            exact .silent ⟨rfl, rfl, rfl, rfl, (by rintro ⟨⟩), rfl, rfl, rfl⟩
  | checking =>
      cases a with
      | proceed hash =>
          rcases afterCheck_cases hmatch (Option.some.inj h) with hsilent | ⟨hhead, rfl, rfl⟩
          · exact .silent hsilent
          · exact .checked hhead rfl
      | fail =>
          rcases afterCheck_cases hmatch (Option.some.inj h) with hsilent | ⟨hhead, -, -⟩
          · exact .silent hsilent
          · cases hhead
  | comparing =>
      cases a with
      | fail => cases h
      | proceed hash =>
          simp only [writeStep] at h
          split at h
          all_goals
            obtain ⟨rfl, rfl⟩ := Prod.mk.inj (Option.some.inj h)
            exact .silent ⟨rfl, rfl, rfl, rfl, fun _ => rfl, rfl, rfl, rfl⟩
  | writing =>
      cases a with
      | fail => cases h
      | proceed hash =>
          obtain ⟨rfl, rfl⟩ := Prod.mk.inj (Option.some.inj h)
          exact .wrote
  | adding =>
      cases a with
      | fail =>
          obtain ⟨rfl, rfl⟩ := Prod.mk.inj (Option.some.inj h)
          exact .silent ⟨rfl, rfl, rfl, rfl, fun _ => rfl, rfl, rfl, rfl⟩
      | proceed hash =>
          obtain ⟨rfl, rfl⟩ := Prod.mk.inj (Option.some.inj h)
          exact .added
  | committing =>
      cases a with
      | fail =>
          obtain ⟨rfl, rfl⟩ := Prod.mk.inj (Option.some.inj h)
          exact .silent ⟨rfl, rfl, rfl, rfl, fun _ => rfl, rfl, rfl, rfl⟩
      | proceed hash =>
          simp only [writeStep] at h
          split at h
          · split at h
            · obtain ⟨rfl, rfl⟩ := Prod.mk.inj (Option.some.inj h)
              exact .silent ⟨rfl, rfl, rfl, rfl, fun _ => rfl, rfl, rfl, rfl⟩
            · rename_i repo hgit
              obtain ⟨-, hfresh, rfl⟩ := Repo.gitCommit_eq_some.mp hgit
              obtain ⟨rfl, rfl⟩ := Prod.mk.inj (Option.some.inj h)
              exact .committed hfresh rfl rfl
          · cases h
  | logging own =>
      cases a with
      | fail =>
          obtain ⟨rfl, rfl⟩ := Prod.mk.inj (Option.some.inj h)
          exact .silent ⟨rfl, rfl, rfl, rfl, (by rintro ⟨⟩), rfl, rfl, rfl⟩
      | proceed hash =>
          simp only [writeStep] at h
          split at h
          all_goals
            obtain ⟨rfl, rfl⟩ := Prod.mk.inj (Option.some.inj h)
            exact .silent ⟨rfl, rfl, rfl, rfl, (by rintro ⟨⟩), rfl, rfl, rfl⟩
  | done own result =>
      cases a <;> cases h

section Window

variable [DecidableEq ι]

theorem quiet_checked_self (t : ι) (trace : List (Event ι)) : Quiet t (.checked t :: trace) := by
  simp [Quiet, window]

/-- No event but a commit ends the quiet of a window, and the check of another write is none. -/
theorem quiet_cons {t : ι} {e : Event ι} (he : e ≠ .checked t) (hcommit : e.isCommit = false)
    (trace : List (Event ι)) : Quiet t (e :: trace) ↔ Quiet t trace := by
  have hwindow : window t (e :: trace) = e :: window t trace := by
    rw [window, List.takeWhile_cons_of_pos (by simpa using he), window]
  rw [Quiet, hwindow, List.forall_mem_cons, Quiet]
  exact and_iff_right hcommit

theorem not_quiet_committed (t u : ι) (file : Option String) (trace : List (Event ι)) :
    ¬ Quiet t (.committed u file :: trace) := by
  intro h
  have hcommit := h (.committed u file) (by simp [window])
  cases hcommit

end Window

section Texts

variable {requests : ι → WriteRequest} {trace : List (Event ι)}

@[simp] theorem written_cons (e : Event ι) (trace : List (Event ι)) :
    written requests (e :: trace) = (e.text? requests).or (written requests trace) := by
  rw [written, List.findSome?_cons]
  cases e.text? requests with
  | none => rfl
  | some text => rfl

theorem staged_added (t : ι) (trace : List (Event ι)) :
    staged requests (.added t :: trace) = written requests trace := by
  simp [staged, Event.isAdd, Event.text?]

theorem staged_cons {e : Event ι} (he : e.isAdd = false) (trace : List (Event ι)) :
    staged requests (e :: trace) = staged requests trace := by
  rw [staged, List.dropWhile_cons_of_pos (by simp [he]), staged]

end Texts

theorem desk_invariant [DecidableEq ι] (requests : ι → WriteRequest) (named : ι → Hash)
    (s : Repo) : (desk s : Desk ι).Invariant requests named where
  inWindow := nofun
  produced := nofun
  distinct := nofun
  file := nofun
  index := nofun
  hasWritten := nofun
  hasAdded := nofun
  serial := ⟨fun _ => ⟨nofun, nofun, nofun, nofun⟩, fun _ => trivial⟩

/-- What was right stays right, as long as the writes have produced the same, and written and
committed the same. -/
theorem right_congr {requests : ι → WriteRequest} {named : ι → Hash} {w w' : Desk ι}
    (hprod : ∀ u, (w'.locals u).produced = (w.locals u).produced)
    (hfile : ∀ u text, .committed u text ∈ w'.shared.trace ↔ .committed u text ∈ w.shared.trace)
    (hhead : ∀ u head, .wrote u head ∈ w'.shared.trace ↔ .wrote u head ∈ w.shared.trace) :
    Right requests named w ↔ Right requests named w' := by
  constructor
  · intro hright
    exact ⟨fun u c hc => hright.parent u c ((hprod u).symm.trans hc),
      fun u c hc => hright.content u c ((hprod u).symm.trans hc),
      fun u text hmem => hright.file u text ((hfile u text).mp hmem),
      fun u head hmem => hright.head u head ((hhead u head).mp hmem)⟩
  · intro hright
    exact ⟨fun u c hc => hright.parent u c ((hprod u).trans hc),
      fun u c hc => hright.content u c ((hprod u).trans hc),
      fun u text hmem => hright.file u text ((hfile u text).mpr hmem),
      fun u head hmem => hright.head u head ((hhead u head).mpr hmem)⟩

section Step

variable [DecidableEq ι] {requests : ι → WriteRequest} {named : ι → Hash} {w : Desk ι} {t : ι}

/-- A write that steps and has produced what it had leaves what every write has
produced. -/
theorem produced_update {l : WritePhase} (hl : l.produced = (w.locals t).produced) (u : ι) :
    (Function.update w.locals t l u).produced = (w.locals u).produced := by
  rcases eq_or_ne u t with rfl | hne
  · rw [Function.update_self]
    exact hl
  · rw [Function.update_of_ne hne]

/-- A write at such a phase is the one that stepped, or was at one. -/
theorem of_update {f : WritePhase → Bool} {l : WritePhase} {u : ι}
    (h : f (Function.update w.locals t l u) = true) :
    (u = t ∧ f l = true) ∨ (u ≠ t ∧ f (w.locals u) = true) := by
  rcases eq_or_ne u t with rfl | hne
  · rw [Function.update_self] at h
    exact Or.inl ⟨rfl, h⟩
  · rw [Function.update_of_ne hne] at h
    exact Or.inr ⟨hne, h⟩

/-- A write of the file is right where HEAD is the commit that it names. -/
theorem right_wrote {l : WritePhase} (hl : l.produced = (w.locals t).produced) (repo : Repo)
    (head : Option Hash) :
    Right requests named
        ⟨⟨repo, .wrote t head :: w.shared.trace⟩, Function.update w.locals t l⟩ ↔
      Right requests named w ∧ head = some (named t) := by
  have hprod := produced_update hl
  constructor
  · intro hright
    exact ⟨⟨fun u c hc => hright.parent u c ((hprod u).trans hc),
      fun u c hc => hright.content u c ((hprod u).trans hc),
      fun u text hmem => hright.file u text (List.mem_cons_of_mem _ hmem),
      fun u head hmem => hright.head u head (List.mem_cons_of_mem _ hmem)⟩,
      hright.head t _ List.mem_cons_self⟩
  · rintro ⟨hright, hhead⟩
    refine ⟨fun u c hc => hright.parent u c ((hprod u).symm.trans hc),
      fun u c hc => hright.content u c ((hprod u).symm.trans hc),
      fun u text hmem => hright.file u text (by simpa using hmem), fun u head' hmem => ?_⟩
    rcases List.mem_cons.mp hmem with heq | hmem
    · obtain ⟨rfl, rfl⟩ := Event.wrote.inj heq
      exact hhead
    · exact hright.head u head' hmem

/-- After a commit: the commit is its write's, and the others have what they had. -/
theorem produced_logging {c d : Commit} {u : ι} :
    (Function.update w.locals t (.logging c) u).produced = some d ↔
      (u = t ∧ d = c) ∨ (u ≠ t ∧ (w.locals u).produced = some d) := by
  rcases eq_or_ne u t with rfl | hne
  · rw [Function.update_self]
    simp [WritePhase.produced, eq_comm]
  · rw [Function.update_of_ne hne]
    simp [hne]

/-- A commit is right on top of the commit that its write names, and with its write's text, in
the file and in the commit. -/
theorem right_committed {c : Commit} (hnone : (w.locals t).produced = none) (repo : Repo)
    (file : Option String) :
    Right requests named
        ⟨⟨repo, .committed t file :: w.shared.trace⟩, Function.update w.locals t (.logging c)⟩ ↔
      Right requests named w ∧ c.parent = some (named t) ∧
        file = some (requests t).content ∧ c.content = some (requests t).content := by
  have hown : (Function.update w.locals t (.logging c) t).produced = some c :=
    produced_logging.mpr (.inl ⟨rfl, rfl⟩)
  have hother : ∀ u d, (w.locals u).produced = some d →
      (Function.update w.locals t (.logging c) u).produced = some d := by
    intro u d hd
    refine produced_logging.mpr (.inr ⟨?_, hd⟩)
    rintro rfl
    rw [hnone] at hd
    cases hd
  constructor
  · intro hright
    exact ⟨⟨fun u d hd => hright.parent u d (hother u d hd),
      fun u d hd => hright.content u d (hother u d hd),
      fun u text hmem => hright.file u text (List.mem_cons_of_mem _ hmem),
      fun u head hmem => hright.head u head (List.mem_cons_of_mem _ hmem)⟩,
      hright.parent t c hown, hright.file t _ List.mem_cons_self, hright.content t c hown⟩
  · rintro ⟨hright, hparent, hfile, hcontent⟩
    refine ⟨fun u d hd => ?_, fun u d hd => ?_, fun u text hmem => ?_,
      fun u head hmem => hright.head u head (by simpa using hmem)⟩
    · rcases produced_logging.mp hd with ⟨rfl, rfl⟩ | ⟨-, hd⟩
      · exact hparent
      · exact hright.parent u d hd
    · rcases produced_logging.mp hd with ⟨rfl, rfl⟩ | ⟨-, hd⟩
      · exact hcontent
      · exact hright.content u d hd
    · rcases List.mem_cons.mp hmem with heq | hmem
      · obtain ⟨rfl, rfl⟩ := Event.committed.inj heq
        exact hfile
      · exact hright.file u text hmem

/-- A step that changes neither HEAD nor the trace. -/
theorem Desk.Invariant.silent {s : Shared ι} {l : WritePhase} (hinv : w.Invariant requests named)
    (h : Silent w.shared s (w.locals t) l) :
    Desk.Invariant requests named ⟨s, Function.update w.locals t l⟩ := by
  have hprod := produced_update h.produced
  have hhead : s.repo.head = w.shared.repo.head := by simp only [Repo.head, h.log]
  refine ⟨?_, fun u c hc => ?_, fun u v c hu hv => ?_, ?_, ?_, ?_, ?_, ?_⟩
  · simp only [h.log, h.trace, hhead]
    intro u hopen
    rcases of_update hopen with ⟨rfl, hown⟩ | ⟨-, hopen⟩
    · exact hinv.inWindow u (h.inWindow hown)
    · exact hinv.inWindow u hopen
  · simp only [h.log]
    exact hinv.produced u c ((hprod u).symm.trans hc)
  · exact hinv.distinct u v c ((hprod u).symm.trans hu) ((hprod v).symm.trans hv)
  · simp only [h.trace, h.file]
    exact hinv.file
  · simp only [h.trace, h.index]
    exact hinv.index
  · simp only [h.trace]
    intro u hu
    rcases of_update hu with ⟨rfl, hu⟩ | ⟨-, hu⟩
    · exact absurd hu (by simp [h.hasWritten])
    · exact hinv.hasWritten u hu
  · simp only [h.trace]
    intro u hu
    rcases of_update hu with ⟨rfl, hu⟩ | ⟨-, hu⟩
    · exact absurd hu (by simp [h.hasAdded])
    · exact hinv.hasAdded u hu
  · simp only [h.trace]
    exact hinv.serial.trans
      (right_congr hprod (fun _ _ => by simp only [h.trace]) fun _ _ => by simp only [h.trace])

/-- The check passes: the window opens, empty. -/
theorem Desk.Invariant.checked (hinv : w.Invariant requests named)
    (hhead : w.shared.repo.head = some (named t)) (hl : (w.locals t).produced = none) :
    Desk.Invariant requests named ⟨{ w.shared with trace := .checked t :: w.shared.trace },
      Function.update w.locals t .comparing⟩ := by
  have hprod := produced_update (l := .comparing) hl.symm
  refine ⟨?_, fun u c hc => ?_, fun u v c hu hv => ?_, ?_, ?_, ?_, ?_, ?_⟩
  · intro u hopen
    rcases of_update hopen with ⟨rfl, -⟩ | ⟨hne, hopen⟩
    · obtain ⟨c, hc, hhash⟩ := Option.map_eq_some_iff.mp hhead
      exact ⟨hhash ▸ List.mem_map_of_mem (List.mem_of_mem_head? hc),
        iff_of_true hhead (quiet_checked_self u _)⟩
    · rw [quiet_cons (by simp [hne.symm]) rfl]
      exact hinv.inWindow u hopen
  · exact hinv.produced u c ((hprod u).symm.trans hc)
  · exact hinv.distinct u v c ((hprod u).symm.trans hu) ((hprod v).symm.trans hv)
  · rw [written_cons]
    exact hinv.file
  · rw [staged_cons rfl]
    exact hinv.index
  · intro u hu
    rw [written_cons]
    rcases of_update hu with ⟨-, hu⟩ | ⟨-, hu⟩
    · cases hu
    · exact hinv.hasWritten u hu
  · intro u hu
    rw [staged_cons rfl]
    rcases of_update hu with ⟨-, hu⟩ | ⟨-, hu⟩
    · cases hu
    · exact hinv.hasAdded u hu
  · exact hinv.serial.trans (right_congr hprod (fun _ _ => by simp) fun _ _ => by simp)

/-- The file is written: what HEAD then is says whether the window is still quiet. -/
theorem Desk.Invariant.wrote (hinv : w.Invariant requests named) (hl : w.locals t = .writing) :
    Desk.Invariant requests named
      ⟨{ repo := w.shared.repo.writeFile (requests t).content
         trace := .wrote t w.shared.repo.head :: w.shared.trace },
        Function.update w.locals t .adding⟩ := by
  have hprod := produced_update (t := t) (l := .adding) (by rw [hl]; rfl)
  have hwindow := (hinv.inWindow t (by rw [hl]; rfl)).2
  refine ⟨?_, fun u c hc => ?_, fun u v c hu hv => ?_, ?_, ?_, ?_, ?_, ?_⟩
  · intro u hopen
    rw [quiet_cons (by simp) rfl]
    rcases of_update hopen with ⟨rfl, -⟩ | ⟨-, hopen⟩
    · exact hinv.inWindow u (by rw [hl]; rfl)
    · exact hinv.inWindow u hopen
  · exact hinv.produced u c ((hprod u).symm.trans hc)
  · exact hinv.distinct u v c ((hprod u).symm.trans hu) ((hprod v).symm.trans hv)
  · intro text htext
    rw [written_cons] at htext
    exact htext
  · rw [staged_cons rfl]
    exact hinv.index
  · intro u _ hnone
    rw [written_cons] at hnone
    cases hnone
  · intro u hu
    rw [staged_cons rfl]
    rcases of_update hu with ⟨-, hu⟩ | ⟨-, hu⟩
    · cases hu
    · exact hinv.hasAdded u hu
  · change (Serial requests w.shared.trace ∧ Quiet t w.shared.trace) ↔ _
    rw [← hwindow, hinv.serial]
    exact (right_wrote (by rw [hl]; rfl) _ _).symm

/-- `git add` puts the text of the file in the index. -/
theorem Desk.Invariant.added (hinv : w.Invariant requests named) (hl : w.locals t = .adding) :
    Desk.Invariant requests named
      ⟨{ repo := w.shared.repo.gitAdd, trace := .added t :: w.shared.trace },
        Function.update w.locals t .committing⟩ := by
  have hprod := produced_update (t := t) (l := .committing) (by rw [hl]; rfl)
  have hwritten := hinv.hasWritten t (by rw [hl]; rfl)
  refine ⟨?_, fun u c hc => ?_, fun u v c hu hv => ?_, ?_, ?_, ?_, ?_, ?_⟩
  · intro u hopen
    rw [quiet_cons (by simp) rfl]
    rcases of_update hopen with ⟨rfl, -⟩ | ⟨-, hopen⟩
    · exact hinv.inWindow u (by rw [hl]; rfl)
    · exact hinv.inWindow u hopen
  · exact hinv.produced u c ((hprod u).symm.trans hc)
  · exact hinv.distinct u v c ((hprod u).symm.trans hu) ((hprod v).symm.trans hv)
  · rw [written_cons]
    exact hinv.file
  · rw [staged_added]
    exact hinv.file
  · intro u _
    rw [written_cons]
    exact hwritten
  · intro u _
    rw [staged_added]
    exact hwritten
  · exact hinv.serial.trans (right_congr hprod (fun _ _ => by simp) fun _ _ => by simp)

/-- The commit lands: it has the text of the index, and every other window now has a commit
in it. -/
theorem Desk.Invariant.committed {c : Commit} (hinv : w.Invariant requests named)
    (hfresh : w.shared.repo.Fresh c.hash) (hl : w.locals t = .committing)
    (hparent : c.parent = w.shared.repo.head) (hcontent : c.content = w.shared.repo.index) :
    Desk.Invariant requests named
      ⟨⟨w.shared.repo.push c hfresh, .committed t w.shared.repo.file :: w.shared.trace⟩,
        Function.update w.locals t (.logging c)⟩ := by
  have hwindow := hinv.inWindow t (by rw [hl]; rfl)
  have hnone : (w.locals t).produced = none := by rw [hl]; rfl
  obtain ⟨file, hfile⟩ := Option.ne_none_iff_exists'.mp (hinv.hasWritten t (by rw [hl]; rfl))
  obtain ⟨index, hindex⟩ := Option.ne_none_iff_exists'.mp (hinv.hasAdded t (by rw [hl]; rfl))
  have hnew : ∀ u, (w.locals u).produced ≠ some c := by
    intro u hu
    obtain ⟨newer, older, hlog, -⟩ := hinv.produced u c hu
    refine hfresh ?_
    rw [hlog]
    exact List.mem_map_of_mem (by simp)
  refine ⟨?_, ?_, ?_, ?_, ?_, ?_, ?_, ?_⟩
  · intro u hopen
    rcases of_update hopen with ⟨-, hopen⟩ | ⟨-, hopen⟩
    · cases hopen
    have hold := hinv.inWindow u hopen
    refine ⟨List.mem_cons_of_mem _ hold.1, iff_of_false ?_ (not_quiet_committed u t _ _)⟩
    intro heq
    have hhash : c.hash = named u := Option.some.inj heq
    rw [Repo.Fresh, hhash] at hfresh
    exact hfresh hold.1
  · intro u d hd
    rcases produced_logging.mp hd with ⟨-, rfl⟩ | ⟨-, hd⟩
    · exact ⟨[], w.shared.repo.log, rfl, hparent⟩
    · obtain ⟨newer, older, hlog, hpar⟩ := hinv.produced u d hd
      exact ⟨c :: newer, older, by simp [hlog], hpar⟩
  · intro u v d hu hv
    rcases produced_logging.mp hu with ⟨rfl, rfl⟩ | ⟨-, hu'⟩
    · rcases produced_logging.mp hv with ⟨rfl, -⟩ | ⟨-, hv'⟩
      · rfl
      · exact (hnew v hv').elim
    · rcases produced_logging.mp hv with ⟨rfl, rfl⟩ | ⟨-, hv'⟩
      · exact (hnew u hu').elim
      · exact hinv.distinct u v d hu' hv'
  · rw [written_cons]
    exact hinv.file
  · rw [staged_cons rfl]
    exact hinv.index
  · intro u hu
    rw [written_cons]
    rcases of_update hu with ⟨-, hu⟩ | ⟨-, hu⟩
    · cases hu
    · exact hinv.hasWritten u hu
  · intro u hu
    rw [staged_cons rfl]
    rcases of_update hu with ⟨-, hu⟩ | ⟨-, hu⟩
    · cases hu
    · exact hinv.hasAdded u hu
  · change (Serial requests w.shared.trace ∧ Quiet t w.shared.trace ∧ _ ∧ _) ↔ _
    rw [← hwindow.2, hinv.serial, hfile, hindex, ← hinv.file file hfile,
      ← hinv.index index hindex, ← hparent, ← hcontent]
    exact (right_committed hnone _ _).symm

/-- Step lemma: every step of any write keeps the invariant. -/
theorem deskStep_invariant (hmatch : ∀ t, (requests t).expectedHead = some (named t))
    {w' : Desk ι} {label : ι × WriteAction} (hinv : w.Invariant requests named)
    (h : deskStep requests w label = some w') : w'.Invariant requests named := by
  obtain ⟨t, a⟩ := label
  obtain ⟨s, l, hact, rfl⟩ := Config.advance_eq_some.mp h
  generalize hl : w.locals t = before at hact
  cases writeStep_cases (hmatch t) hact with
  | silent hsilent => exact hinv.silent (hl ▸ hsilent)
  | checked hhead hprod => exact hinv.checked hhead (hl ▸ hprod)
  | wrote => exact hinv.wrote hl
  | added => exact hinv.added hl
  | committed hfresh hparent hcontent => exact hinv.committed hfresh hl hparent hcontent

end Step

/-- Run lemma. -/
theorem invariant_of_writes [DecidableEq ι] {requests : ι → WriteRequest} {named : ι → Hash}
    (hmatch : ∀ t, (requests t).expectedHead = some (named t)) {s : Repo}
    {labels : List (ι × WriteAction)} {w : Desk ι}
    (h : execute (deskStep requests) (desk s) labels = some w) : w.Invariant requests named :=
  invariant_run (fun _ _ _ hinv hstep => deskStep_invariant hmatch hinv hstep)
    (desk_invariant requests named s) h

/-! ## No lost update -/

/-- In a log without repeated hashes a hash has one place. -/
theorem log_split_unique {log : List Commit} (hnodup : (log.map (·.hash)).Nodup) :
    ∀ {newer newer' older older' : List Commit} {p p' : Commit},
      log = newer ++ p :: older → log = newer' ++ p' :: older' → p.hash = p'.hash →
        newer = newer' := by
  induction log with
  | nil =>
      intro newer newer' older older' p p' h
      simp at h
  | cons c log ih =>
      intro newer newer' older older' p p' h h' hhash
      obtain ⟨hc, hnodup'⟩ := List.nodup_cons.mp (List.map_cons ▸ hnodup)
      cases newer with
      | nil =>
          cases newer' with
          | nil => rfl
          | cons d newer' =>
              obtain ⟨rfl, rfl⟩ := List.cons.inj h
              obtain ⟨rfl, rfl⟩ := List.cons.inj h'
              exact (hc (hhash ▸ List.mem_map_of_mem (by simp))).elim
      | cons d newer =>
          cases newer' with
          | nil =>
              obtain ⟨rfl, rfl⟩ := List.cons.inj h'
              obtain ⟨rfl, rfl⟩ := List.cons.inj h
              exact (hc (hhash ▸ List.mem_map_of_mem (by simp))).elim
          | cons d' newer' =>
              obtain ⟨rfl, hrest⟩ := List.cons.inj h
              obtain ⟨rfl, hrest'⟩ := List.cons.inj h'
              rw [ih hnodup' hrest hrest' hhash]

/-- For any number of writes that name a commit, in every state of every
interleaving: no update is lost if and only if from each write's check of HEAD to its
write of the file and to its own commit no other commit landed, and what it committed was
last written, and last added, with its text. -/
theorem no_lost_update_iff_serial [DecidableEq ι] {requests : ι → WriteRequest}
    {named : ι → Hash} (hmatch : ∀ t, (requests t).expectedHead = some (named t)) {s : Repo}
    {labels : List (ι × WriteAction)} {w : Desk ι}
    (h : execute (deskStep requests) (desk s) labels = some w) :
    NoLostUpdate requests named w ↔ Serial requests w.shared.trace := by
  have hinv := invariant_of_writes hmatch h
  rw [hinv.serial]
  constructor
  · intro hsafe
    exact ⟨hsafe.parent, hsafe.content, hsafe.file, hsafe.head⟩
  · intro hright
    have honTop : ∀ t c, (w.locals t).produced = some c →
        ∃ newer older, w.shared.repo.log = newer ++ c :: older ∧
          older.head?.map (·.hash) = some (named t) := by
      intro t c hc
      obtain ⟨newer, older, hlog, hpar⟩ := hinv.produced t c hc
      exact ⟨newer, older, hlog, hpar ▸ hright.parent t c hc⟩
    refine ⟨hright.parent, hright.content, ?_, honTop, hright.file, hright.head⟩
    intro t u c c' hc hc' hsame
    obtain ⟨newer, older, hlog, hhead⟩ := honTop t c hc
    obtain ⟨newer', older', hlog', hhead'⟩ := honTop u c' hc'
    obtain ⟨p, hp, hhash⟩ := Option.map_eq_some_iff.mp hhead
    obtain ⟨p', hp', hhash'⟩ := Option.map_eq_some_iff.mp hhead'
    obtain ⟨older, rfl⟩ := List.head?_eq_some_iff.mp hp
    obtain ⟨older', rfl⟩ := List.head?_eq_some_iff.mp hp'
    -- both are the commit right above the one they name
    have hsplit : w.shared.repo.log = (newer ++ [c]) ++ p :: older := by simpa using hlog
    have hsplit' : w.shared.repo.log = (newer' ++ [c']) ++ p' :: older' := by simpa using hlog'
    have hbelow : newer ++ [c] = newer' ++ [c'] := by
      refine log_split_unique w.shared.repo.distinct hsplit hsplit' ?_
      rw [hhash, hhash', hsame]
    have hcc : c = c' := by
      have hlast := congrArg List.getLast? hbelow
      simpa using hlast
    subst hcc
    exact hinv.distinct t u c hc hc'

/-- Two operators; each writes something else. -/
def twoWrites (named : Bool → Hash) (t : Bool) : WriteRequest :=
  { content := if t then "two\n" else "three\n"
    message := "network: set gateway_addr on node1"
    author := if t then "bob" else "alice"
    expectedHead := some (named t) }

/-- The operations of one write after `n` of them, the new commit being `hash`. -/
def operations (t : Bool) (n : Nat) (hash : Hash) : List (Bool × WriteAction) :=
  List.replicate n (t, .proceed hash)

theorem no_lost_update_iff_serial_in_turn :
    ∃ w : Desk Bool,
      execute (deskStep (twoWrites fun t => if t then "c1" else "c0")) (desk oneCommit)
        (operations false 7 "c1" ++ operations true 7 "c2") = some w ∧
      w.shared.repo.head = some "c2" ∧
      NoLostUpdate (twoWrites fun t => if t then "c1" else "c0")
        (fun t => if t then "c1" else "c0") w := by
  have h : execute (deskStep (twoWrites fun t => if t then "c1" else "c0")) (desk oneCommit)
      (operations false 7 "c1" ++ operations true 7 "c2") = some _ := rfl
  refine ⟨_, h, rfl, (no_lost_update_iff_serial (fun _ => rfl) h).mpr ?_⟩
  exact ⟨⟨⟨⟨trivial, by unfold Quiet; decide⟩, by unfold Quiet; decide, rfl, rfl⟩,
    by unfold Quiet; decide⟩, by unfold Quiet; decide, rfl, rfl⟩

/-- Two writes that name the same commit can both produce one, the second on top of
the first; and one can commit the text of the other. -/
theorem update_can_be_lost :
    (¬ ∀ (labels : List (Bool × WriteAction)) (w : Desk Bool),
      execute (deskStep (twoWrites fun _ => "c0")) (desk oneCommit) labels = some w →
        ∀ t c, (w.locals t).produced = some c → c.parent = some "c0") ∧
    ¬ ∀ (labels : List (Bool × WriteAction)) (w : Desk Bool),
      execute (deskStep (twoWrites fun _ => "c0")) (desk oneCommit) labels = some w →
        ∀ t c, (w.locals t).produced = some c →
          c.content = some (twoWrites (fun _ => "c0") t).content := by
  constructor
  · intro hclaim
    have h : execute (deskStep (twoWrites fun _ => "c0")) (desk oneCommit)
        (operations false 2 "c1" ++ operations true 2 "c2" ++ operations false 5 "c1" ++
          operations true 5 "c2") = some _ := rfl
    have hparent := hclaim _ _ h true _ rfl
    exact absurd (Option.some.inj hparent) (by decide)
  · intro hclaim
    have h : execute (deskStep (twoWrites fun _ => "c0")) (desk oneCommit)
        (operations false 4 "c1" ++ operations true 4 "c2" ++ operations false 3 "c1") =
          some _ := rfl
    have hcontent := hclaim _ _ h false _ rfl
    exact absurd (Option.some.inj hcontent) (by decide)

end SeapathWebui.Inventory
