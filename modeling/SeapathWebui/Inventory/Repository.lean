/-
  Inventory/Repository.lean --- the inventory repository.

  Source: app/inventory/repository.py.

  The state is what the working directory and git hold: the working file, the
  staged content, and the commits reachable from HEAD.  A file holds text, with the
  line ends it has on disk; `read` gives newlines for all of them, as reading a file
  as text does, and git compares and commits what is on disk.  Each definition of the
  first section is one file operation or one git command, atomic.  `commit` and
  `revert` are sequences of them; any of the commands may fail, which the `Faults`
  of a call say.  What git answers beyond that (the hash of a new commit, what a
  revert merges to) is a parameter.

  Inventory/Concurrent.lean takes the same operations one at a time.
-/
import SeapathWebui.Foundation.Text

set_option autoImplicit false

namespace SeapathWebui.Inventory

open SeapathWebui.Foundation

/-- A commit hash. -/
abbrev Hash : Type := String

/-- A commit: what `history` answers about it, its parent and its tree. -/
structure Commit where
  hash : Hash
  parent : Option Hash
  /-- `inventory.yaml` in its tree. -/
  content : Option String
  author : String
  email : String
  message : String
  deriving DecidableEq, Repr

/-- The repository and its working directory. -/
structure Repo where
  /-- `.git` exists. -/
  initialised : Bool := false
  /-- `inventory.yaml` in the working directory. -/
  file : Option String := none
  /-- `inventory.yaml` in the index. -/
  index : Option String := none
  /-- What `git log` lists, newest first. -/
  log : List Commit := []
  /-- A hash names one commit. -/
  distinct : (log.map (·.hash)).Nodup := by simp

/-- `_COMMITTER_NAME` -/
def committerName : String := "seapath-webui"

/-- The exceptions of `commit` and `revert`. -/
inductive RepoError
  /-- `RepositoryError`: a git command exited with another code than 0. -/
  | git
  /-- `StaleWrite`, with its message. -/
  | staleWrite (message : String)
  /-- `history(limit=1)[0]`: the list is empty, or its line cannot be taken apart. -/
  | noHistory
  deriving DecidableEq, Repr

namespace Repo

/-! ## Git commands and file operations -/

/-- `git init` -/
def gitInit (s : Repo) : Repo := { s with initialised := true }

/-- `git rev-parse HEAD` -/
def head (s : Repo) : Option Hash := s.log.head?.map (·.hash)

/-- `inventory.yaml` at HEAD. -/
def headContent (s : Repo) : Option String := s.log.head?.bind (·.content)

/-- `InventoryRepository.read` -/
def read (s : Repo) : String := Text.universalNewlines (s.file.getD "")

/-- The test of `commit`: the file is there and `read_text()` is the content. -/
def reads (s : Repo) (content : String) : Prop :=
  s.file.map Text.universalNewlines = some content

instance (s : Repo) (content : String) : Decidable (s.reads content) :=
  inferInstanceAs (Decidable (_ = _))

/-- `inventory.yaml` in the tree of a commit. -/
def contentAt (s : Repo) (commit : Hash) : Option String :=
  (s.log.find? (·.hash == commit)).bind (·.content)

/-- `inventory_file.write_text(content)` -/
def writeFile (s : Repo) (content : String) : Repo := { s with file := some content }

/-- `git add inventory.yaml` -/
def gitAdd (s : Repo) : Repo := { s with index := s.file }

/-- A hash git can give to the next commit. -/
def Fresh (s : Repo) (hash : Hash) : Prop := hash ∉ s.log.map (·.hash)

instance (s : Repo) (hash : Hash) : Decidable (s.Fresh hash) :=
  inferInstanceAs (Decidable (_ ∉ _))

/-- HEAD moves to a new commit. -/
def push (s : Repo) (c : Commit) (h : s.Fresh c.hash) : Repo :=
  { s with log := c :: s.log, distinct := List.nodup_cons.mpr ⟨h, s.distinct⟩ }

/-- The commit on top of HEAD with `content` in its tree. -/
def newCommit (s : Repo) (hash : Hash) (content : Option String) (author message : String) :
    Commit :=
  { hash := hash
    parent := s.head
    content := content
    author := author
    email := author ++ "@" ++ committerName
    message := message }

/-- `git commit`; `none` where it fails because there is nothing to commit. -/
def gitCommit (s : Repo) (hash : Hash) (author message : String) : Option Repo :=
  if h : s.index ≠ s.headContent ∧ s.Fresh hash then
    some (s.push (s.newCommit hash s.index author message) h.2)
  else none

/-- `git log --max-count=limit`, which `history` answers with; `[]` where it fails. -/
def history (s : Repo) (limit : Nat) (fails : Bool) : List Commit :=
  if fails then [] else s.log.take limit

/-- A clean working directory, in git's sense: nothing staged, nothing modified. -/
def clean (s : Repo) : Bool := s.index = s.headContent && s.file = s.headContent

/-! ### Small facts -/

@[simp] theorem head_gitInit (s : Repo) : s.gitInit.head = s.head := rfl
@[simp] theorem read_gitInit (s : Repo) : s.gitInit.read = s.read := rfl
@[simp] theorem head_writeFile (s : Repo) (c : String) : (s.writeFile c).head = s.head := rfl
@[simp] theorem head_gitAdd (s : Repo) : s.gitAdd.head = s.head := rfl
@[simp] theorem read_gitAdd (s : Repo) : s.gitAdd.read = s.read := rfl
@[simp] theorem log_gitAdd (s : Repo) : s.gitAdd.log = s.log := rfl

@[simp] theorem log_push (s : Repo) (c : Commit) (h : s.Fresh c.hash) :
    (s.push c h).log = c :: s.log := rfl
@[simp] theorem head_push (s : Repo) (c : Commit) (h : s.Fresh c.hash) :
    (s.push c h).head = some c.hash := rfl
@[simp] theorem headContent_push (s : Repo) (c : Commit) (h : s.Fresh c.hash) :
    (s.push c h).headContent = c.content := rfl

theorem gitCommit_eq_some {s t : Repo} {hash : Hash} {author message : String} :
    s.gitCommit hash author message = some t ↔
      s.index ≠ s.headContent ∧ ∃ h : s.Fresh hash,
        t = s.push (s.newCommit hash s.index author message) h := by
  unfold gitCommit
  split
  · rename_i h
    simp [h.1, h.2, eq_comm]
  · rename_i h
    simp only [reduceCtorEq, false_iff, not_and]
    rintro hne ⟨hfresh, -⟩
    exact h ⟨hne, hfresh⟩

/-- A fresh hash is not the one HEAD has. -/
theorem head_ne_of_fresh {s : Repo} {hash : Hash} (h : s.Fresh hash) :
    s.head ≠ some hash := by
  intro hhead
  obtain ⟨c, hc, hhash⟩ := Option.map_eq_some_iff.mp hhead
  exact h (hhash ▸ List.mem_map_of_mem (List.mem_of_mem_head? hc))

/-- The tree of a commit in the log, found by its hash. -/
theorem contentAt_of_mem {s : Repo} {c : Commit} (h : c ∈ s.log) :
    s.contentAt c.hash = c.content := by
  obtain ⟨newer, older, hlog⟩ := List.append_of_mem h
  have hdistinct := s.distinct
  rw [hlog, List.map_append, List.nodup_append] at hdistinct
  have hnone : newer.find? (·.hash == c.hash) = none := by
    refine List.find?_eq_none.mpr fun d hd heq => ?_
    exact hdistinct.2.2 _ (List.mem_map_of_mem hd) _ List.mem_cons_self (beq_iff_eq.mp heq)
  simp [contentAt, hlog, List.find?_append, hnone]

end Repo

/-! ## `commit` -/

/-- Which of the commands of a call fail.  For `log` that is the command, or the
reading of the line it prints. -/
structure Faults where
  init : Bool := false
  revParse : Bool := false
  add : Bool := false
  commit : Bool := false
  log : Bool := false
  deriving DecidableEq, Repr

/-- The arguments of `commit`. -/
structure WriteRequest where
  content : String
  message : String
  author : String
  expectedHead : Option Hash := none
  deriving DecidableEq, Repr

/-- The message of `StaleWrite`. -/
def staleMessage (current : Option Hash) (expected : Hash) : String :=
  "The inventory changed since you read it. It is now at " ++ current.getD "no commit" ++
    ", you sent " ++ expected ++ "."

/-- The comparison `commit` starts with: the `StaleWrite` it raises, if any. -/
def staleCheck (current expectedHead : Option Hash) : Option RepoError :=
  match expectedHead with
  | none => none
  | some expected =>
      if current = some expected then none else some (.staleWrite (staleMessage current expected))

/-- `initialise` -/
def initialise (s : Repo) (fails : Bool) : Except RepoError Repo :=
  if s.initialised then .ok s
  else if fails then .error .git
  else .ok s.gitInit

/-- `InventoryRepository.commit` from the write of the file on. -/
def writeAndCommit (s : Repo) (q : WriteRequest) (hash : Hash) (f : Faults) :
    Repo × Except RepoError (Option Commit) :=
  let s := s.writeFile q.content
  if f.add then (s, .error .git)
  else
    let s := s.gitAdd
    if f.commit then (s, .error .git)
    else
      match s.gitCommit hash q.author q.message with
      | none => (s, .error .git)
      | some s =>
          match s.history 1 f.log with
          | [] => (s, .error .noHistory)
          | c :: _ => (s, .ok (some c))

/-- `InventoryRepository.commit`; `.ok none` where nothing changed.  `hash` is the
one a commit gets if one is made. -/
def commit (s : Repo) (q : WriteRequest) (hash : Hash) (f : Faults) :
    Repo × Except RepoError (Option Commit) :=
  match initialise s f.init with
  | .error e => (s, .error e)
  | .ok s =>
      let current := if f.revParse then none else s.head
      match staleCheck current q.expectedHead with
      | some e => (s, .error e)
      | none =>
          if s.reads q.content then (s, .ok none)
          else writeAndCommit s q hash f

/-! ## `revert` -/

/-- What `git revert` does to a clean working directory. -/
inductive RevertOutcome
  /-- It exits non-zero without touching anything. -/
  | refused
  /-- It exits non-zero with conflict markers in the working file. -/
  | conflict (markers : String)
  /-- It commits `content`. -/
  | reverted (hash : Hash) (content : Option String) (message : String)
  deriving DecidableEq, Repr

/-- `git revert --no-edit`; git refuses where the index or the file differ from
HEAD. -/
def gitRevert (s : Repo) (author : String) (outcome : RevertOutcome) : Repo × Bool :=
  if s.initialised && s.clean then
    match outcome with
    | .refused => (s, false)
    -- nothing is staged until the next `git add`
    | .conflict markers => ({ s with file := some markers, index := none }, false)
    | .reverted hash content message =>
        if h : s.Fresh hash then
          ({ s.push (s.newCommit hash content author message) h with
            file := content, index := content }, true)
        else (s, false)
  else (s, false)

/-- `InventoryRepository.revert` -/
def revert (s : Repo) (author : String) (outcome : RevertOutcome) (logFails : Bool) :
    Repo × Except RepoError Commit :=
  match gitRevert s author outcome with
  | (s, false) => (s, .error .git)
  | (s, true) =>
      match s.history 1 logFails with
      | [] => (s, .error .noHistory)
      | c :: _ => (s, .ok c)

/-! ### What a call establishes -/

theorem initialise_ok {s t : Repo} {fails : Bool} (h : initialise s fails = .ok t) :
    t.log = s.log ∧ t.file = s.file ∧ t.index = s.index ∧ t.initialised = true := by
  unfold initialise at h
  split at h
  · rename_i hinit
    obtain rfl := Except.ok.inj h
    exact ⟨rfl, rfl, rfl, hinit⟩
  · split at h
    · cases h
    · obtain rfl := Except.ok.inj h
      exact ⟨rfl, rfl, rfl, rfl⟩

theorem initialise_of_not_fails (s : Repo) : initialise s false = .ok s.gitInit := by
  unfold initialise
  split
  · rename_i h
    obtain ⟨init, file, index, log, distinct⟩ := s
    obtain rfl : init = true := h
    rfl
  · rfl

theorem staleCheck_eq_none {current expectedHead : Option Hash} :
    staleCheck current expectedHead = none ↔
      ∀ expected, expectedHead = some expected → current = some expected := by
  unfold staleCheck
  cases expectedHead with
  | none => simp
  | some expected =>
      split
      · rename_i h
        simp [h]
      · rename_i h
        simp [h]

/-- A repository with one commit, checked out. -/
def oneCommit : Repo :=
  { initialised := true
    file := some "one\n"
    index := some "one\n"
    log := [{ hash := "c0", parent := none, content := some "one\n", author := "alice",
              email := "alice@seapath-webui", message := "first" }]
    distinct := by decide }

end SeapathWebui.Inventory
