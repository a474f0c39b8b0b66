/-
  Inventory/CommandLines.lean --- the command lines of the inventory repository that
  hold text of a request.

  Sources: app/inventory/repository.py (`diff`, `revert`, `_git`, `_run`),
  app/api/v1/inventory.py (`diff`, `revert`).

  The query parameters of `GET /inventory/diff` and the path parameter of
  `POST /inventory/revert/{commit}` reach git as elements of its command line,
  unchanged.  git reads a command line up to `--` and takes an element that begins
  with `-` for an option.  What git writes for a command line is a parameter; of it
  only the documented behaviour of `git diff` is used.
-/
import SeapathWebui.Inventory.Repository

set_option autoImplicit false

namespace SeapathWebui.Inventory

/-- `INVENTORY_FILENAME` -/
def inventoryFilename : String := "inventory.yaml"

/-- An element of a command line. -/
inductive Word
  /-- The source's own text. -/
  | fixed (text : String)
  /-- Text that is, or holds, what the request brings. -/
  | supplied (text : String)
  deriving DecidableEq, Repr

def Word.text : Word → String
  | fixed text => text
  | supplied text => text

/-- git takes an element that begins with `-` for an option. -/
def IsOption (text : String) : Prop := text.toList.head? = some '-'

instance (text : String) : Decidable (IsOption text) := inferInstanceAs (Decidable (_ = _))

/-! ## The requests and their command lines -/

/-- A request whose text reaches git's command line as a revision. -/
inductive RevisionRequest
  /-- `GET /inventory/diff?from=..&to=..` -/
  | diff (fromRef toRef : Option String)
  /-- `POST /inventory/revert/{commit}` by the user `author`. -/
  | revert (commit author : String)
  deriving DecidableEq, Repr

/-- A parameter that is present and not empty. -/
def given (ref : Option String) : Option String := ref.filter (· ≠ "")

/-- `InventoryRepository.diff`: what it hands to `_run`. -/
def diffArgv (fromRef toRef : Option String) : List Word :=
  match given fromRef, given toRef with
  | some f, some t =>
      [.fixed "git", .fixed "diff", .supplied f, .supplied t, .fixed "--",
        .fixed inventoryFilename]
  | some f, none =>
      [.fixed "git", .fixed "diff", .supplied f, .fixed "--", .fixed inventoryFilename]
  | none, _ => [.fixed "git", .fixed "diff", .fixed "HEAD", .fixed "--", .fixed inventoryFilename]

/-- `InventoryRepository.revert`: what it hands to `_run`. -/
def revertArgv (commit author : String) : List Word :=
  [.fixed "git", .fixed "-c", .supplied ("user.name=" ++ author), .fixed "-c",
    .supplied ("user.email=" ++ author ++ "@" ++ committerName), .fixed "revert",
    .fixed "--no-edit", .supplied commit]

def RevisionRequest.argv : RevisionRequest → List Word
  | diff fromRef toRef => diffArgv fromRef toRef
  | revert commit author => revertArgv commit author

/-- `subprocess.run`: the command line it starts; `none` is the `ValueError` of an
element with a NUL in it. -/
def spawn (argv : List Word) : Option (List String) :=
  if ∀ w ∈ argv, '\x00' ∉ w.text.toList then some (argv.map Word.text) else none

/-- The elements before the `--` the source writes. -/
def beforeSeparator (argv : List Word) : List Word := argv.takeWhile (· ≠ .fixed "--")

/-! ## What a request must not do -/

/-- What git does to the files of the machine. -/
structure Git where
  /-- The files outside git's own directory that a command line makes it write. -/
  writes : List String → List String

/-- `git diff` of revisions, without an option, writes no file. -/
def Git.DiffReads (git : Git) : Prop :=
  ∀ revisions path, (∀ r ∈ revisions, ¬ IsOption r) →
    git.writes ("git" :: "diff" :: revisions ++ ["--", path]) = []

/-- No element the request brings can be taken for an option, and a request that
reads writes nothing. -/
def RevisionRequest.Harmless (git : Git) (q : RevisionRequest) : Prop :=
  ∀ argv, spawn q.argv = some argv →
    (∀ text, .supplied text ∈ beforeSeparator q.argv → ¬ IsOption text) ∧
      (∀ fromRef toRef, q = .diff fromRef toRef → git.writes argv = [])

/-! ## When it does not -/

/-- The revisions `diff` compares: `from`, and `to` where both are given. -/
def diffRevisions (fromRef toRef : Option String) : List String :=
  match given fromRef, given toRef with
  | some f, some t => [f, t]
  | some f, none => [f]
  | none, _ => []

/-- The revisions a request names. -/
def RevisionRequest.revisions : RevisionRequest → List String
  | diff fromRef toRef => diffRevisions fromRef toRef
  | revert commit _ => [commit]

/-- The texts of a request that reach the command line. -/
def RevisionRequest.texts : RevisionRequest → List String
  | diff fromRef toRef => diffRevisions fromRef toRef
  | revert commit author => [author, commit]

/-- No text of the request has a NUL in it. -/
def RevisionRequest.Passable (q : RevisionRequest) : Prop :=
  ∀ text ∈ q.texts, '\x00' ∉ text.toList

/-- No revision of the request begins with `-`. -/
def RevisionRequest.Plain (q : RevisionRequest) : Prop :=
  ∀ r ∈ q.revisions, ¬ IsOption r

theorem IsOption.append {a : String} (b : String) (h : a ≠ "") :
    IsOption (a ++ b) ↔ IsOption a := by
  have hne : a.toList ≠ [] := by simpa using h
  rw [IsOption, IsOption, String.toList_append, List.head?_append_of_ne_nil _ hne]

/-- The author is never taken for an option: it stands behind a setting's name. -/
theorem not_isOption_author (author : String) :
    ¬ IsOption ("user.name=" ++ author) ∧
      ¬ IsOption ("user.email=" ++ author ++ "@" ++ committerName) := by
  constructor
  · rw [IsOption.append _ (by decide)]
    decide
  · rw [String.append_assoc, String.append_assoc, IsOption.append _ (by decide)]
    decide

/-- What `diff` hands over: its revisions, or `HEAD`, between the command and the
separator. -/
theorem diffArgv_texts (fromRef toRef : Option String) :
    ∃ revisions, (∀ r ∈ revisions, r = "HEAD" ∨ r ∈ diffRevisions fromRef toRef) ∧
      (diffArgv fromRef toRef).map Word.text =
        "git" :: "diff" :: revisions ++ ["--", inventoryFilename] := by
  rcases hf : given fromRef with _ | f
  · exact ⟨["HEAD"], by simp, by simp [diffArgv, hf, Word.text]⟩
  · rcases ht : given toRef with _ | t
    · exact ⟨[f], by simp [diffRevisions, hf, ht], by simp [diffArgv, hf, ht, Word.text]⟩
    · exact ⟨[f, t], by simp [diffRevisions, hf, ht], by simp [diffArgv, hf, ht, Word.text]⟩

/-- The elements a request brings before the separator are its revisions, and for a
revert the two with the author. -/
theorem supplied_beforeSeparator (q : RevisionRequest) :
    (∀ text, .supplied text ∈ beforeSeparator q.argv → ¬ IsOption text) ↔ q.Plain := by
  cases q with
  | diff fromRef toRef =>
      simp only [RevisionRequest.Plain, RevisionRequest.revisions, RevisionRequest.argv,
        diffArgv, diffRevisions]
      cases given fromRef <;> cases given toRef <;> simp [beforeSeparator]
  | revert commit author =>
      obtain ⟨hname, hemail⟩ := not_isOption_author author
      simp [RevisionRequest.Plain, RevisionRequest.revisions, RevisionRequest.argv, revertArgv,
        beforeSeparator, hname, hemail]

theorem spawn_isSome_iff (argv : List Word) :
    (spawn argv).isSome ↔ ∀ w ∈ argv, '\x00' ∉ w.text.toList := by
  unfold spawn
  split
  · exact iff_of_true rfl ‹_›
  · exact iff_of_false Bool.false_ne_true ‹_›

/-- git is started exactly for the requests without a NUL. -/
theorem spawn_argv_isSome_iff (q : RevisionRequest) : (spawn q.argv).isSome ↔ q.Passable := by
  have hfixed : ∀ text ∈ ["git", "diff", "HEAD", "--", inventoryFilename, "-c", "user.name=",
      "user.email=", "@", committerName, "revert", "--no-edit"], '\x00' ∉ text.toList := by
    decide
  rw [spawn_isSome_iff]
  cases q with
  | diff fromRef toRef =>
      simp only [RevisionRequest.Passable, RevisionRequest.texts, RevisionRequest.argv,
        diffArgv, diffRevisions]
      cases given fromRef <;> cases given toRef <;> simp_all [Word.text]
  | revert commit author =>
      simp_all [RevisionRequest.Passable, RevisionRequest.texts, RevisionRequest.argv,
        revertArgv, Word.text]

/-- A reading request without an option among its revisions writes nothing. -/
theorem writes_of_plain {git : Git} (hgit : git.DiffReads) {fromRef toRef : Option String}
    (hplain : (RevisionRequest.diff fromRef toRef).Plain) :
    git.writes ((diffArgv fromRef toRef).map Word.text) = [] := by
  obtain ⟨revisions, hrevisions, htexts⟩ := diffArgv_texts fromRef toRef
  rw [htexts]
  apply hgit
  intro r hr
  rcases hrevisions r hr with rfl | hmem
  · decide
  · exact hplain r hmem

/-- **A request's text is taken as revisions only, and a reading request writes
nothing, exactly if none of its revisions begins with `-`** (or a NUL keeps git from
being started at all). -/
theorem request_harmless_iff (git : Git) (hgit : git.DiffReads) (q : RevisionRequest) :
    q.Harmless git ↔ (q.Passable → q.Plain) := by
  constructor
  · intro h hpassable
    obtain ⟨argv, hargv⟩ := Option.isSome_iff_exists.mp ((spawn_argv_isSome_iff q).mpr hpassable)
    exact (supplied_beforeSeparator q).mp (h argv hargv).1
  · intro h argv hargv
    have hplain : q.Plain := h ((spawn_argv_isSome_iff q).mp (by rw [hargv]; rfl))
    refine ⟨(supplied_beforeSeparator q).mpr hplain, ?_⟩
    rintro fromRef toRef rfl
    have htexts : argv = (diffArgv fromRef toRef).map Word.text := by
      unfold spawn at hargv
      split at hargv
      · exact (Option.some.inj hargv).symm
      · cases hargv
    rw [htexts]
    exact writes_of_plain hgit hplain

/-! ### A request that writes a file -/

/-- git, as far as `git diff --output=<file>` goes. -/
def gitWithOutput : Git where
  writes
    | "git" :: "diff" :: arguments =>
        (arguments.takeWhile (· ≠ "--")).filterMap fun argument =>
          if "--output=".toList.isPrefixOf argument.toList then
            some (String.ofList (argument.toList.drop 9))
          else none
    | _ => []

theorem mem_of_mem_takeWhile_separator {a : String} {revisions rest : List String}
    (h : a ∈ (revisions ++ "--" :: rest).takeWhile (· ≠ "--")) : a ∈ revisions := by
  induction revisions with
  | nil => simp at h
  | cons r more ih =>
      rw [List.cons_append, List.takeWhile_cons] at h
      split at h
      · rcases List.mem_cons.mp h with rfl | hmore
        · exact List.mem_cons_self
        · exact List.mem_cons_of_mem _ (ih hmore)
      · cases h

theorem gitWithOutput_diffReads : gitWithOutput.DiffReads := by
  intro revisions path hplain
  refine List.filterMap_eq_nil_iff.mpr fun argument hargument => if_neg fun hprefix => ?_
  apply hplain argument (mem_of_mem_takeWhile_separator hargument)
  obtain ⟨file, hfile⟩ := List.isPrefixOf_iff_prefix.mp hprefix
  rw [IsOption, ← hfile]
  rfl

theorem request_harmless_iff_twoCommits :
    ((RevisionRequest.diff (some "main~1") (some "main")).Harmless gitWithOutput ↔
      ((RevisionRequest.diff (some "main~1") (some "main")).Passable →
        (RevisionRequest.diff (some "main~1") (some "main")).Plain)) ∧
      (RevisionRequest.diff (some "main~1") (some "main")).Plain :=
  ⟨request_harmless_iff gitWithOutput gitWithOutput_diffReads _, by
    unfold RevisionRequest.Plain
    decide⟩

/-- `GET /inventory/diff?from=--output=/etc/motd` writes `/etc/motd`. -/
theorem diff_can_write :
    ¬ (RevisionRequest.diff (some "--output=/etc/motd") none).Harmless gitWithOutput ∧
      (spawn (diffArgv (some "--output=/etc/motd") none)).map gitWithOutput.writes =
        some ["/etc/motd"] := by
  refine ⟨fun h => ?_, by decide⟩
  have hnone := (h ["git", "diff", "--output=/etc/motd", "--", inventoryFilename] (by decide)).1
  exact hnone "--output=/etc/motd" (by decide) (by decide)

end SeapathWebui.Inventory
