/-
  Trust/AuthorizedKeys.lean --- editing an `authorized_keys` file that belongs to
  someone else.

  Source: app/trust/authorized_keys.py.

  An edit reads the file as lines, keeps some of them and writes the file again if
  they are not what it read; `install` and `remove` give the text they write, `none`
  where they leave the file alone (and return `False`).  A line is the service's own if
  its last field begins with the service's prefix.  Every other line is foreign, and
  `foreign_lines_kept` says that no edit touches one.

  A file that is not there reads as one without a line.
-/
import SeapathWebui.Foundation.Lines

set_option autoImplicit false

namespace SeapathWebui.Trust

open SeapathWebui.Foundation SeapathWebui.Foundation.Text

/-- `COMMENT_PREFIX` -/
def commentPrefix : String := "seapath-webui:"

/-- `AuthorizedKey` -/
structure AuthorizedKey where
  comment : String
  publicKey : String
  fromAddresses : List String := []
  deriving DecidableEq, Repr

/-- What `render` writes before the key. -/
def AuthorizedKey.options (key : AuthorizedKey) : String :=
  ",".intercalate
    ((if key.fromAddresses ≠ [] then ["from=\"" ++ ",".intercalate key.fromAddresses ++ "\""]
      else []) ++ ["restrict"])

/-- `AuthorizedKey.render` -/
def AuthorizedKey.render (key : AuthorizedKey) : String :=
  key.options ++ " " ++ key.publicKey ++ " " ++ key.comment

/-- `_comment_of` -/
def commentOf (line : String) : Option String :=
  let stripped := strip line
  if stripped = "" ∨ stripped.toList.head? = some '#' then none
  else (fields stripped).getLast?.filter fun candidate =>
    commentPrefix.toList.isPrefixOf candidate.toList

/-- `_key_blob_of` -/
def keyBlobOf (line : String) : Option String :=
  match (fields (strip line)).reverse with
  | _ :: blob :: kind :: _ :: _ => some (kind ++ " " ++ blob)
  | _ => none

/-- `_read`, of the text of the file. -/
def readLines (text : String) : List String := splitlines (universalNewlines text)

/-- The lines `install` keeps. -/
def keptLines (key : AuthorizedKey) (lines : List String) : List String :=
  lines.filter fun line =>
    match commentOf line with
    -- not ours
    | none => true
    | some comment => comment ≠ key.comment ∧ keyBlobOf line ≠ some key.publicKey

/-- How both edits end: an unchanged file is not written. -/
def rewrite (text : String) (lines : List String) : Option String :=
  if lines = readLines text then none else some (joinLines lines)

/-- `install` -/
def install (text : String) (key : AuthorizedKey) : Option String :=
  rewrite text (keptLines key (readLines text) ++ [key.render])

/-- `remove` -/
def remove (text comment : String) : Option String :=
  rewrite text ((readLines text).filter fun line => commentOf line ≠ some comment)

/-! ## What an edit leaves in the file -/

theorem oneLine_of_mem_readLines {text line : String} (h : line ∈ readLines text) :
    OneLine line := oneLine_of_mem_splitlines h

/-- What is written is read back. -/
theorem readLines_joinLines {lines : List String} (h : ∀ line ∈ lines, OneLine line) :
    readLines (joinLines lines) = lines := by
  rw [readLines, universalNewlines_eq_self_iff.mpr (newlinesOnly_joinLines h),
    splitlines_joinLines h]

/-- After an edit the file has the lines it was rewritten with. -/
theorem readLines_rewrite {text : String} {lines : List String}
    (h : ∀ line ∈ lines, OneLine line) :
    readLines ((rewrite text lines).getD text) = lines := by
  unfold rewrite
  split
  · rename_i hsame
    exact hsame.symm
  · exact readLines_joinLines h

theorem readLines_remove (text comment : String) :
    readLines ((remove text comment).getD text) =
      (readLines text).filter fun line => commentOf line ≠ some comment := by
  refine readLines_rewrite fun line hline => ?_
  exact oneLine_of_mem_readLines (List.mem_filter.mp hline).1

theorem readLines_install {text : String} {key : AuthorizedKey} (h : OneLine key.render) :
    readLines ((install text key).getD text) =
      keptLines key (readLines text) ++ [key.render] := by
  refine readLines_rewrite fun line hline => ?_
  rcases List.mem_append.mp hline with hkept | hnew
  · exact oneLine_of_mem_readLines (List.mem_filter.mp hkept).1
  · exact List.mem_singleton.mp hnew ▸ h

/-! ## The line of a key -/

/-- A key as the service installs one: its comment begins with the prefix; comment and
addresses have no white space, and the public key none but blanks between its fields. -/
structure AuthorizedKey.Plain (key : AuthorizedKey) : Prop where
  ours : commentPrefix.toList <+: key.comment.toList
  comment : NoSpace key.comment
  publicKey : OnlyBlanks key.publicKey
  addresses : ∀ address ∈ key.fromAddresses, NoSpace address

theorem noSpace_options {key : AuthorizedKey} (h : ∀ a ∈ key.fromAddresses, NoSpace a) :
    NoSpace key.options := by
  have hcomma : NoSpace "," := by decide
  refine noSpace_intercalate hcomma fun option hoption => ?_
  rcases List.mem_append.mp hoption with hfrom | hrestrict
  · split at hfrom
    · rw [List.mem_singleton.mp hfrom]
      exact noSpace_append.mpr ⟨noSpace_append.mpr ⟨by decide, noSpace_intercalate hcomma h⟩,
        by decide⟩
    · cases hfrom
  · rw [List.mem_singleton.mp hrestrict]
    decide

/-- The line begins with an option: `from` or `restrict`. -/
theorem head_options (key : AuthorizedKey) :
    ∃ c, key.options.toList.head? = some c ∧ isSpace c = false ∧ c ≠ '#' := by
  unfold AuthorizedKey.options
  split
  · exact ⟨'f', by simp, by decide, by decide⟩
  · exact ⟨'r', by simp, by decide, by decide⟩

theorem fields_render {key : AuthorizedKey} (h : key.Plain) :
    fields key.render = key.options :: fields key.publicKey ++ [key.comment] := by
  obtain ⟨c, hoptions, -⟩ := head_options key
  have hne : key.options ≠ "" := by
    intro heq
    rw [heq] at hoptions
    cases hoptions
  have hcomment : key.comment ≠ "" := by
    intro heq
    have hours := h.ours
    rw [heq] at hours
    exact absurd hours (by decide)
  rw [AuthorizedKey.render, fields_append, fields_append,
    fields_of_noSpace (noSpace_options h.addresses) hne, fields_of_noSpace h.comment hcomment]
  rfl

theorem oneLine_render {key : AuthorizedKey} (h : key.Plain) : OneLine key.render := by
  have hblank : isLineBreak ' ' = false := by decide
  have hkey : OneLine key.publicKey := by
    intro c hc
    cases hbreak : isLineBreak c with
    | false => rfl
    | true =>
        have hspace := h.publicKey c hc (isSpace_of_isLineBreak hbreak)
        rw [hspace, hblank] at hbreak
        cases hbreak
  have hoptions := oneLine_of_noSpace (noSpace_options h.addresses)
  have hcomment := oneLine_of_noSpace h.comment
  intro c hc
  simp only [AuthorizedKey.render, String.toList_append, List.mem_append] at hc
  rcases hc with (((hc | hc) | hc) | hc) | hc
  · exact hoptions c hc
  · exact List.mem_singleton.mp hc ▸ hblank
  · exact hkey c hc
  · exact List.mem_singleton.mp hc ▸ hblank
  · exact hcomment c hc

/-- The line of a key is recognised by its comment, whatever the key itself holds. -/
theorem commentOf_render_of_comment {key : AuthorizedKey}
    (hours : commentPrefix.toList <+: key.comment.toList) (hcomment : NoSpace key.comment) :
    commentOf key.render = some key.comment := by
  obtain ⟨c, hoptions, hspace, hhash⟩ := head_options key
  obtain ⟨rest, hrest⟩ := List.head?_eq_some_iff.mp hoptions
  obtain ⟨stripped, hstripped⟩ := toList_strip (s := key.render)
    (by rw [AuthorizedKey.render, String.append_assoc, String.append_assoc, String.append_assoc,
      String.toList_append, hrest, List.cons_append]) hspace
  have hremark : ¬ (strip key.render = "" ∨ (strip key.render).toList.head? = some '#') := by
    rintro (hempty | hcomment)
    · rw [hempty] at hstripped
      cases hstripped
    · rw [hstripped] at hcomment
      exact hhash (Option.some.inj hcomment)
  have hne : key.comment ≠ "" := by
    intro heq
    rw [heq] at hours
    exact absurd hours (by decide)
  rw [commentOf, if_neg hremark, fields_strip, AuthorizedKey.render, fields_append,
    fields_of_noSpace hcomment hne, List.getLast?_concat]
  exact if_pos (List.isPrefixOf_iff_prefix.mpr hours)

theorem commentOf_render {key : AuthorizedKey} (h : key.Plain) :
    commentOf key.render = some key.comment :=
  commentOf_render_of_comment h.ours h.comment

/-! ## Foreign lines -/

/-- The lines that are not the service's own. -/
def foreignLines (text : String) : List String :=
  (readLines text).filter fun line => commentOf line = none

/-- `install` and `remove`. -/
inductive Edit
  | install (key : AuthorizedKey)
  | remove (comment : String)

/-- The text of the file after an edit. -/
def Edit.apply (text : String) : Edit → String
  | install key => (Trust.install text key).getD text
  | remove comment => (Trust.remove text comment).getD text

/-- The text of the file after a sequence of edits. -/
def applyAll (text : String) (edits : List Edit) : String := edits.foldl Edit.apply text

/-- An edit the service makes: any removal, and the installation of a plain key. -/
def Edit.Plain : Edit → Prop
  | install key => key.Plain
  | remove _ => True

/-- A selection of lines that keeps every foreign one keeps the list of them. -/
theorem filter_foreign {keep : String → Bool} (h : ∀ line, commentOf line = none → keep line = true)
    (lines : List String) :
    (lines.filter keep).filter (fun line => commentOf line = none) =
      lines.filter fun line => commentOf line = none := by
  rw [List.filter_filter]
  refine List.filter_congr fun line _ => ?_
  by_cases hforeign : commentOf line = none
  · simp [hforeign, h line hforeign]
  · simp [hforeign]

/-- Step lemma: an edit keeps the foreign lines. -/
theorem foreignLines_apply {edit : Edit} (h : edit.Plain) (text : String) :
    foreignLines (edit.apply text) = foreignLines text := by
  cases edit with
  | install key =>
      have hkept : ∀ line, commentOf line = none →
          (match commentOf line with
            | none => true
            | some comment =>
                decide (comment ≠ key.comment ∧ keyBlobOf line ≠ some key.publicKey)) = true := by
        intro line hforeign
        rw [hforeign]
      have hnew : [key.render].filter (fun line => commentOf line = none) = [] := by
        simp [commentOf_render h]
      rw [foreignLines, Edit.apply, readLines_install (oneLine_render h), List.filter_append, hnew,
        List.append_nil]
      exact filter_foreign hkept _
  | remove comment =>
      rw [foreignLines, Edit.apply, readLines_remove]
      refine filter_foreign (fun line hforeign => ?_) _
      simp [hforeign]

/-- Run lemma: so does a sequence of them. -/
theorem foreignLines_applyAll {edits : List Edit} (h : ∀ edit ∈ edits, edit.Plain) :
    ∀ text, foreignLines (applyAll text edits) = foreignLines text := by
  induction edits with
  | nil => exact fun _ => rfl
  | cons edit rest ih =>
      intro text
      have hrest := ih (fun e he => h e (List.mem_cons_of_mem _ he)) (edit.apply text)
      exact hrest.trans (foreignLines_apply (h edit List.mem_cons_self) text)

theorem applyAll_concat (text : String) (edits : List Edit) (edit : Edit) :
    applyAll text (edits ++ [edit]) = edit.apply (applyAll text edits) := by
  simp [applyAll]

/-- **No sequence of edits touches a foreign line, and a removal drops exactly the lines
of its comment.** -/
theorem foreign_lines_kept (text : String) (edits : List Edit)
    (h : ∀ edit ∈ edits, edit.Plain) :
    foreignLines (applyAll text edits) = foreignLines text ∧
      ∀ before comment after, edits = before ++ .remove comment :: after →
        readLines (applyAll text (before ++ [.remove comment])) =
          (readLines (applyAll text before)).filter fun line => commentOf line ≠ some comment := by
  refine ⟨foreignLines_applyAll h text, fun before comment after _ => ?_⟩
  rw [applyAll_concat]
  exact readLines_remove (applyAll text before) comment

/-- A key of the service. -/
def ownKey : AuthorizedKey where
  comment := "seapath-webui:node1->node1"
  publicKey := "ssh-ed25519 AAAA"
  fromAddresses := ["127.0.0.1"]

theorem ownKey_plain : ownKey.Plain :=
  ⟨List.isPrefixOf_iff_prefix.mp (by decide), by decide, by decide, by decide⟩

/-- A site key that looks like one of the service's, and a remark. -/
def siteText : String := "ssh-rsa BBBB notseapath-webui:node1->node1\n# seapath-webui:node1\n"

theorem foreign_lines_kept_decoy :
    foreignLines (applyAll siteText [.install ownKey, .remove ownKey.comment]) =
        foreignLines siteText ∧
      ∀ before comment after,
        [Edit.install ownKey, .remove ownKey.comment] = before ++ .remove comment :: after →
          readLines (applyAll siteText (before ++ [.remove comment])) =
            (readLines (applyAll siteText before)).filter fun line =>
              commentOf line ≠ some comment := by
  refine foreign_lines_kept siteText _ fun edit hedit => ?_
  rcases List.mem_cons.mp hedit with rfl | hedit
  · exact ownKey_plain
  · obtain rfl := List.mem_singleton.mp hedit
    trivial

end SeapathWebui.Trust
