/-
  Trust/Revocation.lean --- what installing a key and revoking it leave of the bytes.

  Source: app/trust/authorized_keys.py, and the module docstring's "byte for byte".

  An edit that writes at all writes every line again, each ended by one newline, so the
  bytes of the lines it keeps come back and the bytes between them do not.
  `revocation_restores_iff` says for which files that is no loss, and
  `upToDate_left_alone_iff` where in the file the line of a key must stand for the
  installation of that key to leave the file alone.
-/
import SeapathWebui.Trust.AuthorizedKeys

set_option autoImplicit false

namespace SeapathWebui.Trust

open SeapathWebui.Foundation SeapathWebui.Foundation.Text

/-- A file is what is written of its own lines exactly if it is clean. -/
theorem joinLines_readLines_eq_self_iff {text : String} :
    joinLines (readLines text) = text ↔ Clean text := by
  constructor
  · intro h
    rw [← h]
    exact clean_joinLines fun line => oneLine_of_mem_readLines
  · intro h
    have hnewlines : NewlinesOnly text := by
      intro hmem
      exact absurd (h.1 _ hmem (by decide)) (by decide)
    rw [readLines, universalNewlines_eq_self_iff.mpr hnewlines]
    exact joinLines_splitlines_eq_self_iff.mpr h

/-- What a file holds after lines of one line each have been written. -/
theorem readLines_joinLines_append {lines : List String} (h : ∀ line ∈ lines, OneLine line)
    (rest : String) : readLines (joinLines lines ++ rest) = lines ++ readLines rest := by
  rw [readLines, universalNewlines_append (newlinesOnly_joinLines h),
    splitlines_joinLines_append h, readLines]

/-! ## The line of a key, read back -/

/-- The lines that the line written for a key is read back as: more than one if the key
itself holds a line break. -/
def AuthorizedKey.linesBack (key : AuthorizedKey) : List String :=
  readLines (joinLines [key.render])

/-- Every line written for a key is recognised as the line of that key. -/
def AuthorizedKey.Recognised (key : AuthorizedKey) : Prop :=
  ∀ line ∈ key.linesBack, commentOf line = some key.comment

instance (key : AuthorizedKey) : Decidable key.Recognised := List.decidableBAll _ _

theorem linesBack_ne_nil (key : AuthorizedKey) : key.linesBack ≠ [] := by
  rw [AuthorizedKey.linesBack, readLines, Ne, splitlines_eq_nil_iff,
    universalNewlines_eq_empty_iff]
  intro hempty
  have hchars := congrArg String.toList hempty
  rw [toList_joinLines] at hchars
  exact absurd hchars (by simp)

/-- A key on one line is recognised by its comment, whatever else the line holds. -/
theorem recognised_of_oneLine {key : AuthorizedKey}
    (hours : commentPrefix.toList <+: key.comment.toList) (hcomment : NoSpace key.comment)
    (hline : OneLine key.render) : key.Recognised := by
  intro line hmem
  have hlines : ∀ line ∈ [key.render], OneLine line := by simpa using hline
  rw [AuthorizedKey.linesBack, readLines_joinLines hlines] at hmem
  rw [List.mem_singleton.mp hmem]
  exact commentOf_render_of_comment hours hcomment

/-! ## Installing, then revoking -/

/-- What is removed from a list of lines with another's before it. -/
theorem filter_append_of_foreign {lines more : List String} {comment : String}
    (h : ∀ line ∈ lines, commentOf line = none) :
    (lines ++ more).filter (fun line => commentOf line ≠ some comment) =
      lines ++ more.filter fun line => commentOf line ≠ some comment := by
  rw [List.filter_append, List.filter_eq_self.mpr fun line hline => by simp [h line hline]]

/-- In a file without a line of the service's own, `install` appends one. -/
theorem install_of_foreign {text : String} {key : AuthorizedKey}
    (h : ∀ line ∈ readLines text, commentOf line = none) :
    install text key = some (joinLines (readLines text ++ [key.render])) := by
  have hkept : keptLines key (readLines text) = readLines text :=
    List.filter_eq_self.mpr fun line hline => by rw [h line hline]
  rw [install, hkept, rewrite, if_neg]
  simp

/-- The lines of the file after the installation. -/
theorem readLines_appended {text : String} {key : AuthorizedKey} :
    readLines (joinLines (readLines text ++ [key.render])) = readLines text ++ key.linesBack := by
  rw [joinLines_append, readLines_joinLines_append fun line => oneLine_of_mem_readLines,
    AuthorizedKey.linesBack]

theorem recognised_iff {key : AuthorizedKey} : key.Recognised ↔
    key.linesBack.filter (fun line => commentOf line ≠ some key.comment) = [] := by
  rw [List.filter_eq_nil_iff]
  exact forall₂_congr fun line _ => by simp

/-- The lines that stay when a key is installed and then revoked. -/
theorem readLines_revoked {text : String} {key : AuthorizedKey}
    (h : ∀ line ∈ readLines text, commentOf line = none) :
    readLines (applyAll text [.install key, .remove key.comment]) =
      readLines text ++ key.linesBack.filter fun line => commentOf line ≠ some key.comment := by
  simp only [applyAll, List.foldl_cons, List.foldl_nil, Edit.apply, install_of_foreign h,
    Option.getD_some]
  rw [readLines_remove, readLines_appended, filter_append_of_foreign h]

/-- If none of them is the key's, the file is written from the lines it had. -/
theorem revoked_of_recognised {text : String} {key : AuthorizedKey}
    (h : ∀ line ∈ readLines text, commentOf line = none) (hkey : key.Recognised) :
    applyAll text [.install key, .remove key.comment] = joinLines (readLines text) := by
  have hchanged : readLines text ≠ readLines text ++ key.linesBack := fun hsame =>
    linesBack_ne_nil key (List.self_eq_append_right.mp hsame)
  simp only [applyAll, List.foldl_cons, List.foldl_nil, Edit.apply, install_of_foreign h,
    Option.getD_some]
  rw [remove, readLines_appended, filter_append_of_foreign h, recognised_iff.mp hkey,
    List.append_nil, rewrite, readLines_appended, if_neg hchanged, Option.getD_some]

theorem restores_iff_of_recognised {text : String} {key : AuthorizedKey}
    (h : ∀ line ∈ readLines text, commentOf line = none) (hkey : key.Recognised) :
    applyAll text [.install key, .remove key.comment] = text ↔ Clean text := by
  rw [revoked_of_recognised h hkey]
  exact joinLines_readLines_eq_self_iff

/-- For the keys the service makes, it depends on the file alone. -/
theorem restores_iff_of_plain {text : String} {key : AuthorizedKey}
    (h : ∀ line ∈ readLines text, commentOf line = none) (hkey : key.Plain) :
    applyAll text [.install key, .remove key.comment] = text ↔ Clean text :=
  restores_iff_of_recognised h
    (recognised_of_oneLine hkey.ours hkey.comment (oneLine_render hkey))

/-- **A key that is installed and then revoked leaves the bytes of someone else's file as
they were exactly if the file was clean, newline ending each of its lines and nothing else
ending one, and the service recognises every line it wrote for the key.** -/
theorem revocation_restores_iff (text : String) (key : AuthorizedKey)
    (h : ∀ line ∈ readLines text, commentOf line = none) :
    applyAll text [.install key, .remove key.comment] = text ↔ Clean text ∧ key.Recognised := by
  constructor
  · intro hsame
    have hlines := @readLines_revoked text key h
    rw [hsame] at hlines
    have hkey := recognised_iff.mpr (List.self_eq_append_right.mp hlines)
    exact ⟨(restores_iff_of_recognised h hkey).mp hsame, hkey⟩
  · rintro ⟨hclean, hkey⟩
    exact (restores_iff_of_recognised h hkey).mpr hclean

/-- A site's file as the tool of another system writes it, without a final newline. -/
def foreignText : String := "ssh-rsa BBBB site\r\nssh-rsa CCCC backup"

theorem commentOf_foreignText : ∀ line ∈ readLines foreignText, commentOf line = none := by
  decide +kernel

theorem revocation_restores_foreign :
    applyAll foreignText [.install ownKey, .remove ownKey.comment] = foreignText ↔
      Clean foreignText ∧ ownKey.Recognised :=
  revocation_restores_iff foreignText ownKey commentOf_foreignText

/-- Its line ends are not restored, and its last line has gained one. -/
theorem revocation_rewrites_foreign :
    (∀ line ∈ readLines foreignText, commentOf line = none) ∧
      commentPrefix.toList <+: ownKey.comment.toList ∧ NoSpace ownKey.comment ∧
      applyAll foreignText [.install ownKey, .remove ownKey.comment] ≠ foreignText := by
  refine ⟨commentOf_foreignText, ownKey_plain.ours, ownKey_plain.comment, fun hsame => ?_⟩
  exact absurd ((restores_iff_of_plain commentOf_foreignText ownKey_plain).mp hsame) (by decide)

/-! ## Installing what is there -/

/-- The file holds the line of the key, no other line with its comment, and no other line
of the service's own that carries the same public key. -/
structure UpToDate (text : String) (key : AuthorizedKey) : Prop where
  only : (readLines text).filter (fun line => commentOf line = some key.comment) = [key.render]
  noOther : ∀ line ∈ readLines text, line ≠ key.render → commentOf line ≠ none →
    keyBlobOf line ≠ some key.publicKey

/-- `install` keeps the lines before and after it. -/
theorem keptLines_of_upToDate {text : String} {key : AuthorizedKey} (h : UpToDate text key) :
    ∃ before after, readLines text = before ++ key.render :: after ∧ key.render ∉ after ∧
      keptLines key (readLines text) = before ++ after := by
  have hmem : key.render ∈ (readLines text).filter fun line => commentOf line = some key.comment :=
    h.only ▸ List.mem_singleton_self _
  obtain ⟨hline, hown⟩ := List.mem_filter.mp hmem
  have hown : commentOf key.render = some key.comment := by simpa using hown
  obtain ⟨before, after, hlines⟩ := List.append_of_mem hline
  have honly := h.only
  rw [hlines, List.filter_append, List.filter_cons_of_pos (by simpa using hown)] at honly
  -- a single line is kept by the filter, so none is kept on either side
  have hlength := congrArg List.length honly
  simp only [List.length_append, List.length_cons, List.length_nil] at hlength
  have hbefore : before.filter (fun line => commentOf line = some key.comment) = [] :=
    List.eq_nil_of_length_eq_zero (by omega)
  have hafter : after.filter (fun line => commentOf line = some key.comment) = [] :=
    List.eq_nil_of_length_eq_zero (by omega)
  have hkeeps : ∀ lines : List String,
      lines.filter (fun line => commentOf line = some key.comment) = [] →
      (∀ line ∈ lines, line ∈ readLines text) → keptLines key lines = lines := by
    intro lines hnone hsub
    refine List.filter_eq_self.mpr fun line hin => ?_
    have hother : commentOf line ≠ some key.comment := by
      simpa using List.filter_eq_nil_iff.mp hnone line hin
    cases hcomment : commentOf line with
    | none => rfl
    | some comment =>
        have hne : line ≠ key.render := fun heq => hother (heq ▸ hown)
        have hblob := h.noOther line (hsub line hin) hne (by simp [hcomment])
        rw [hcomment] at hother
        simpa using ⟨fun heq => hother (congrArg some heq), hblob⟩
  have hdropped : keptLines key [key.render] = [] := by simp [keptLines, hown]
  refine ⟨before, after, hlines, fun hin => ?_, ?_⟩
  · exact absurd hown (by simpa using List.filter_eq_nil_iff.mp hafter _ hin)
  · have hsplit : keptLines key (before ++ [key.render] ++ after) =
        keptLines key before ++ keptLines key [key.render] ++ keptLines key after := by
      simp only [keptLines, List.filter_append]
    rw [hlines, List.append_cons, hsplit, hdropped, List.append_nil,
      hkeeps before hbefore fun line hin => hlines ▸ List.mem_append_left _ hin,
      hkeeps after hafter fun line hin => hlines ▸ List.mem_append_right _ (.tail _ hin)]

/-- **Installing a key that is already there leaves the file alone exactly if its line is
the last one.** -/
theorem upToDate_left_alone_iff (text : String) (key : AuthorizedKey) (h : UpToDate text key) :
    install text key = none ↔ (readLines text).getLast? = some key.render := by
  obtain ⟨before, after, hlines, hnew, hkept⟩ := keptLines_of_upToDate h
  have hnone : install text key = none ↔
      before ++ after ++ [key.render] = before ++ key.render :: after := by
    rw [install, hkept, rewrite, hlines]
    split <;> simp_all
  rw [hnone, hlines]
  constructor
  · intro hsame
    rw [← hsame, List.getLast?_concat]
  · intro hlast
    rcases List.eq_nil_or_concat after with rfl | ⟨initial, last, rfl⟩
    · simp
    · rw [List.concat_eq_append] at hlast hnew
      rw [List.append_cons, ← List.append_assoc, List.getLast?_concat] at hlast
      obtain rfl := Option.some.inj hlast
      exact absurd (List.mem_append_right _ (List.mem_singleton_self _)) hnew

/-- A key that the site has added. -/
def siteLine : String := "ssh-rsa BBBB site"

/-- The key's line, and then the site's. -/
def appendedText : String := joinLines [ownKey.render, siteLine]

theorem commentOf_siteLine : commentOf siteLine = none := by decide +kernel

theorem readLines_appendedText : readLines appendedText = [ownKey.render, siteLine] := by
  refine readLines_joinLines fun line hline => ?_
  rcases List.mem_cons.mp hline with rfl | hline
  · exact oneLine_render ownKey_plain
  · rw [List.mem_singleton.mp hline]
    decide

theorem upToDate_appendedText : UpToDate appendedText ownKey where
  only := by
    rw [readLines_appendedText]
    simp [commentOf_render ownKey_plain, commentOf_siteLine]
  noOther := by
    intro line hline hne hours
    rw [readLines_appendedText] at hline
    rcases List.mem_cons.mp hline with rfl | hline
    · exact absurd rfl hne
    · rw [List.mem_singleton.mp hline] at hours
      exact absurd commentOf_siteLine hours

theorem upToDate_left_alone_appended :
    install appendedText ownKey = none ↔
      (readLines appendedText).getLast? = some ownKey.render :=
  upToDate_left_alone_iff appendedText ownKey upToDate_appendedText

/-- It moves to the end of the file, which is written for that alone. -/
theorem upToDate_rewritten :
    UpToDate appendedText ownKey ∧ install appendedText ownKey ≠ none := by
  refine ⟨upToDate_appendedText, ?_⟩
  have hsite : siteLine ≠ ownKey.render := by decide
  rw [install, readLines_appendedText, rewrite, readLines_appendedText, keptLines]
  simp [commentOf_render ownKey_plain, commentOf_siteLine, hsite]

end SeapathWebui.Trust
