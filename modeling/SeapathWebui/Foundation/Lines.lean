/-
  Foundation/Lines.lean --- the lines of a text, and the fields of a line.

  `splitlines` and `fields` are `str.splitlines()` and `str.split()` of the source's
  language, over all of Unicode; `joinLines` is how a list of lines is written to a
  file.  A line never holds a line break, so what is written is read back as the same
  lines (`splitlines_joinLines`).
-/
import SeapathWebui.Foundation.Text

set_option autoImplicit false

namespace SeapathWebui.Foundation.Text

/-! ## Lines -/

/-- The characters at which `str.splitlines()` ends a line. -/
def isLineBreak (c : Char) : Bool :=
  let n := c.toNat
  (0xA ≤ n && n ≤ 0xD) || (0x1C ≤ n && n ≤ 0x1E) || n == 0x85 || n == 0x2028 || n == 0x2029

/-- The lines of a text, from the beginning of the current one on. -/
def linesFrom (line : List Char) : List Char → List (List Char)
  | [] => if line = [] then [] else [line]
  | '\r' :: '\n' :: rest => line :: linesFrom [] rest
  | c :: rest => if isLineBreak c then line :: linesFrom [] rest else linesFrom (line ++ [c]) rest

/-- `str.splitlines()` -/
def splitlines (s : String) : List String := (linesFrom [] s.toList).map String.ofList

/-- There is no line break in the text. -/
def OneLine (s : String) : Prop := ∀ c ∈ s.toList, isLineBreak c = false

instance (s : String) : Decidable (OneLine s) := List.decidableBAll _ _

/-- `"\n".join(lines)`, and a newline at the end if there are any. -/
def joinLines (lines : List String) : String :=
  "\n".intercalate lines ++ if lines = [] then "" else "\n"

theorem isSpace_of_isLineBreak {c : Char} (h : isLineBreak c = true) : isSpace c = true := by
  simp only [isLineBreak, Bool.or_eq_true, Bool.and_eq_true, beq_iff_eq,
    decide_eq_true_eq] at h
  simp only [isSpace, Bool.or_eq_true, Bool.and_eq_true, beq_iff_eq, decide_eq_true_eq]
  omega

theorem linesFrom_of_not_break {c : Char} (line rest : List Char) (h : isLineBreak c = false) :
    linesFrom line (c :: rest) = linesFrom (line ++ [c]) rest := by
  rw [linesFrom]
  · rw [h]
    rfl
  · rintro rest' rfl
    exact absurd h (by decide)

/-- A line ended by a newline comes first. -/
theorem linesFrom_append {l : List Char} (h : ∀ c ∈ l, isLineBreak c = false)
    (rest : List Char) :
    ∀ line, linesFrom line (l ++ '\n' :: rest) = (line ++ l) :: linesFrom [] rest := by
  induction l with
  | nil =>
      intro line
      rw [List.append_nil, List.nil_append, linesFrom]
      · rfl
      · rintro rest' ⟨⟩
  | cons c more ih =>
      intro line
      rw [List.cons_append, linesFrom_of_not_break _ _ (h c List.mem_cons_self),
        ih (fun d hd => h d (List.mem_cons_of_mem _ hd)), List.append_assoc]
      rfl

/-- Only the empty text has no line. -/
theorem splitlines_eq_nil_iff {s : String} : splitlines s = [] ↔ s = "" := by
  have hnil : ∀ line l, linesFrom line l = [] ↔ line = [] ∧ l = [] := by
    intro line l
    fun_induction linesFrom line l with
    | case1 => simp
    | case2 line hline => simpa using hline
    | case3 => simp
    | case4 => simp
    | case5 line c rest _ _ ih => simp [ih]
  rw [splitlines, List.map_eq_nil_iff, hnil, String.toList_eq_nil_iff]
  exact and_iff_right rfl

/-- No line holds a line break. -/
theorem oneLine_of_mem_linesFrom {l : List Char} :
    ∀ {line : List Char}, (∀ c ∈ line, isLineBreak c = false) →
      ∀ m ∈ linesFrom line l, ∀ c ∈ m, isLineBreak c = false := by
  intro line
  fun_induction linesFrom line l with
  | case1 => exact fun _ m hm => nomatch hm
  | case2 line _ =>
      intro hline m hm
      exact List.mem_singleton.mp hm ▸ hline
  | case3 line rest ih =>
      intro hline m hm
      rcases List.mem_cons.mp hm with rfl | hm
      · exact hline
      · exact ih (fun c hc => nomatch hc) m hm
  | case4 line c rest _ hbreak ih =>
      intro hline m hm
      rcases List.mem_cons.mp hm with rfl | hm
      · exact hline
      · exact ih (fun c hc => nomatch hc) m hm
  | case5 line c rest _ hbreak ih =>
      intro hline m hm
      refine ih (fun d hd => ?_) m hm
      rcases List.mem_append.mp hd with hd | hd
      · exact hline d hd
      · obtain rfl := List.mem_singleton.mp hd
        exact Bool.not_eq_true _ ▸ hbreak

theorem oneLine_of_mem_splitlines {s line : String} (h : line ∈ splitlines s) : OneLine line := by
  obtain ⟨m, hm, rfl⟩ := List.mem_map.mp h
  intro c hc
  rw [String.toList_ofList] at hc
  exact oneLine_of_mem_linesFrom (List.forall_mem_nil _) m hm c hc

theorem toList_joinLines (lines : List String) :
    (joinLines lines).toList = lines.flatMap fun line => line.toList ++ ['\n'] := by
  induction lines with
  | nil => rfl
  | cons line rest ih =>
      rw [List.flatMap_cons, ← ih]
      by_cases hrest : rest = []
      · simp [joinLines, hrest]
      · simp [joinLines, hrest, List.intercalate_cons_of_ne_nil]

theorem joinLines_append (lines more : List String) :
    joinLines (lines ++ more) = joinLines lines ++ joinLines more := by
  apply String.toList_inj.mp
  rw [String.toList_append, toList_joinLines, toList_joinLines, toList_joinLines,
    List.flatMap_append]

/-- What is written line by line is read back as the same lines, whatever follows it. -/
theorem splitlines_joinLines_append {lines : List String} (h : ∀ line ∈ lines, OneLine line)
    (rest : String) : splitlines (joinLines lines ++ rest) = lines ++ splitlines rest := by
  have hlines : linesFrom [] ((lines.flatMap fun line => line.toList ++ ['\n']) ++ rest.toList) =
      lines.map String.toList ++ linesFrom [] rest.toList := by
    induction lines with
    | nil => rfl
    | cons line more ih =>
        rw [List.flatMap_cons, List.append_assoc, List.append_assoc, List.singleton_append,
          linesFrom_append (h line List.mem_cons_self), List.nil_append, List.map_cons,
          ih fun l hl => h l (List.mem_cons_of_mem _ hl), List.cons_append]
  rw [splitlines, String.toList_append, toList_joinLines, hlines, List.map_append, List.map_map,
    splitlines]
  simp [Function.comp_def]

theorem splitlines_joinLines {lines : List String} (h : ∀ line ∈ lines, OneLine line) :
    splitlines (joinLines lines) = lines := by
  have happend := splitlines_joinLines_append h ""
  rwa [String.append_empty, show splitlines "" = [] from rfl, List.append_nil] at happend

/-- A text without a line break is its own line, if it is not empty. -/
theorem splitlines_of_oneLine {s : String} (h : OneLine s) (hne : s ≠ "") : splitlines s = [s] := by
  have hopen : ∀ {l : List Char}, (∀ c ∈ l, isLineBreak c = false) → ∀ line, line ++ l ≠ [] →
      linesFrom line l = [line ++ l] := by
    intro l
    induction l with
    | nil =>
        intro _ line hline
        rw [List.append_nil] at hline ⊢
        exact if_neg hline
    | cons c more ih =>
        intro hl line _
        rw [linesFrom_of_not_break _ _ (hl c List.mem_cons_self),
          ih (fun d hd => hl d (List.mem_cons_of_mem _ hd)) _ (by simp), List.append_assoc]
        rfl
  rw [splitlines, hopen h [] (by simpa using hne)]
  simp

/-- Lines that are joined by newlines are split again; an empty one at the end is not there. -/
theorem splitlines_intercalate {lines : List String} (h : ∀ line ∈ lines, OneLine line)
    (hne : ∀ line ∈ lines, line ≠ "") : splitlines ("\n".intercalate lines) = lines := by
  induction lines with
  | nil => rfl
  | cons line rest ih =>
      have hline := h line List.mem_cons_self
      have hrest := ih (fun l hl => h l (List.mem_cons_of_mem _ hl))
        fun l hl => hne l (List.mem_cons_of_mem _ hl)
      by_cases hnil : rest = []
      · rw [hnil, String.intercalate_singleton]
        exact splitlines_of_oneLine hline (hne line List.mem_cons_self)
      · have hjoined : line ++ "\n" = joinLines [line] := by
          rw [joinLines, String.intercalate_singleton, if_neg (by simp)]
        have hfirst : ∀ l ∈ [line], OneLine l := fun l hl => List.mem_singleton.mp hl ▸ hline
        rw [String.intercalate_cons_of_ne_nil hnil, hjoined, splitlines_joinLines_append hfirst,
          hrest]
        rfl

/-- Cut at newlines, what is written line by line has the same lines, and nothing after the
last newline. -/
theorem split_joinLines {lines : List String} (h : ∀ line ∈ lines, '\n' ∉ line.toList) :
    split '\n' (joinLines lines) = lines ++ [""] := by
  have hjoined : joinLines lines = "\n".intercalate (lines ++ [""]) := by
    apply String.toList_inj.mp
    rw [toList_joinLines]
    clear h
    induction lines with
    | nil => rfl
    | cons line rest ih =>
        rw [List.cons_append, String.intercalate_cons_of_ne_nil (by simp), List.flatMap_cons, ih]
        simp
  rw [hjoined]
  refine split_intercalate (by simp) fun line hline => ?_
  rcases List.mem_append.mp hline with hline | hline
  · exact h line hline
  · rw [List.mem_singleton.mp hline]
    exact List.not_mem_nil

theorem newline_not_mem_of_oneLine {s : String} (h : OneLine s) : '\n' ∉ s.toList :=
  fun hmem => absurd (h _ hmem) (by decide)

/-- There is no carriage return in it either. -/
theorem newlinesOnly_joinLines {lines : List String} (h : ∀ line ∈ lines, OneLine line) :
    NewlinesOnly (joinLines lines) := by
  rw [NewlinesOnly, toList_joinLines]
  intro hmem
  obtain ⟨line, hline, hc⟩ := List.mem_flatMap.mp hmem
  rcases List.mem_append.mp hc with hc | hc
  · exact absurd (h line hline _ hc) (by decide)
  · exact absurd (List.mem_singleton.mp hc) (by decide)

/-- A text as line by line writing leaves it: newline is its only line break, and it
ends its last line. -/
def Clean (s : String) : Prop :=
  (∀ c ∈ s.toList, isLineBreak c = true → c = '\n') ∧
    (s = "" ∨ s.toList.getLast? = some '\n')

instance (s : String) : Decidable (Clean s) :=
  haveI : Decidable (∀ c ∈ s.toList, isLineBreak c = true → c = '\n') := List.decidableBAll _ _
  inferInstanceAs (Decidable (_ ∧ _))

theorem clean_joinLines {lines : List String} (h : ∀ line ∈ lines, OneLine line) :
    Clean (joinLines lines) := by
  refine ⟨fun c hc hbreak => ?_, ?_⟩
  · rw [toList_joinLines] at hc
    obtain ⟨line, hline, hc⟩ := List.mem_flatMap.mp hc
    rcases List.mem_append.mp hc with hc | hc
    · rw [h line hline c hc] at hbreak
      cases hbreak
    · exact List.mem_singleton.mp hc
  · rcases List.eq_nil_or_concat lines with rfl | ⟨initial, last, rfl⟩
    · exact .inl rfl
    · right
      rw [toList_joinLines, List.concat_eq_append, List.flatMap_append, List.flatMap_singleton,
        ← List.append_assoc, List.getLast?_concat]

/-- The lines of a text that is clean but for the newline at its end. -/
theorem flatMap_linesFrom {l : List Char} (h : ∀ c ∈ l, isLineBreak c = true → c = '\n') :
    ∀ line, (linesFrom line (l ++ ['\n'])).flatMap (· ++ ['\n']) = line ++ l ++ ['\n'] := by
  induction l with
  | nil =>
      intro line
      simp [linesFrom, show isLineBreak '\n' = true from rfl]
  | cons c rest ih =>
      have hrest := ih fun d hd => h d (List.mem_cons_of_mem _ hd)
      intro line
      cases hbreak : isLineBreak c with
      | true =>
          obtain rfl := h c List.mem_cons_self hbreak
          have hfirst := linesFrom_append (List.forall_mem_nil _) (rest ++ ['\n']) line
          rw [List.nil_append, List.append_nil] at hfirst
          rw [List.cons_append, hfirst, List.flatMap_cons, hrest]
          simp
      | false =>
          rw [List.cons_append, linesFrom_of_not_break _ _ hbreak, hrest]
          simp

/-- **A text is what is written of its lines exactly if it is clean.** -/
theorem joinLines_splitlines_eq_self_iff {s : String} :
    joinLines (splitlines s) = s ↔ Clean s := by
  constructor
  · intro h
    rw [← h]
    exact clean_joinLines fun line => oneLine_of_mem_splitlines
  · rintro ⟨hbreaks, rfl | hlast⟩
    · rfl
    · obtain ⟨l, hl⟩ := List.getLast?_eq_some_iff.mp hlast
      have hjoined : ∀ lines : List (List Char),
          (joinLines (lines.map String.ofList)).toList = lines.flatMap (· ++ ['\n']) := by
        intro lines
        rw [toList_joinLines, List.flatMap_map]
        simp
      apply String.toList_inj.mp
      rw [splitlines, hjoined, hl]
      refine flatMap_linesFrom (fun c hc => hbreaks c ?_) []
      rw [hl]
      exact List.mem_append_left _ hc

/-! ## The lines of a file that is being written -/

/-- The lines from the current one on, each with the newline that ends it. -/
def fileLinesFrom (line : List Char) : List Char → List (List Char)
  | [] => if line = [] then [] else [line]
  | c :: rest =>
      if c = '\n' then (line ++ [c]) :: fileLinesFrom [] rest else fileLinesFrom (line ++ [c]) rest

/-- `for line in handle`, of a text file with this content. -/
def fileLines (s : String) : List String :=
  (fileLinesFrom [] (newlines s.toList)).map String.ofList

theorem fileLinesFrom_append {l : List Char} (h : '\n' ∉ l) (rest : List Char) :
    ∀ line, fileLinesFrom line (l ++ '\n' :: rest) =
      (line ++ l ++ ['\n']) :: fileLinesFrom [] rest := by
  induction l with
  | nil =>
      intro line
      rw [List.nil_append, fileLinesFrom, if_pos rfl, List.append_nil]
  | cons c more ih =>
      intro line
      obtain ⟨hc, hmore⟩ := not_or.mp (mt List.mem_cons.mpr h)
      rw [List.cons_append, fileLinesFrom, if_neg (Ne.symm hc), ih hmore]
      simp

/-- A last line that no newline ends. -/
theorem fileLinesFrom_open {l : List Char} (h : '\n' ∉ l) :
    ∀ line, fileLinesFrom line l = if line ++ l = [] then [] else [line ++ l] := by
  induction l with
  | nil =>
      intro line
      rw [fileLinesFrom, List.append_nil]
  | cons c more ih =>
      intro line
      obtain ⟨hc, hmore⟩ := not_or.mp (mt List.mem_cons.mpr h)
      rw [fileLinesFrom, if_neg (Ne.symm hc), ih hmore, List.append_assoc]
      rfl

/-- What a prefix of a file shows: its first lines, and perhaps the beginning of the
next one. -/
theorem fileLinesFrom_of_isPrefix {lines : List (List Char)} (h : ∀ l ∈ lines, '\n' ∉ l) :
    ∀ {text : List Char}, text <+: lines.flatMap (· ++ ['\n']) →
      ∃ k cut, fileLinesFrom [] text = (lines.take k).map (· ++ ['\n']) ++ cut ∧
        text = (lines.take k).flatMap (· ++ ['\n']) ++ cut.flatten ∧ k ≤ lines.length ∧
        (cut = [] ∨ ∃ l p, lines[k]? = some l ∧ p <+: l ∧ p ≠ [] ∧ cut = [p]) := by
  induction lines with
  | nil =>
      intro text htext
      obtain rfl := List.prefix_nil.mp htext
      exact ⟨0, [], rfl, rfl, le_rfl, .inl rfl⟩
  | cons l rest ih =>
      intro text htext
      have hl := h l List.mem_cons_self
      rw [List.flatMap_cons, List.append_assoc] at htext
      rcases List.prefix_or_prefix_of_prefix htext (List.prefix_append l _) with hcut | ⟨more, rfl⟩
      -- the text ends in the first line
      · have hnl : '\n' ∉ text := fun hmem => hl (hcut.subset hmem)
        have hopen := fileLinesFrom_open hnl []
        by_cases hempty : text = []
        · exact ⟨0, [], by simpa [hempty] using hopen, by simp [hempty], Nat.zero_le _, .inl rfl⟩
        · exact ⟨0, [text], by simpa [hempty] using hopen, by simp, Nat.zero_le _,
            .inr ⟨l, text, rfl, hcut, hempty, rfl⟩⟩
      · have hmore := (List.prefix_append_right_inj l).mp htext
        cases more with
        | nil =>
            have hopen := fileLinesFrom_open (l := l ++ []) (by simpa using hl) []
            by_cases hempty : l = []
            · exact ⟨0, [], by simpa [hempty] using hopen, by simp [hempty], Nat.zero_le _,
                .inl rfl⟩
            · exact ⟨0, [l], by simpa [hempty] using hopen, by simp, Nat.zero_le _,
                .inr ⟨l, l, rfl, List.prefix_rfl, hempty, rfl⟩⟩
        | cons c more =>
            obtain ⟨rfl, htail⟩ := List.cons_prefix_cons.mp hmore
            obtain ⟨k, cut, hlines, htext, hk, hcut⟩ :=
              ih (fun m hm => h m (List.mem_cons_of_mem _ hm)) htail
            refine ⟨k + 1, cut, ?_, ?_, Nat.succ_le_succ hk, by simpa using hcut⟩
            · rw [fileLinesFrom_append hl, hlines]
              simp
            · rw [htext]
              simp

/-- The end of a line that a prefix of the file shows only in part is not in it. -/
theorem lines_le_of_isPrefix {lines : List (List Char)} {text : List Char} {k m : Nat}
    {cut : List (List Char)} (hm : m ≤ lines.length)
    (htext : text = (lines.take k).flatMap (· ++ ['\n']) ++ cut.flatten)
    (hcut : cut = [] ∨ ∃ l p, lines[k]? = some l ∧ p <+: l ∧ p ≠ [] ∧ cut = [p])
    (hinitial : (lines.take m).flatMap (· ++ ['\n']) <+: text) : m ≤ k := by
  by_contra hlt
  have hk : k < lines.length := by omega
  have hnext : (lines.take (k + 1)).flatMap (· ++ ['\n']) <+: text := by
    refine List.IsPrefix.trans ?_ hinitial
    obtain ⟨more, hmore⟩ := List.take_prefix_take_left (l := lines) (show k + 1 ≤ m by omega)
    rw [← hmore, List.flatMap_append]
    exact List.prefix_append _ _
  rw [List.take_add_one, List.getElem?_eq_getElem hk, List.flatMap_append, htext,
    List.prefix_append_right_inj] at hnext
  have hlength := hnext.length_le
  rcases hcut with rfl | ⟨l, p, hl, hp, -, rfl⟩
  · simp at hlength
  · rw [List.getElem?_eq_getElem hk] at hl
    have hpl := hp.length_le
    rw [← Option.some.inj hl] at hpl
    simp at hlength
    omega

/-- What a prefix of a file shows, and that it shows each line it holds whole. -/
theorem fileLines_of_isPrefix {lines : List String}
    (h : ∀ l ∈ lines, '\n' ∉ l.toList ∧ NewlinesOnly l) {text : String}
    (htext : text.toList <+: (joinLines lines).toList) :
    ∃ k cut, fileLines text = (lines.take k).map (· ++ "\n") ++ cut ∧ k ≤ lines.length ∧
      (cut = [] ∨
        ∃ l p, lines[k]? = some l ∧ p.toList <+: l.toList ∧ p ≠ "" ∧ cut = [p]) ∧
      ∀ m ≤ lines.length, (joinLines (lines.take m)).toList <+: text.toList → m ≤ k := by
  have hnewlines : newlines text.toList = text.toList := by
    refine newlines_of_return_not_mem fun hmem => ?_
    have hjoined := htext.subset hmem
    rw [toList_joinLines] at hjoined
    obtain ⟨l, hl, hc⟩ := List.mem_flatMap.mp hjoined
    rcases List.mem_append.mp hc with hc | hc
    · exact (h l hl).2 hc
    · exact absurd (List.mem_singleton.mp hc) (by decide)
  have hchars : ∀ ls : List String, (joinLines ls).toList =
      (ls.map String.toList).flatMap (· ++ ['\n']) := by
    intro ls
    rw [toList_joinLines, List.flatMap_map]
  rw [hchars] at htext
  obtain ⟨k, cut, hlines, htext, hk, hcut⟩ := fileLinesFrom_of_isPrefix
    (by simpa using fun l hl => (h l hl).1) htext
  refine ⟨k, cut.map String.ofList, ?_, by simpa using hk, ?_, ?_⟩
  · rw [fileLines, hnewlines, hlines]
    simp [Function.comp_def, String.ofList_append]
  · rcases hcut with rfl | ⟨l, p, hl, hp, hne, rfl⟩
    · exact .inl rfl
    · rw [List.getElem?_map] at hl
      obtain ⟨l', hl', rfl⟩ := Option.map_eq_some_iff.mp hl
      exact .inr ⟨l', String.ofList p, hl', by simpa using hp, by simpa using hne, rfl⟩
  · intro m hm hinitial
    rw [hchars, List.map_take] at hinitial
    exact lines_le_of_isPrefix (by simpa using hm) htext hcut hinitial

/-! ## Fields -/

/-- The fields of a text, from the beginning of the current one on. -/
def fieldsFrom (field : List Char) : List Char → List (List Char)
  | [] => if field = [] then [] else [field]
  | c :: rest =>
      if isSpace c then
        if field = [] then fieldsFrom [] rest else field :: fieldsFrom [] rest
      else fieldsFrom (field ++ [c]) rest

/-- `str.split()` -/
def fields (s : String) : List String := (fieldsFrom [] s.toList).map String.ofList

/-- There is no white space in the text. -/
def NoSpace (s : String) : Prop := ∀ c ∈ s.toList, isSpace c = false

instance (s : String) : Decidable (NoSpace s) := List.decidableBAll _ _

/-- The only white space in the text is blanks. -/
def OnlyBlanks (s : String) : Prop := ∀ c ∈ s.toList, isSpace c = true → c = ' '

instance (s : String) : Decidable (OnlyBlanks s) := List.decidableBAll _ _

/-- White space ends a field. -/
theorem fieldsFrom_append {c : Char} (h : isSpace c = true) (l rest : List Char) :
    ∀ field, fieldsFrom field (l ++ c :: rest) = fieldsFrom field l ++ fieldsFrom [] rest := by
  induction l with
  | nil =>
      intro field
      simp only [List.nil_append, fieldsFrom, h, if_true]
      split <;> rfl
  | cons d more ih =>
      intro field
      rw [List.cons_append, fieldsFrom, fieldsFrom]
      split
      · split
        · exact ih []
        · rw [ih [], List.cons_append]
      · exact ih (field ++ [d])

theorem fieldsFrom_of_noSpace {l : List Char} (h : ∀ c ∈ l, isSpace c = false) :
    ∀ field, field ++ l ≠ [] → fieldsFrom field l = [field ++ l] := by
  induction l with
  | nil =>
      intro field hne
      rw [List.append_nil] at hne ⊢
      exact if_neg hne
  | cons c rest ih =>
      intro field hne
      have hc : ¬ isSpace c = true := by simp [h c List.mem_cons_self]
      rw [fieldsFrom, if_neg hc, ih (fun d hd => h d (List.mem_cons_of_mem _ hd)) _ (by simp),
        List.append_assoc]
      rfl

/-- A text without white space is its own only field. -/
theorem fields_of_noSpace {s : String} (h : NoSpace s) (hne : s ≠ "") : fields s = [s] := by
  have hlist : s.toList ≠ [] := by simpa using hne
  rw [fields, fieldsFrom_of_noSpace h [] hlist]
  simp

/-- The fields before a blank, and those after it. -/
theorem fields_append (a b : String) : fields (a ++ " " ++ b) = fields a ++ fields b := by
  have hlist : (a ++ " " ++ b).toList = a.toList ++ ' ' :: b.toList := by simp
  rw [fields, hlist, fieldsFrom_append (by decide), List.map_append, fields, fields]

/-- White space at the ends is in no field. -/
theorem fieldsFrom_dropWhile (l : List Char) :
    fieldsFrom [] (l.dropWhile isSpace) = fieldsFrom [] l := by
  induction l with
  | nil => rfl
  | cons c rest ih =>
      rw [List.dropWhile_cons]
      split
      · rename_i hc
        rw [ih]
        simp only [fieldsFrom, hc, if_true]
      · rfl

theorem fieldsFrom_rdropWhile (l : List Char) (field : List Char) :
    fieldsFrom field (l.rdropWhile isSpace) = fieldsFrom field l := by
  induction l using List.reverseRecOn with
  | nil => rfl
  | append_singleton l c ih =>
      rw [List.rdropWhile_concat]
      split
      · rename_i hc
        rw [ih, fieldsFrom_append hc]
        exact (List.append_nil _).symm
      · rfl

theorem fields_strip (s : String) : fields (strip s) = fields s := by
  rw [fields, strip, String.toList_ofList, stripChars, fieldsFrom_rdropWhile,
    fieldsFrom_dropWhile, fields]

/-! ## Texts without white space -/

theorem noSpace_append {a b : String} : NoSpace (a ++ b) ↔ NoSpace a ∧ NoSpace b := by
  simp only [NoSpace, String.toList_append, List.forall_mem_append]

theorem noSpace_intercalate {separator : String} {texts : List String}
    (hseparator : NoSpace separator) (htexts : ∀ t ∈ texts, NoSpace t) :
    NoSpace (separator.intercalate texts) :=
  forall_mem_intercalate hseparator htexts

theorem oneLine_of_noSpace {s : String} (h : NoSpace s) : OneLine s := by
  intro c hc
  cases hbreak : isLineBreak c with
  | false => rfl
  | true => exact absurd (isSpace_of_isLineBreak hbreak) (by simp [h c hc])

end SeapathWebui.Foundation.Text
