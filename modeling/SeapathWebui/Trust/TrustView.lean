/-
  Trust/TrustView.lean --- what the trust view claims, and what `sshd` accepts.

  Source: `installed` of app/trust/authorized_keys.py, `relations` of
  app/trust/service.py, and the self trust among the preconditions of a launch
  (app/runs/service.py).

  The view looks for the comment of the relation, `sshd` for the key.  The file may be
  edited by hand, so a line with the comment may carry any key, and what the view takes
  for a line may be the rest of a remark: `splitlines` cuts at more than newlines.

  What `sshd` does with a line is a function (`Accepts`), and the form of the lines it
  takes for those of a key a relation (`LineOf`); the two agree (`accepts_iff`).  The view
  is right exactly where no line is recognised or a whole line of that form stands in the
  file, and so wherever the line of a start has been left alone (`trust_view_iff`).
-/
import SeapathWebui.Runs.Launch
import SeapathWebui.Trust.Keys

set_option autoImplicit false

namespace SeapathWebui.Trust

open SeapathWebui.Foundation SeapathWebui.Foundation.Text SeapathWebui.Inventory

/-! ## What `sshd` accepts

A line is empty, a remark, or a key after options: `options keytype key comment`, where
the options may be missing and have blanks only between double quotes. -/

/-- A blank of the file. -/
def isBlank (c : Char) : Bool := c == ' ' || c == '\t'

/-- What follows the options. -/
def pastOptions (quoted : Bool) : List Char → List Char
  | [] => []
  | '\\' :: '"' :: rest => pastOptions quoted rest
  | '"' :: rest => pastOptions (!quoted) rest
  | c :: rest => if !quoted && isBlank c then c :: rest else pastOptions quoted rest

/-- The first word, and what follows it. -/
def word (l : List Char) : List Char × List Char :=
  (l.takeWhile (!isBlank ·), (l.dropWhile (!isBlank ·)).dropWhile isBlank)

/-- The type and the key at the beginning of a line. -/
def keyAt (l : List Char) : List Char × List Char := ((word l).1, (word (word l).2).1)

/-- `sshd` takes the line for one of the key. -/
def Accepts (line publicKey : String) : Prop :=
  let l := line.toList.dropWhile isBlank
  let key := keyAt publicKey.toList
  key.2 ≠ [] ∧ l.head? ≠ some '#' ∧
    (keyAt l = key ∨ keyAt ((pastOptions false l).dropWhile isBlank) = key)

instance (line publicKey : String) : Decidable (Accepts line publicKey) :=
  inferInstanceAs (Decidable (_ ∧ _ ∧ _))

/-- A line of the file ends in the comment, and `sshd` takes it for one of the key. -/
def Backed (text comment publicKey : String) : Prop :=
  ∃ line ∈ split '\n' text, (fields line).getLast? = some comment ∧ Accepts line publicKey

instance (text comment publicKey : String) : Decidable (Backed text comment publicKey) :=
  List.decidableBEx _ _

/-! ## The view -/

/-- `installed` -/
def installed (text : String) : List String :=
  ((readLines text).filterMap commentOf).filter fun comment =>
    comment ≠ "" ∧ commentPrefix.toList.isPrefixOf comment.toList

variable {σ : Type}

/-- The relation of the node with itself, as the view has it. -/
def viewedRelation (text hostname print : String) : TrustRelation :=
  let present := installed text
  let comment := selfComment hostname
  { comment := comment
    peer := hostname
    kind := "self"
    fingerprint := print
    fromAddresses := []
    installed := present.contains comment }

/-- `TrustService.relations`, from the text of the file, whether the private key is there,
and the text of its public half. -/
def relations (digest : List Nat → String) (privateKey : Bool) (keyFile text hostname : String) :
    Except (Exc σ) (List TrustRelation) :=
  if privateKey = false then .ok []
  else
    (fingerprint digest (publicKeyOf keyFile)).map fun print => [viewedRelation text hostname print]

/-- What a launch asks of the relations: `relations and relations[0].installed`. -/
def selfTrusted (relations : List TrustRelation) : Bool :=
  match relations with
  | [] => false
  | relation :: _ => relation.installed

/-- What is reported of a pair that is there. -/
theorem relations_eq_ok {digest : List Nat → String} {keyFile text hostname print : String}
    (h : (fingerprint digest (publicKeyOf keyFile) : Except (Exc σ) String) = .ok print) :
    (relations digest true keyFile text hostname : Except (Exc σ) _) =
      .ok [viewedRelation text hostname print] := by
  unfold relations
  simp only [h, Bool.true_eq_false, if_false]
  rfl

theorem commentOf_eq_some {line comment : String} (h : commentOf line = some comment) :
    comment ≠ "" ∧ commentPrefix.toList.isPrefixOf comment.toList = true := by
  unfold commentOf at h
  simp only at h
  split at h
  · cases h
  · have hprefix := (Option.filter_eq_some_iff.mp h).2
    refine ⟨fun hempty => ?_, hprefix⟩
    rw [hempty] at hprefix
    exact absurd hprefix (by decide)

theorem mem_installed {text comment : String} :
    comment ∈ installed text ↔ ∃ line ∈ readLines text, commentOf line = some comment := by
  rw [installed, List.mem_filter, List.mem_filterMap]
  constructor
  · exact fun h => h.1
  · rintro ⟨line, hline, hcomment⟩
    exact ⟨⟨line, hline, hcomment⟩, decide_eq_true (commentOf_eq_some hcomment)⟩

theorem installed_viewedRelation {text hostname print : String} :
    (viewedRelation text hostname print).installed = true ↔
      ∃ line ∈ readLines text, commentOf line = some (selfComment hostname) := by
  simp only [viewedRelation, List.contains_iff_mem, mem_installed]

/-- A launch misses the self trust exactly where the relations do not claim it. -/
theorem selfTrust_unmet_iff {state : InventoryState} {trusted : Bool} :
    Runs.Precondition.selfTrust ∈ (Runs.unmetPreconditions state trusted).map (·.1) ↔
      trusted = false := by
  unfold Runs.unmetPreconditions
  simp only [List.map_append, List.mem_append]
  constructor
  · rintro (((h | h) | h) | h)
    · split at h
      · simp at h
      · split at h <;> simp at h
    · cases trusted with
      | true => simp at h
      | false => rfl
    · split at h <;> simp at h
    · split at h <;> simp at h
  · rintro rfl
    exact .inl (.inl (.inr (by simp)))

/-! ## The form of a line -/

/-- Blanks. -/
def Gap (l : List Char) : Prop := ∀ c ∈ l, isBlank c = true

instance (l : List Char) : Decidable (Gap l) := List.decidableBAll _ _

/-- A word: characters that are no blanks. -/
def Word (l : List Char) : Prop := l ≠ [] ∧ ∀ c ∈ l, isBlank c = false

/-- A type and a key, and what follows set off. -/
inductive KeyFirst (kind blob : List Char) : List Char → Prop
  | mk {gap rest : List Char} (hkind : Word kind) (hgap : Gap gap) (hne : gap ≠ [])
      (hblob : Word blob) (hrest : rest.head?.all isBlank = true) :
      KeyFirst kind blob (kind ++ (gap ++ (blob ++ rest)))

/-- Options, read from between two quotes where `quoted`: every quote has its partner, blanks
stand between quotes only, and a quote after a backslash is none. -/
inductive Options : Bool → List Char → Prop
  | nil : Options false []
  | escaped {quoted : Bool} {l : List Char} : Options quoted l → Options quoted ('\\' :: '"' :: l)
  | quote {quoted : Bool} {l : List Char} : Options (!quoted) l → Options quoted ('"' :: l)
  | char {quoted : Bool} {c : Char} {l : List Char} (hquote : c ≠ '"')
      (hescape : c = '\\' → l.head? ≠ some '"') (hblank : quoted = true ∨ isBlank c = false) :
      Options quoted l → Options quoted (c :: l)

/-- A line of the key: it comes first, or after options. -/
inductive LineOf (kind blob : List Char) : List Char → Prop
  | bare {lead l : List Char} (hlead : Gap lead) (hhash : l.head? ≠ some '#')
      (hkey : KeyFirst kind blob l) : LineOf kind blob (lead ++ l)
  | options {lead options gap l : List Char} (hlead : Gap lead) (hoptions : Options false options)
      (hsome : options ≠ []) (hhash : options.head? ≠ some '#') (hgap : Gap gap) (hne : gap ≠ [])
      (hkey : KeyFirst kind blob l) : LineOf kind blob (lead ++ (options ++ (gap ++ l)))

theorem takeWhile_word {l rest : List Char} (h : ∀ c ∈ l, isBlank c = false)
    (hrest : rest.head?.all isBlank = true) : (l ++ rest).takeWhile (!isBlank ·) = l := by
  rw [List.takeWhile_append_of_pos fun c hc => by rw [h c hc]; rfl]
  cases rest with
  | nil => simp
  | cons c rest => simp_all

theorem dropWhile_word {l rest : List Char} (h : ∀ c ∈ l, isBlank c = false)
    (hrest : rest.head?.all isBlank = true) : (l ++ rest).dropWhile (!isBlank ·) = rest := by
  rw [List.dropWhile_append_of_pos fun c hc => by rw [h c hc]; rfl]
  cases rest with
  | nil => rfl
  | cons c rest => simp_all

/-- Blanks are skipped up to a word. -/
theorem dropWhile_gap {gap l : List Char} (h : Gap gap) (hl : l.head?.all (!isBlank ·) = true) :
    (gap ++ l).dropWhile isBlank = l := by
  rw [List.dropWhile_append_of_pos h]
  cases l with
  | nil => rfl
  | cons c l => simp_all

theorem head?_dropWhile_all (p : Char → Bool) (l : List Char) :
    (l.dropWhile p).head?.all (!p ·) = true := by
  have hstop := List.head?_dropWhile_not p l
  cases h : (l.dropWhile p).head? with
  | none => rfl
  | some c =>
      rw [h] at hstop
      simpa using hstop

theorem head?_append_gap {gap : List Char} (h : Gap gap) (hne : gap ≠ []) (l : List Char) :
    (gap ++ l).head?.all isBlank = true := by
  cases gap with
  | nil => exact absurd rfl hne
  | cons c gap => simpa using h c List.mem_cons_self

theorem head?_append_word {text : List Char} (h : Word text) (l : List Char) :
    (text ++ l).head?.all (!isBlank ·) = true := by
  cases htext : text with
  | nil => exact absurd htext h.1
  | cons c rest => simpa using h.2 c (by rw [htext]; exact List.mem_cons_self)

/-- A text that begins with a blank and with none is empty. -/
theorem eq_nil_of_head? {l : List Char} (hblank : l.head?.all isBlank = true)
    (hnone : l.head?.all (!isBlank ·) = true) : l = [] := by
  cases l with
  | nil => rfl
  | cons c l => simp_all

theorem KeyFirst.head? {kind blob l : List Char} (h : KeyFirst kind blob l) :
    l.head?.all (!isBlank ·) = true := by
  obtain ⟨hkind, -, -, -, -⟩ := h
  exact head?_append_word hkind _

theorem KeyFirst.blob_ne_nil {kind blob l : List Char} (h : KeyFirst kind blob l) : blob ≠ [] := by
  obtain ⟨-, -, -, hblob, -⟩ := h
  exact hblob.1

theorem KeyFirst.ne_nil {kind blob l : List Char} (h : KeyFirst kind blob l) : l ≠ [] := by
  obtain ⟨hkind, -, -, -, -⟩ := h
  exact List.append_ne_nil_of_left_ne_nil hkind.1 _

/-- What begins with a type and a key is read so, and nothing else is. -/
theorem keyAt_eq_iff {kind blob l : List Char} (hl : l.head?.all (!isBlank ·) = true)
    (hblob : blob ≠ []) : keyAt l = (kind, blob) ↔ KeyFirst kind blob l := by
  constructor
  · intro h
    let tail := l.dropWhile (!isBlank ·)
    let key := tail.dropWhile isBlank
    obtain ⟨hkind, hkey⟩ : l.takeWhile (!isBlank ·) = kind ∧ key.takeWhile (!isBlank ·) = blob :=
      Prod.mk.inj h
    have htail : tail.head?.all isBlank = true := by
      simpa using head?_dropWhile_all (!isBlank ·) l
    have hstart : key.head?.all (!isBlank ·) = true := head?_dropWhile_all isBlank tail
    have hrest : (key.dropWhile (!isBlank ·)).head?.all isBlank = true := by
      simpa using head?_dropWhile_all (!isBlank ·) key
    have hwords : ∀ text : List Char, ∀ c ∈ text.takeWhile (!isBlank ·), isBlank c = false :=
      fun text c hc => by simpa using List.mem_takeWhile_imp hc
    have hsplit : l = kind ++ (tail.takeWhile isBlank ++ (blob ++ key.dropWhile (!isBlank ·))) := by
      rw [← hkey, List.takeWhile_append_dropWhile, List.takeWhile_append_dropWhile, ← hkind,
        List.takeWhile_append_dropWhile]
    -- without a gap, or without a type, nothing is left for the key
    have hnone : key = [] → blob = [] := fun hnil => by rw [← hkey, hnil]; rfl
    have hgap : tail.takeWhile isBlank ≠ [] := by
      intro hnil
      have hsame : tail = key := by
        have happend := List.takeWhile_append_dropWhile (p := isBlank) (l := tail)
        rwa [hnil, List.nil_append, eq_comm] at happend
      exact hblob (hnone (eq_nil_of_head? (hsame ▸ htail) hstart))
    have hsome : kind ≠ [] := by
      rintro rfl
      have hsame : tail = l := by
        have happend := List.takeWhile_append_dropWhile (p := (!isBlank ·)) (l := l)
        rwa [hkind, List.nil_append] at happend
      have hnil : tail = [] := eq_nil_of_head? htail (hsame ▸ hl)
      exact hgap (by rw [hnil]; rfl)
    rw [hsplit]
    exact .mk ⟨hsome, hkind ▸ hwords l⟩ (fun c hc => List.mem_takeWhile_imp hc) hgap
      ⟨hblob, hkey ▸ hwords key⟩ hrest
  · rintro ⟨hkind, hgap, hne, hword, hrest⟩
    rename_i gap rest
    have hgaps := head?_append_gap hgap hne (blob ++ rest)
    have hkeys := head?_append_word hword rest
    simp only [keyAt, word, takeWhile_word hkind.2 hgaps, dropWhile_word hkind.2 hgaps,
      dropWhile_gap hgap hkeys, takeWhile_word hword.2 hrest]

/-- What follows options is what is left of the line when they are read. -/
theorem pastOptions_of_options {quoted : Bool} {options : List Char}
    (h : Options quoted options) {c : Char} (hc : isBlank c = true) (rest : List Char) :
    pastOptions quoted (options ++ c :: rest) = c :: rest := by
  have hblanks : isBlank '\\' = false ∧ isBlank '"' = false := by decide
  induction h with
  | nil =>
      rw [List.nil_append, pastOptions]
      · simp [hc]
      · rintro rest' rfl -
        rw [hblanks.1] at hc
        cases hc
      · rintro rfl
        rw [hblanks.2] at hc
        cases hc
  | escaped _ ih => rw [List.cons_append, List.cons_append, pastOptions, ih]
  | quote _ ih => rw [List.cons_append, pastOptions, ih]
  | @char quoted d l hquote hescape hblank _ ih =>
      rw [List.cons_append, pastOptions, ih]
      · rcases hblank with rfl | hblank
        · simp
        · simp [hblank]
      · rintro rest' rfl heq
        cases l with
        | nil =>
            obtain ⟨rfl, -⟩ := List.cons.inj heq
            rw [hblanks.2] at hc
            cases hc
        | cons e l =>
            obtain ⟨rfl, -⟩ := List.cons.inj heq
            exact hescape rfl rfl
      · exact hquote

/-- What is skipped are options, and a blank ends them. -/
theorem options_of_pastOptions {quoted : Bool} {l : List Char} {c : Char} {rest : List Char}
    (h : pastOptions quoted l = c :: rest) :
    ∃ options, l = options ++ c :: rest ∧ Options quoted options ∧ isBlank c = true := by
  fun_induction pastOptions quoted l with
  | case1 quoted => cases h
  | case2 quoted l ih =>
      obtain ⟨options, rfl, hoptions, hc⟩ := ih h
      exact ⟨_, rfl, .escaped hoptions, hc⟩
  | case3 quoted l ih =>
      obtain ⟨options, rfl, hoptions, hc⟩ := ih h
      exact ⟨_, rfl, .quote hoptions, hc⟩
  | case4 quoted d l hescape hquote hstop =>
      obtain ⟨rfl, rfl⟩ := List.cons.inj h
      obtain ⟨hquoted, hblank⟩ := Bool.and_eq_true_iff.mp hstop
      obtain rfl : quoted = false := by simpa using hquoted
      exact ⟨[], rfl, .nil, hblank⟩
  | case5 quoted d l hescape hquote hgo ih =>
      obtain ⟨options, rfl, hoptions, hc⟩ := ih h
      refine ⟨d :: options, rfl, .char hquote ?_ ?_ hoptions, hc⟩
      · rintro rfl hhead
        obtain ⟨more, rfl⟩ := List.head?_eq_some_iff.mp hhead
        exact hescape _ rfl rfl
      · cases quoted with
        | true => exact .inl rfl
        | false => exact .inr (by simpa using hgo)

/-- No options begin with a blank. -/
theorem head?_options {options : List Char} (h : Options false options) (hsome : options ≠ [])
    (l : List Char) : (options ++ l).head?.all (!isBlank ·) = true := by
  cases h with
  | nil => exact absurd rfl hsome
  | escaped _ => rfl
  | quote _ => rfl
  | char _ _ hblank _ => simpa using hblank

/-- A line whose key comes first where its options end. -/
theorem LineOf.of_pastOptions {kind blob lead l : List Char} (hlead : Gap lead)
    (hstart : l.head?.all (!isBlank ·) = true) (hhash : l.head? ≠ some '#')
    (h : KeyFirst kind blob ((pastOptions false l).dropWhile isBlank)) :
    LineOf kind blob (lead ++ l) := by
  cases hpast : pastOptions false l with
  | nil =>
      rw [hpast] at h
      exact absurd rfl h.ne_nil
  | cons c rest =>
      obtain ⟨options, rfl, hoptions, hc⟩ := options_of_pastOptions hpast
      rw [hpast] at h
      have hgap : Gap ((c :: rest).takeWhile isBlank) := fun d hd => List.mem_takeWhile_imp hd
      have hne : (c :: rest).takeWhile isBlank ≠ [] := by simp [hc]
      have hsome : options ≠ [] := by
        rintro rfl
        simp [hc] at hstart
      have hfirst : options.head? ≠ some '#' := by
        cases options with
        | nil => exact absurd rfl hsome
        | cons d more => exact hhash
      rw [← List.takeWhile_append_dropWhile (p := isBlank) (l := c :: rest)]
      exact .options hlead hoptions hsome hfirst hgap hne h

/-- Past the options and the blanks after them is the key. -/
theorem dropWhile_pastOptions {kind blob options gap l : List Char}
    (hoptions : Options false options) (hgap : Gap gap) (hne : gap ≠ [])
    (h : KeyFirst kind blob l) :
    (pastOptions false (options ++ (gap ++ l))).dropWhile isBlank = l := by
  obtain ⟨c, blanks, rfl⟩ := List.exists_cons_of_ne_nil hne
  rw [List.cons_append, pastOptions_of_options hoptions (hgap c List.mem_cons_self),
    ← List.cons_append, dropWhile_gap hgap h.head?]

/-- **`sshd` takes for a line of the key what has the form of one.** -/
theorem accepts_iff {line publicKey : String} : Accepts line publicKey ↔
    LineOf (keyAt publicKey.toList).1 (keyAt publicKey.toList).2 line.toList := by
  generalize hkey : keyAt publicKey.toList = key
  obtain ⟨kind, blob⟩ := key
  unfold Accepts
  simp only [hkey]
  constructor
  · rintro ⟨hblob, hhash, hread⟩
    have hlead : Gap (line.toList.takeWhile isBlank) := fun c hc => List.mem_takeWhile_imp hc
    have hstart := head?_dropWhile_all isBlank line.toList
    rw [← List.takeWhile_append_dropWhile (p := isBlank) (l := line.toList)]
    rcases hread with hbare | hafter
    · exact .bare hlead hhash ((keyAt_eq_iff hstart hblob).mp hbare)
    · exact .of_pastOptions hlead hstart hhash
        ((keyAt_eq_iff (head?_dropWhile_all isBlank _) hblob).mp hafter)
  · intro h
    generalize line.toList = text at h
    rcases h with ⟨hlead, hhash, hfirst⟩ | ⟨hlead, hoptions, hsome, hhash, hgap, hne, hfirst⟩
    · have hblob := hfirst.blob_ne_nil
      rw [dropWhile_gap hlead hfirst.head?]
      exact ⟨hblob, hhash, .inl ((keyAt_eq_iff hfirst.head? hblob).mpr hfirst)⟩
    · rename_i lead options gap l
      have hblob := hfirst.blob_ne_nil
      rw [dropWhile_gap hlead (head?_options hoptions hsome _)]
      refine ⟨hblob, ?_, .inr ?_⟩
      · cases options with
        | nil => exact absurd rfl hsome
        | cons d more => exact hhash
      · rw [dropWhile_pastOptions hoptions hgap hne hfirst]
        exact (keyAt_eq_iff hfirst.head? hblob).mpr hfirst

/-! ## A line of the service -/

theorem isBlank_eq_false {c : Char} (h : isSpace c = false) : isBlank c = false := by
  cases hblank : isBlank c with
  | false => rfl
  | true =>
      have hspace : isSpace ' ' = true ∧ isSpace '\t' = true := by decide
      rcases Bool.or_eq_true_iff.mp hblank with hc | hc
      · rw [beq_iff_eq.mp hc, hspace.1] at h
        cases h
      · rw [beq_iff_eq.mp hc, hspace.2] at h
        cases h

theorem word_of_noSpace {s : String} (h : NoSpace s) (hne : s ≠ "") : Word s.toList :=
  ⟨by simpa using hne, fun c hc => isBlank_eq_false (h c hc)⟩

/-- A text without quotes and backslashes. -/
def Unquoted (s : String) : Prop := ∀ c ∈ s.toList, c ≠ '"' ∧ c ≠ '\\'

instance (s : String) : Decidable (Unquoted s) := List.decidableBAll _ _

/-- Characters that are no quotes and no backslashes, nor blanks outside of quotes. -/
theorem options_append {quoted : Bool} {text options : List Char}
    (h : ∀ c ∈ text, (c ≠ '"' ∧ c ≠ '\\') ∧ (quoted = true ∨ isBlank c = false))
    (hoptions : Options quoted options) : Options quoted (text ++ options) := by
  induction text with
  | nil => exact hoptions
  | cons c text ih =>
      obtain ⟨⟨hquote, hescape⟩, hblank⟩ := h c List.mem_cons_self
      exact .char hquote (fun heq => absurd heq hescape) hblank
        (ih fun d hd => h d (List.mem_cons_of_mem _ hd))

/-- The options of the service are options. -/
theorem options_render {key : AuthorizedKey} (h : ∀ a ∈ key.fromAddresses, Unquoted a) :
    Options false key.options.toList := by
  have hplain : ∀ text ∈ ["restrict", "from=", ",restrict"], ∀ c ∈ text.toList,
      (c ≠ '"' ∧ c ≠ '\\') ∧ (false = true ∨ isBlank c = false) := by
    intro text htext c hc
    have hall : ∀ text ∈ ["restrict", "from=", ",restrict"],
        Unquoted text ∧ text.toList.any isBlank = false := by decide
    obtain ⟨hquote, hblank⟩ := hall text htext
    exact ⟨hquote c hc, .inr (Bool.eq_false_iff.mpr (List.any_eq_false.mp hblank c hc))⟩
  have hcomma : Unquoted "," := by decide
  have hjoined : Unquoted (",".intercalate key.fromAddresses) := forall_mem_intercalate hcomma h
  by_cases hnone : key.fromAddresses = []
  · have hoptions : key.options = "restrict" := by simp [AuthorizedKey.options, hnone]
    have hall := options_append (hplain "restrict" (by simp)) .nil
    rw [List.append_nil] at hall
    exact hoptions ▸ hall
  · have hoptions : key.options.toList = "from=".toList ++ '"' ::
        ((",".intercalate key.fromAddresses).toList ++ '"' :: (",restrict".toList ++ [])) := by
      simp [AuthorizedKey.options, hnone]
    rw [hoptions]
    refine options_append (hplain "from=" (by simp)) (.quote ?_)
    refine options_append (fun c hc => ⟨hjoined c hc, .inl rfl⟩) (.quote ?_)
    exact options_append (hplain ",restrict" (by simp)) .nil

/-- A line that the service writes has the form of one of the key. -/
theorem lineOf_render {key : AuthorizedKey} {kind blob : String}
    (hkey : TypeAndBlob key.publicKey kind blob) (hquote : ∀ a ∈ key.fromAddresses, Unquoted a) :
    LineOf kind.toList blob.toList key.render.toList := by
  obtain ⟨c, hhead, hspace, hhash⟩ := head_options key
  have hline : key.render.toList = [] ++ (key.options.toList ++
      ([' '] ++ (kind.toList ++ ([' '] ++ (blob.toList ++ ' ' :: key.comment.toList))))) := by
    simp [AuthorizedKey.render, hkey.eq]
  have hgap : Gap [' '] := by decide
  rw [hline]
  refine .options (by rintro _ ⟨⟩) (options_render hquote) (by rintro hnil; simp [hnil] at hhead)
    (by rw [hhead]; simpa using hhash) hgap (by simp) ?_
  exact .mk (word_of_noSpace hkey.kind.1 hkey.kind.2) hgap (by simp)
    (word_of_noSpace hkey.blob.1 hkey.blob.2) rfl

/-- The key of the pair, as `sshd` has it. -/
theorem keyAt_publicKey {publicKey kind blob : String} (h : TypeAndBlob publicKey kind blob) :
    keyAt publicKey.toList = (kind.toList, blob.toList) := by
  have hgap : Gap [' '] := by decide
  have hfirst : KeyFirst kind.toList blob.toList publicKey.toList := by
    have hall : KeyFirst kind.toList blob.toList
        (kind.toList ++ ([' '] ++ (blob.toList ++ []))) :=
      .mk (word_of_noSpace h.kind.1 h.kind.2) hgap (by simp)
        (word_of_noSpace h.blob.1 h.blob.2) rfl
    simpa [h.eq] using hall
  exact (keyAt_eq_iff hfirst.head? hfirst.blob_ne_nil).mpr hfirst

/-! ## The claim of the view -/

/-- No line of the file is recognised by the comment. -/
def Unclaimed (text comment : String) : Prop :=
  ∀ line ∈ readLines text, commentOf line ≠ some comment

/-- A whole line of the file has the form of one of the key, and ends in the comment. -/
def Current (text comment publicKey : String) : Prop :=
  ∃ line ∈ split '\n' text, (fields line).getLast? = some comment ∧
    LineOf (keyAt publicKey.toList).1 (keyAt publicKey.toList).2 line.toList

theorem backed_iff {text comment publicKey : String} :
    Backed text comment publicKey ↔ Current text comment publicKey :=
  exists_congr fun _ => and_congr_right fun _ => and_congr_right fun _ => accepts_iff

/-- What the view claims of a pair that is there, and what a launch takes for granted by it,
`sshd` accepts. -/
def ViewRight (digest : List Nat → String) (keyFile text hostname : String) : Prop :=
  ∀ provisioned,
    (relations digest true keyFile text hostname : Except (Exc MissingAccount) _) =
        .ok provisioned →
      (∀ relation ∈ provisioned, relation.installed = true →
        Backed text relation.comment (publicKeyOf keyFile)) ∧
      ∀ state, Runs.Precondition.selfTrust ∉
          (Runs.unmetPreconditions state (selfTrusted provisioned)).map (·.1) →
        Backed text (selfComment hostname) (publicKeyOf keyFile)

theorem viewRight_iff {digest : List Nat → String} {keyFile text hostname : String}
    (hpair : HasBlob (publicKeyOf keyFile)) :
    ViewRight digest keyFile text hostname ↔
      Unclaimed text (selfComment hostname) ∨
        Backed text (selfComment hostname) (publicKeyOf keyFile) := by
  obtain ⟨field, hfield, hblob⟩ := hpair
  obtain ⟨bytes, hbytes⟩ := Option.isSome_iff_exists.mp hblob
  have hrelations : (relations digest true keyFile text hostname : Except (Exc MissingAccount) _) =
      .ok [viewedRelation text hostname ("SHA256:" ++ digest bytes)] := by
    refine relations_eq_ok ?_
    simp only [fingerprint, hfield, hbytes]
  constructor
  · intro hright
    by_cases hsome : ∃ line ∈ readLines text, commentOf line = some (selfComment hostname)
    · obtain ⟨hview, -⟩ := hright _ hrelations
      exact .inr (hview _ (List.mem_singleton_self _) (installed_viewedRelation.mpr hsome))
    · exact .inl fun line hline hcomment => hsome ⟨line, hline, hcomment⟩
  · intro hcondition provisioned hprovisioned
    obtain rfl := Except.ok.inj (hrelations.symm.trans hprovisioned)
    have hbacked : ∀ {print}, (viewedRelation text hostname print).installed = true →
        Backed text (selfComment hostname) (publicKeyOf keyFile) := by
      intro print hinstalled
      obtain ⟨line, hline, hcomment⟩ := installed_viewedRelation.mp hinstalled
      exact hcondition.resolve_left fun hnone => hnone line hline hcomment
    refine ⟨fun relation hrelation hinstalled => ?_, fun state hmet => ?_⟩
    · obtain rfl := List.mem_singleton.mp hrelation
      exact hbacked hinstalled
    · have hinstalled := mt selfTrust_unmet_iff.mpr hmet
      rw [Bool.not_eq_false] at hinstalled
      exact hbacked hinstalled

/-- The line of a start for the pair is current, whatever stands around it. -/
theorem current_of_start {keyFile text kind blob : String} {start : Start}
    (hkey : TypeAndBlob (publicKeyOf keyFile) kind blob) (hplain : start.Plain)
    (hquote : ∀ address ∈ start.addresses, Unquoted address)
    (hline : (start.key (publicKeyOf keyFile)).render ∈ split '\n' text) :
    Current text (selfComment start.hostname) (publicKeyOf keyFile) := by
  have hkeys : ∀ a ∈ (start.key (publicKeyOf keyFile)).fromAddresses, Unquoted a := by
    intro a ha
    rcases mem_restrictionAddresses.mp ha with ⟨hmem, -⟩ | hloopback
    · exact hquote a hmem
    · have hall : ∀ a ∈ loopback, Unquoted a := by decide
      exact hall a hloopback
  refine ⟨_, hline, ?_, ?_⟩
  · rw [fields_render (plain_key hkey hplain), List.getLast?_concat]
    rfl
  · rw [keyAt_publicKey hkey]
    exact @lineOf_render (start.key (publicKeyOf keyFile)) _ _ hkey hkeys

/-- An installation that writes the file leaves its line there. -/
theorem render_mem_of_install {key : AuthorizedKey} {before text : String} (hplain : key.Plain)
    (h : install before key = some text) : key.render ∈ split '\n' text := by
  have hwritten : text = joinLines (keptLines key (readLines before) ++ [key.render]) := by
    unfold install rewrite at h
    split at h
    · cases h
    · exact (Option.some.inj h).symm
  have hlines : ∀ line ∈ keptLines key (readLines before) ++ [key.render], '\n' ∉ line.toList := by
    intro line hline
    rcases List.mem_append.mp hline with hkept | hnew
    · exact newline_not_mem_of_oneLine (oneLine_of_mem_readLines (List.mem_filter.mp hkept).1)
    · rw [List.mem_singleton.mp hnew]
      exact newline_not_mem_of_oneLine (oneLine_render hplain)
  rw [hwritten, split_joinLines hlines]
  simp

/-- After a start that writes the file the view is right. -/
theorem viewRight_of_install {digest : List Nat → String} {keyFile before text kind blob : String}
    {start : Start} (hpair : HasBlob (publicKeyOf keyFile))
    (hkey : TypeAndBlob (publicKeyOf keyFile) kind blob) (hplain : start.Plain)
    (hquote : ∀ address ∈ start.addresses, Unquoted address)
    (h : install before (start.key (publicKeyOf keyFile)) = some text) :
    ViewRight digest keyFile text start.hostname := by
  have hline := render_mem_of_install (plain_key hkey hplain) h
  exact (viewRight_iff hpair).mpr
    (.inr (backed_iff.mpr (current_of_start hkey hplain hquote hline)))

/-- **What the view says, and with it a launch, is what `sshd` accepts exactly if no line is
recognised by the comment of the relation or a whole line of the pair's key ends in it; and so it
is in every file where the line of a start for the pair stands, whatever else was edited.** -/
theorem trust_view_iff {digest : List Nat → String} {keyFile text hostname : String}
    (hpair : HasBlob (publicKeyOf keyFile)) :
    (ViewRight digest keyFile text hostname ↔
      Unclaimed text (selfComment hostname) ∨
        Current text (selfComment hostname) (publicKeyOf keyFile)) ∧
    ∀ kind blob (start : Start), TypeAndBlob (publicKeyOf keyFile) kind blob → start.Plain →
      (∀ address ∈ start.addresses, Unquoted address) → start.hostname = hostname →
      (start.key (publicKeyOf keyFile)).render ∈ split '\n' text →
        ViewRight digest keyFile text hostname := by
  have hiff : ViewRight digest keyFile text hostname ↔ Unclaimed text (selfComment hostname) ∨
      Current text (selfComment hostname) (publicKeyOf keyFile) := by
    rw [viewRight_iff hpair, backed_iff]
  refine ⟨hiff, ?_⟩
  rintro kind blob start hkey hplain hquote rfl hline
  exact hiff.mpr (.inr (current_of_start hkey hplain hquote hline))

/-- The line of a pair that is no longer there. -/
def staleText : String := "restrict ssh-ed25519 AAAB seapath-webui:n1->n1\n"

/-- The pair was replaced and the line is the old one's: a launch takes the trust for granted. -/
theorem stale_line_claimed :
    ∃ provisioned,
      (relations (fun _ => "x") true "ssh-ed25519 AAAA\n" staleText "n1" :
          Except (Exc MissingAccount) _) = .ok provisioned ∧
        (∃ relation ∈ provisioned, relation.installed = true ∧
          ¬ Backed staleText relation.comment (publicKeyOf "ssh-ed25519 AAAA\n")) ∧
        Runs.Precondition.selfTrust ∉
          (Runs.unmetPreconditions {} (selfTrusted provisioned)).map (·.1) := by
  have hprint : (fingerprint (fun _ => "x") (publicKeyOf "ssh-ed25519 AAAA\n") :
      Except (Exc MissingAccount) String) = .ok "SHA256:x" := by decide +kernel
  have hclaimed : (viewedRelation staleText "n1" "SHA256:x").installed = true := by
    decide +kernel
  have hstale : ¬ Backed staleText (selfComment "n1") (publicKeyOf "ssh-ed25519 AAAA\n") := by
    decide +kernel
  have hmet : Runs.Precondition.selfTrust ∉ (Runs.unmetPreconditions {}
      (viewedRelation staleText "n1" "SHA256:x").installed).map (·.1) := by
    rw [selfTrust_unmet_iff, hclaimed]
    decide
  exact ⟨[viewedRelation staleText "n1" "SHA256:x"], relations_eq_ok hprint,
    ⟨_, List.mem_singleton_self _, hclaimed, hstale⟩, hmet⟩

theorem trust_view_stale :
    (ViewRight (fun _ => "x") "ssh-ed25519 AAAA\n" staleText "n1" ↔
      Unclaimed staleText (selfComment "n1") ∨
        Current staleText (selfComment "n1") (publicKeyOf "ssh-ed25519 AAAA\n")) ∧
    ∀ kind blob (start : Start), TypeAndBlob (publicKeyOf "ssh-ed25519 AAAA\n") kind blob →
      start.Plain → (∀ address ∈ start.addresses, Unquoted address) → start.hostname = "n1" →
      (start.key (publicKeyOf "ssh-ed25519 AAAA\n")).render ∈ split '\n' staleText →
        ViewRight (fun _ => "x") "ssh-ed25519 AAAA\n" staleText "n1" := by
  have hkey : publicKeyOf "ssh-ed25519 AAAA\n" = "ssh-ed25519 AAAA" := by decide +kernel
  have hpair : HasBlob (publicKeyOf "ssh-ed25519 AAAA\n") := by
    rw [hkey]
    decide +kernel
  exact trust_view_iff hpair

end SeapathWebui.Trust
