/-
  Foundation/Text.lean --- the text operations of the source's language.

  Strings there are sequences of code points.  The operations below follow its
  documented behaviour over all of Unicode: `strip` removes every character of
  the white space class, and the integer reader accepts surrounding white space,
  a sign, single underscores between digits and the decimal digits of every
  script, up to the interpreter's limit on the number of digits.
-/
import Mathlib.Data.List.Dedup
import Mathlib.Data.List.DropRight
import Mathlib.Data.List.Forall2
import Mathlib.Data.List.Infix
import Mathlib.Data.List.Sort
import Mathlib.Data.List.TakeWhile
import Mathlib.Data.String.Basic
import SeapathWebui.Foundation.Trimming

set_option autoImplicit false

namespace SeapathWebui.Foundation.Text

/-! ## White space -/

/-- The characters for which `str.isspace()` holds. -/
def isSpace (c : Char) : Bool :=
  let n := c.toNat
  (0x9 ≤ n && n ≤ 0xD) || (0x1C ≤ n && n ≤ 0x20) || n == 0x85 || n == 0xA0 ||
    n == 0x1680 || (0x2000 ≤ n && n ≤ 0x200A) || n == 0x2028 || n == 0x2029 ||
    n == 0x202F || n == 0x205F || n == 0x3000

/-- `str.strip()` on the characters. -/
def stripChars (l : List Char) : List Char := (l.dropWhile isSpace).rdropWhile isSpace

/-- `str.strip()`. -/
def strip (s : String) : String := String.ofList (stripChars s.toList)

/-- Text without white space is its own strip. -/
theorem stripChars_eq_self {l : List Char} (h : ∀ c ∈ l, isSpace c = false) :
    stripChars l = l := trimBoth_eq_self h

theorem strip_eq_self {s : String} (h : ∀ c ∈ s.toList, isSpace c = false) :
    strip s = s := by
  rw [strip, stripChars_eq_self h, String.ofList_toList]

/-- White space around a text is stripped with it. -/
theorem stripChars_append {before l after : List Char} (hbefore : ∀ c ∈ before, isSpace c = true)
    (hafter : ∀ c ∈ after, isSpace c = true) :
    stripChars (before ++ l ++ after) = stripChars l := trimBoth_append hbefore hafter l

theorem strip_append {before s after : String} (hbefore : ∀ c ∈ before.toList, isSpace c = true)
    (hafter : ∀ c ∈ after.toList, isSpace c = true) :
    strip (before ++ s ++ after) = strip s := by
  rw [strip, String.toList_append, String.toList_append, stripChars_append hbefore hafter, strip]

/-- A first character that is not white space stays the first one. -/
theorem toList_strip {c : Char} {rest : List Char} {s : String}
    (hs : s.toList = c :: rest) (hc : isSpace c = false) :
    ∃ rest', (strip s).toList = c :: rest' := by
  rw [strip, String.toList_ofList, stripChars, hs, List.dropWhile_cons_of_neg (by simp [hc])]
  obtain ⟨dropped, hdropped⟩ := List.rdropWhile_prefix isSpace (c :: rest)
  cases hkept : (c :: rest).rdropWhile isSpace with
  | nil =>
      have hall := List.rdropWhile_eq_nil_iff.mp hkept
      simp [hall c List.mem_cons_self] at hc
  | cons d kept =>
      rw [hkept, List.cons_append] at hdropped
      exact ⟨kept, by rw [(List.cons.inj hdropped).1]⟩

/-- A text whose first character is not white space has a non-empty strip. -/
theorem strip_ne_empty {c : Char} {rest : List Char} {s : String}
    (hs : s.toList = c :: rest) (hc : isSpace c = false) : strip s ≠ "" := by
  obtain ⟨rest', hrest⟩ := toList_strip hs hc
  intro h
  rw [h] at hrest
  cases hrest

/-! ## Line ends -/

/-- What reading a file as text makes of its line ends, on the characters. -/
def newlines : List Char → List Char
  | [] => []
  | '\r' :: '\n' :: rest => '\n' :: newlines rest
  | c :: rest => (if c = '\r' then '\n' else c) :: newlines rest

/-- A file read as text: every line end, in whatever convention, is a newline. -/
def universalNewlines (s : String) : String := String.ofList (newlines s.toList)

/-- There is no carriage return in the text. -/
def NewlinesOnly (s : String) : Prop := '\r' ∉ s.toList

instance (s : String) : Decidable (NewlinesOnly s) := inferInstanceAs (Decidable (_ ∉ _))

theorem return_not_mem_newlines (l : List Char) : '\r' ∉ newlines l := by
  fun_induction newlines l with
  | case1 => exact List.not_mem_nil
  | case2 rest ih => simpa using ih
  | case3 c rest _ ih =>
      rw [List.mem_cons, not_or]
      refine ⟨?_, ih⟩
      split
      · decide
      · exact Ne.symm ‹_›

theorem newlines_of_return_not_mem {l : List Char} (h : '\r' ∉ l) : newlines l = l := by
  fun_induction newlines l with
  | case1 => rfl
  | case2 rest ih => exact (h List.mem_cons_self).elim
  | case3 c rest _ ih =>
      obtain ⟨hc, hrest⟩ := not_or.mp (mt List.mem_cons.mpr h)
      rw [if_neg (Ne.symm hc), ih hrest]

theorem newlines_append {l : List Char} (h : '\r' ∉ l) (rest : List Char) :
    newlines (l ++ rest) = l ++ newlines rest := by
  induction l with
  | nil => rfl
  | cons c more ih =>
      obtain ⟨hc, hmore⟩ := not_or.mp (mt List.mem_cons.mpr h)
      rw [List.cons_append, newlines, if_neg (Ne.symm hc), ih hmore, List.cons_append]
      rintro more' rfl
      exact absurd rfl hc

/-- What is read has newlines only. -/
theorem newlinesOnly_universalNewlines (s : String) : NewlinesOnly (universalNewlines s) := by
  rw [NewlinesOnly, universalNewlines, String.toList_ofList]
  exact return_not_mem_newlines _

/-- A text is read as it is exactly if it has newlines only. -/
theorem universalNewlines_eq_self_iff {s : String} : universalNewlines s = s ↔ NewlinesOnly s := by
  constructor
  · intro h
    exact h ▸ newlinesOnly_universalNewlines s
  · intro h
    rw [universalNewlines, newlines_of_return_not_mem h, String.ofList_toList]

/-- What has newlines only is read as it is, whatever follows it. -/
theorem universalNewlines_append {a : String} (h : NewlinesOnly a) (b : String) :
    universalNewlines (a ++ b) = a ++ universalNewlines b := by
  rw [universalNewlines, String.toList_append, newlines_append h, String.ofList_append,
    String.ofList_toList, universalNewlines]

/-- Of a literal, checked on its characters. -/
theorem newlinesOnly_ofList {l : List Char} (h : '\r' ∉ l) : NewlinesOnly (String.ofList l) := by
  rwa [NewlinesOnly, String.toList_ofList]

theorem universalNewlines_eq_empty_iff {s : String} : universalNewlines s = "" ↔ s = "" := by
  have hnil : ∀ l, newlines l = [] ↔ l = [] := by
    intro l
    fun_cases newlines l <;> simp
  rw [← String.toList_inj, universalNewlines, String.toList_ofList, String.toList_empty, hnil,
    String.toList_eq_nil_iff]

theorem newlinesOnly_append {a b : String} :
    NewlinesOnly (a ++ b) ↔ NewlinesOnly a ∧ NewlinesOnly b := by
  simp [NewlinesOnly]

/-! ## Splitting -/

/-- `str.split(c)` for a one-character separator. -/
def split (c : Char) (s : String) : List String :=
  (s.toList.splitOn c).map String.ofList

/-- `str.partition(c)`: the text before the first `c`, and what follows it when
there is one. -/
def partition (c : Char) (s : String) : String × Option String :=
  match s.toList.span (· != c) with
  | (before, []) => (String.ofList before, none)
  | (before, _ :: after) => (String.ofList before, some (String.ofList after))

theorem partition_eq_some {c : Char} {s before after : String}
    (h : partition c s = (before, some after)) : s = before ++ String.singleton c ++ after := by
  unfold partition at h
  have hspan := List.span_eq_takeWhile_dropWhile (p := (· != c)) (l := s.toList)
  split at h
  · cases h
  · rename_i first d rest hsplit
    rw [hsplit] at hspan
    obtain ⟨hfirst, hrest⟩ := Prod.mk.inj hspan
    have hd : d = c := by
      have hnot := List.head_dropWhile_not (· != c) (l := s.toList) (by rw [← hrest]; simp)
      simpa [← hrest] using hnot
    obtain ⟨rfl, hafter⟩ := Prod.mk.inj h
    obtain rfl := Option.some.inj hafter
    apply String.ext
    have hall := List.takeWhile_append_dropWhile (p := (· != c)) (l := s.toList)
    rw [← hfirst, ← hrest, hd] at hall
    simpa using hall.symm

theorem partition_eq_none {c : Char} {s before : String} (h : partition c s = (before, none)) :
    before = s := by
  unfold partition at h
  have hspan := List.span_eq_takeWhile_dropWhile (p := (· != c)) (l := s.toList)
  split at h
  · rename_i first hsplit
    rw [hsplit] at hspan
    obtain ⟨hfirst, hrest⟩ := Prod.mk.inj hspan
    have hall := List.takeWhile_append_dropWhile (p := (· != c)) (l := s.toList)
    rw [← hfirst, ← hrest, List.append_nil] at hall
    rw [← (Prod.mk.inj h).1, hall, String.ofList_toList]
  · cases h

/-- A text without the separator before it is cut at it. -/
theorem partition_append {c : Char} {before : String} (h : c ∉ before.toList) (after : String) :
    partition c (before ++ String.singleton c ++ after) = (before, some after) := by
  have hspan : (before ++ String.singleton c ++ after).toList.span (· != c) =
      (before.toList, c :: after.toList) := by
    rw [List.span_eq_takeWhile_dropWhile]
    have hkeep : ∀ d ∈ before.toList, (d != c) = true := by
      intro d hd
      simpa using fun heq : d = c => h (heq ▸ hd)
    simp [List.takeWhile_append_of_pos hkeep, List.dropWhile_append_of_pos hkeep]
  unfold partition
  rw [hspan]
  simp

/-- A text without the separator is not cut. -/
theorem partition_of_not_mem {c : Char} {s : String} (h : c ∉ s.toList) :
    partition c s = (s, none) := by
  have hkeep : ∀ d ∈ s.toList, (d != c) = true := by
    intro d hd
    simpa using fun heq : d = c => h (heq ▸ hd)
  have hspan : s.toList.span (· != c) = (s.toList, []) := by
    rw [List.span_eq_takeWhile_dropWhile, List.takeWhile_eq_self_iff.mpr hkeep,
      List.dropWhile_eq_nil_iff.mpr hkeep]
  unfold partition
  rw [hspan]
  simp

/-- What stands before the separator does not hold it. -/
theorem not_mem_partition_fst (c : Char) (s : String) : c ∉ (partition c s).1.toList := by
  have hspan := List.span_eq_takeWhile_dropWhile (p := (· != c)) (l := s.toList)
  have hfirst : (partition c s).1 = String.ofList (s.toList.takeWhile (· != c)) := by
    unfold partition
    rw [hspan]
    split <;> simp_all
  rw [hfirst, String.toList_ofList]
  intro hmem
  simpa using List.mem_takeWhile_imp hmem

/-- What all characters of the texts are, and of what joins them, those of the whole are. -/
theorem forall_mem_intercalate {p : Char → Prop} {separator : String} {texts : List String}
    (hseparator : ∀ c ∈ separator.toList, p c) (htexts : ∀ t ∈ texts, ∀ c ∈ t.toList, p c) :
    ∀ c ∈ (separator.intercalate texts).toList, p c := by
  induction texts with
  | nil => exact fun c hc => nomatch hc
  | cons t rest ih =>
      have hrest := ih fun t ht => htexts t (List.mem_cons_of_mem _ ht)
      by_cases hnil : rest = []
      · rw [hnil, String.intercalate_singleton]
        exact htexts t List.mem_cons_self
      · rw [String.intercalate_cons_of_ne_nil hnil]
        simp only [String.toList_append, List.forall_mem_append]
        exact ⟨⟨htexts t List.mem_cons_self, hseparator⟩, hrest⟩

/-- Joined texts are split again, where none holds the separator. -/
theorem split_intercalate {c : Char} {texts : List String} (hne : texts ≠ [])
    (h : ∀ t ∈ texts, c ∉ t.toList) :
    split c ((String.singleton c).intercalate texts) = texts := by
  have hlists : ∀ l ∈ texts.map String.toList, c ∉ l := by
    intro l hl
    obtain ⟨t, ht, rfl⟩ := List.mem_map.mp hl
    exact h t ht
  rw [split, String.toList_intercalate, String.toList_singleton,
    List.splitOn_intercalate c hlists (by simpa using hne), List.map_map]
  simp [Function.comp_def]

/-- The parts of a text tell which text it is. -/
theorem split_injective (c : Char) : Function.Injective (split c) := by
  intro s t h
  have hparts : s.toList.splitOn c = t.toList.splitOn c :=
    List.map_injective_iff.mpr (fun a b hab => String.ofList_injective hab) h
  have hjoined := congrArg (List.intercalate [c]) hparts
  rw [List.intercalate_splitOn, List.intercalate_splitOn] at hjoined
  exact String.toList_inj.mp hjoined

/-- `str.split(c, n)`: at most `n` cuts. -/
def splitMax (c : Char) : Nat → String → List String
  | 0, s => [s]
  | n + 1, s =>
      match partition c s with
      | (before, none) => [before]
      | (before, some after) => before :: splitMax c n after

theorem splitMax_append {c : Char} {before : String} (h : c ∉ before.toList) (n : Nat)
    (after : String) :
    splitMax c (n + 1) (before ++ String.singleton c ++ after) = before :: splitMax c n after := by
  rw [splitMax, partition_append h]

/-- What all characters of a text are, those of its parts are. -/
theorem forall_mem_splitMax {p : Char → Prop} {c : Char} {n : Nat} :
    ∀ {s : String}, (∀ d ∈ s.toList, p d) → ∀ part ∈ splitMax c n s, ∀ d ∈ part.toList, p d := by
  induction n with
  | zero =>
      intro s h part hpart
      rw [List.mem_singleton.mp hpart]
      exact h
  | succ n ih =>
      intro s h part hpart
      rw [splitMax] at hpart
      split at hpart
      · rename_i before hcut
        rw [List.mem_singleton.mp hpart, partition_eq_none hcut]
        exact h
      · rename_i before after hcut
        rw [partition_eq_some hcut] at h
        simp only [String.toList_append, List.forall_mem_append] at h
        rcases List.mem_cons.mp hpart with rfl | hpart
        · exact h.1.1
        · exact ih h.2 part hpart

/-! ## Replacing -/

/-- Every `old` from here on as `new`; `skip` characters belong to the one before. -/
def replaceFrom (old new : List Char) : Nat → List Char → List Char
  | _, [] => []
  | skip + 1, _ :: rest => replaceFrom old new skip rest
  | 0, c :: rest =>
      if old.isPrefixOf (c :: rest) then new ++ replaceFrom old new (old.length - 1) rest
      else c :: replaceFrom old new 0 rest

/-- `str.replace(old, new)`, of a text `old` that is not empty. -/
def replace (old new s : String) : String :=
  String.ofList (replaceFrom old.toList new.toList 0 s.toList)

/-! ## Decimal numbers -/

/-- The code point of the digit zero of every script that has decimal digits. -/
def decimalZeros : List Nat :=
  [0x30, 0x660, 0x6F0, 0x7C0, 0x966, 0x9E6, 0xA66, 0xAE6, 0xB66, 0xBE6, 0xC66, 0xCE6,
    0xD66, 0xDE6, 0xE50, 0xED0, 0xF20, 0x1040, 0x1090, 0x17E0, 0x1810, 0x1946, 0x19D0,
    0x1A80, 0x1A90, 0x1B50, 0x1BB0, 0x1C40, 0x1C50, 0xA620, 0xA8D0, 0xA900, 0xA9D0,
    0xA9F0, 0xAA50, 0xABF0, 0xFF10, 0x104A0, 0x10D30, 0x11066, 0x110F0, 0x11136, 0x111D0,
    0x112F0, 0x11450, 0x114D0, 0x11650, 0x116C0, 0x11730, 0x118E0, 0x11950, 0x11C50,
    0x11D50, 0x11DA0, 0x16A60, 0x16AC0, 0x16B50, 0x1D7CE, 0x1D7D8, 0x1D7E2, 0x1D7EC,
    0x1D7F6, 0x1E140, 0x1E2F0, 0x1E950, 0x1FBF0]

/-- The value of a decimal digit of any script. -/
def digitValue? (c : Char) : Option Nat :=
  (decimalZeros.find? fun z => z ≤ c.toNat && c.toNat < z + 10).map (c.toNat - ·)

/-- One or more digits, with single underscores between them. -/
def readDigits : List Char → Option (List Nat)
  | [] => none
  | c :: rest =>
      match digitValue? c with
      | none => none
      | some d =>
          match rest with
          | [] => some [d]
          | '_' :: more => (readDigits more).map (d :: ·)
          | more => (readDigits more).map (d :: ·)

/-- The interpreter refuses to convert decimal texts with more digits. -/
def maxDigits : Nat := 4300

/-- The number a run of digits denotes, unless it is too long to convert. -/
def readNat (l : List Char) : Option Nat :=
  match readDigits l with
  | none => none
  | some ds =>
      if ds.length ≤ maxDigits then some (ds.foldl (fun n d => 10 * n + d) 0) else none

/-- The white space `int` ignores around a number: the separators U+001C to U+001F
are not in it. -/
def isNumberSpace (c : Char) : Bool :=
  isSpace c && !(0x1C ≤ c.toNat && c.toNat ≤ 0x1F)

/-- `int(text)`; `none` is the `ValueError`. -/
def readInt (s : String) : Option Int :=
  match (s.toList.dropWhile isNumberSpace).rdropWhile isNumberSpace with
  | '-' :: ds => (readNat ds).map fun n => -(n : Int)
  | '+' :: ds => (readNat ds).map fun n => (n : Int)
  | ds => (readNat ds).map fun n => (n : Int)

/-- A number in decimal, padded with zeros to `width`. -/
def padDecimal (width n : Nat) : List Char :=
  List.replicate (width - (Nat.toDigits 10 n).length) '0' ++ Nat.toDigits 10 n

theorem isDigit_of_mem_padDecimal {width n : Nat} {c : Char} (h : c ∈ padDecimal width n) :
    c.isDigit = true := by
  rcases List.mem_append.mp h with hpad | hdigit
  · rw [List.eq_of_mem_replicate hpad]
    decide
  · exact Nat.isDigit_of_mem_toDigits (by decide) (by decide) hdigit

theorem isSpace_of_isDigit {c : Char} (h : c.isDigit = true) : isSpace c = false := by
  simp only [Char.isDigit, Bool.and_eq_true, decide_eq_true_eq, ge_iff_le,
    UInt32.le_iff_toNat_le] at h
  change 48 ≤ c.toNat ∧ c.toNat ≤ 57 at h
  simp only [isSpace, Bool.or_eq_false_iff, Bool.and_eq_false_iff, beq_eq_false_iff_ne,
    decide_eq_false_iff_not]
  omega

/-! ## Sets of texts -/

/-- `sorted(set(texts))` -/
def sortedSet (texts : List String) : List String := texts.dedup.insertionSort (· ≤ ·)

theorem mem_sortedSet {texts : List String} {t : String} : t ∈ sortedSet texts ↔ t ∈ texts := by
  rw [sortedSet, List.mem_insertionSort, List.mem_dedup]

/-- They are in order, and none is there twice. -/
theorem pairwise_sortedSet (texts : List String) : (sortedSet texts).Pairwise (· < ·) := by
  have hsorted : (sortedSet texts).Pairwise (· ≤ ·) := List.pairwise_insertionSort _ _
  have hnodup : (sortedSet texts).Nodup :=
    (List.perm_insertionSort _ _).nodup_iff.mpr texts.nodup_dedup
  exact hsorted.imp₂ (fun _ _ hle hne => lt_of_le_of_ne hle hne) hnodup

/-- Neither the order of the texts nor their repetition shows. -/
theorem sortedSet_congr {texts others : List String} (h : ∀ t, t ∈ texts ↔ t ∈ others) :
    sortedSet texts = sortedSet others := by
  refine (pairwise_sortedSet texts).eq_of_mem_iff (pairwise_sortedSet others) fun t => ?_
  rw [mem_sortedSet, mem_sortedSet, h t]

/-! ## Reading in turn -/

/-- A list is read if each of its items is. -/
theorem mapM_eq_some {α β : Type} {f : α → Option β} {items : List α} :
    ∀ {results : List β},
      items.mapM f = some results ↔ List.Forall₂ (fun a b => f a = some b) items results := by
  induction items with
  | nil =>
      intro results
      rw [List.mapM_nil, List.forall₂_nil_left_iff]
      exact ⟨fun h => (Option.some.inj h).symm, fun h => h ▸ rfl⟩
  | cons a rest ih =>
      intro results
      rw [List.mapM_cons, List.forall₂_cons_left_iff]
      constructor
      · intro h
        obtain ⟨b, hb, h⟩ := Option.bind_eq_some_iff.mp h
        obtain ⟨others, hothers, h⟩ := Option.bind_eq_some_iff.mp h
        exact ⟨b, others, hb, ih.mp hothers, (Option.some.inj h).symm⟩
      · rintro ⟨b, others, hb, hothers, rfl⟩
        exact Option.bind_eq_some_iff.mpr
          ⟨b, hb, Option.bind_eq_some_iff.mpr ⟨others, ih.mpr hothers, rfl⟩⟩

end SeapathWebui.Foundation.Text
