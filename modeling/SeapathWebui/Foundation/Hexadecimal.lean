/-
  Foundation/Hexadecimal.lean --- hexadecimal texts, read and written.

  `readHex` reads what `int` reads in base 16: white space around the number, a sign, a mark
  before the digits, single underscores between them, and the digits of every script.  What
  is written with upper case digits alone is read back (`readHex_hexChars`).
-/
import SeapathWebui.Foundation.Text

set_option autoImplicit false

namespace SeapathWebui.Foundation.Text

/-! ## Reading -/

/-- The value of a hexadecimal digit. -/
def hexValue? (c : Char) : Option Nat :=
  (digitValue? c).or
    (if 'a'.toNat ≤ c.toNat ∧ c.toNat ≤ 'f'.toNat then some (c.toNat - 'a'.toNat + 10)
      else if 'A'.toNat ≤ c.toNat ∧ c.toNat ≤ 'F'.toNat then some (c.toNat - 'A'.toNat + 10)
      else none)

/-- One or more digits, with single underscores between them. -/
def readHexDigits : List Char → Option (List Nat)
  | [] => none
  | c :: rest =>
      match hexValue? c with
      | none => none
      | some d =>
          match rest with
          | [] => some [d]
          | '_' :: more => (readHexDigits more).map (d :: ·)
          | more => (readHexDigits more).map (d :: ·)

/-- The digits after the mark of the base, where there is one; an underscore may follow it. -/
def dropMark : List Char → List Char
  | '0' :: 'x' :: '_' :: rest | '0' :: 'X' :: '_' :: rest => rest
  | '0' :: 'x' :: rest | '0' :: 'X' :: rest => rest
  | l => l

/-- The number that hexadecimal digits say, of any length. -/
def readHexNat (l : List Char) : Option Nat :=
  (readHexDigits (dropMark l)).map fun ds => ds.foldl (fun n d => 16 * n + d) 0

/-- `int(text, 16)`; `none` is the `ValueError`. -/
def readHex (s : String) : Option Int :=
  match (s.toList.dropWhile isNumberSpace).rdropWhile isNumberSpace with
  | '-' :: ds => (readHexNat ds).map fun n => -(n : Int)
  | '+' :: ds => (readHexNat ds).map fun n => (n : Int)
  | ds => (readHexNat ds).map fun n => (n : Int)

/-! ## What is written -/

/-- A digit, in upper case. -/
def hexChar (d : Nat) : Char := "0123456789ABCDEF".toList.getD d '0'

theorem hexValue?_hexChar : ∀ d < 16, hexValue? (hexChar d) = some d := by decide +kernel

/-- A digit is none of the characters that mean something else in a number. -/
theorem hexChar_ne : ∀ d < 16, hexChar d ≠ '_' ∧ hexChar d ≠ 'x' ∧ hexChar d ≠ 'X' ∧
    hexChar d ≠ '-' ∧ hexChar d ≠ '+' ∧ isNumberSpace (hexChar d) = false := by decide +kernel

theorem readHexDigits_hexChars {ds : List Nat} (hne : ds ≠ []) (h : ∀ d ∈ ds, d < 16) :
    readHexDigits (ds.map hexChar) = some ds := by
  induction ds with
  | nil => exact absurd rfl hne
  | cons d rest ih =>
      have hd := hexValue?_hexChar d (h d List.mem_cons_self)
      cases rest with
      | nil => simp [readHexDigits, hd]
      | cons e more =>
          have hrest := ih (List.cons_ne_nil e more) fun f hf => h f (List.mem_cons_of_mem d hf)
          have hunderscore := (hexChar_ne e (h e (by simp))).1
          rw [List.map_cons, readHexDigits, hd]
          dsimp only
          split
          · rename_i heq
            cases heq
          · rename_i heq
            exact absurd (List.cons.inj heq).1 hunderscore
          · rw [hrest]
            rfl

/-- The second digit is no mark. -/
theorem dropMark_hexChars {ds : List Nat} (h : ∀ d ∈ ds, d < 16) :
    dropMark (ds.map hexChar) = ds.map hexChar := by
  have hmark : ∀ c l, ds.map hexChar = '0' :: c :: l → c ≠ 'x' ∧ c ≠ 'X' := by
    intro c l heq
    have hc : c ∈ ds.map hexChar := by simp [heq]
    obtain ⟨d, hd, rfl⟩ := List.mem_map.mp hc
    exact ⟨(hexChar_ne d (h d hd)).2.1, (hexChar_ne d (h d hd)).2.2.1⟩
  unfold dropMark
  split
  · exact absurd rfl (hmark _ _ ‹_›).1
  · exact absurd rfl (hmark _ _ ‹_›).2
  · exact absurd rfl (hmark _ _ ‹_›).1
  · exact absurd rfl (hmark _ _ ‹_›).2
  · rfl

/-- A text of digits is read as the number they say. -/
theorem readHex_hexChars {ds : List Nat} (hne : ds ≠ []) (h : ∀ d ∈ ds, d < 16) :
    readHex (String.ofList (ds.map hexChar)) =
      some ((ds.foldl (fun n d => 16 * n + d) 0 : Nat) : Int) := by
  have hchar : ∀ c ∈ ds.map hexChar, isNumberSpace c = false ∧ c ≠ '-' ∧ c ≠ '+' := by
    intro c hc
    obtain ⟨d, hd, rfl⟩ := List.mem_map.mp hc
    obtain ⟨-, -, -, hminus, hplus, hspace⟩ := hexChar_ne d (h d hd)
    exact ⟨hspace, hminus, hplus⟩
  have htrim : ((ds.map hexChar).dropWhile isNumberSpace).rdropWhile isNumberSpace =
      ds.map hexChar := trimBoth_eq_self fun c hc => (hchar c hc).1
  rw [readHex, String.toList_ofList, htrim]
  split
  · rename_i heq
    exact absurd rfl (hchar '-' (heq ▸ List.mem_cons_self)).2.1
  · rename_i heq
    exact absurd rfl (hchar '+' (heq ▸ List.mem_cons_self)).2.2
  · rw [readHexNat, dropMark_hexChars h, readHexDigits_hexChars hne h]
    rfl

end SeapathWebui.Foundation.Text
