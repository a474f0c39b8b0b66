/-
  Foundation/Doubles.lean --- double precision numbers, read from texts.

  A number is a rational with 53 significant bits, an infinity, or no number; the sign of a
  zero is left out.  `readNumber` reads what `Number` of a browser reads of a text that has
  been trimmed.  A small natural number comes back from its decimal digits
  (`readNumber_toDigits`).
-/
import Mathlib.Data.Int.Log
import Mathlib.Data.Rat.Floor
import SeapathWebui.Foundation.Decimal

set_option autoImplicit false

namespace SeapathWebui.Foundation

/-! ## Rounding -/

/-- A double precision number. -/
inductive Double
  | finite (q : ℚ)
  | infinite (negative : Bool)
  | nan
  deriving DecidableEq, Repr

namespace Double

/-- The nearest integer, the even one of two. -/
def roundHalfEven (q : ℚ) : ℤ :=
  if q - ⌊q⌋ < 1 / 2 then ⌊q⌋
  else if 1 / 2 < q - ⌊q⌋ then ⌊q⌋ + 1
  else if ⌊q⌋ % 2 = 0 then ⌊q⌋
  else ⌊q⌋ + 1

/-- The exponent of the last of 53 bits; there are fewer near zero. -/
def lastBit (q : ℚ) : ℤ := max (Int.log 2 q - 52) (-1074)

/-- A magnitude, rounded. -/
def roundMagnitude (q : ℚ) : ℚ := roundHalfEven (q / 2 ^ lastBit q) * 2 ^ lastBit q

/-- The double nearest to a rational. -/
def ofRat (q : ℚ) : Double :=
  if 2 ^ 1024 ≤ roundMagnitude |q| then .infinite (decide (q < 0))
  else .finite (if q < 0 then -roundMagnitude |q| else roundMagnitude |q|)

@[simp] theorem roundHalfEven_intCast (n : ℤ) : roundHalfEven n = n := by
  simp [roundHalfEven]

/-- Fewer than 54 bits are not rounded. -/
theorem roundMagnitude_natCast {n : ℕ} (h : n < 2 ^ 53) : roundMagnitude n = n := by
  have hlog : Nat.log 2 n ≤ 52 := by
    have := Nat.log_lt_of_lt_pow' (b := 2) (by decide) h
    omega
  have hbit : lastBit n = -((52 - Nat.log 2 n : ℕ) : ℤ) := by
    rw [lastBit, Int.log_natCast]
    omega
  have hscaled : (n : ℚ) / 2 ^ lastBit n = ((n * 2 ^ (52 - Nat.log 2 n) : ℕ) : ℤ) := by
    rw [hbit, zpow_neg, div_inv_eq_mul, zpow_natCast]
    push_cast
    rfl
  rw [roundMagnitude, hscaled, roundHalfEven_intCast, ← hscaled, div_mul_cancel₀]
  exact zpow_ne_zero _ (by norm_num)

theorem ofRat_natCast {n : ℕ} (h : n < 2 ^ 53) : ofRat n = .finite n := by
  have hsmall : ¬ (2 : ℚ) ^ 1024 ≤ n := by
    rw [not_le]
    calc (n : ℚ) < 2 ^ 53 := by exact_mod_cast h
      _ ≤ 2 ^ 1024 := pow_le_pow_right₀ (by norm_num) (by norm_num)
  have hsign : ¬ (n : ℚ) < 0 := not_lt.mpr (Nat.cast_nonneg n)
  rw [ofRat, Nat.abs_cast, roundMagnitude_natCast h, if_neg hsmall, if_neg hsign]

/-! ## Reading -/

/-- One or more decimal digits. -/
def readDigits (ds : List Char) : Option ℕ :=
  if ds ≠ [] ∧ ds.all Char.isDigit then some (Nat.ofDigitChars 10 ds 0) else none

/-- The exponent at the end of a decimal text. -/
def readExponent : List Char → Option ℤ
  | [] => some 0
  | 'e' :: '-' :: ds | 'E' :: '-' :: ds => (readDigits ds).map fun n => -(n : ℤ)
  | 'e' :: '+' :: ds | 'E' :: '+' :: ds => (readDigits ds).map fun n => (n : ℤ)
  | 'e' :: ds | 'E' :: ds => (readDigits ds).map fun n => (n : ℤ)
  | _ => none

/-- What follows a point. -/
def afterPoint : List Char → Option (List Char)
  | '.' :: rest => some rest
  | _ => none

/-- Digits, a point and digits, an exponent; digits on one side of the point are enough. -/
def readDecimal (l : List Char) : Option ℚ :=
  let whole := l.takeWhile Char.isDigit
  let rest := l.dropWhile Char.isDigit
  let fraction := ((afterPoint rest).getD []).takeWhile Char.isDigit
  let rest := ((afterPoint rest).map (·.dropWhile Char.isDigit)).getD rest
  if whole = [] ∧ fraction = [] then none
  else (readExponent rest).map fun e =>
    (Nat.ofDigitChars 10 (whole ++ fraction) 0 : ℚ) * 10 ^ (e - (fraction.length : ℤ))

/-- A decimal text without its sign. -/
def readUnsigned (negative : Bool) (l : List Char) : Double :=
  if l = "Infinity".toList then .infinite negative
  else
    match readDecimal l with
    | none => .nan
    | some q => ofRat (if negative then -q else q)

/-- The value of a letter or digit. -/
def digitValue? (c : Char) : Option ℕ :=
  if c.isDigit then some (c.toNat - '0'.toNat)
  else if 'a' ≤ c ∧ c ≤ 'f' then some (c.toNat - 'a'.toNat + 10)
  else if 'A' ≤ c ∧ c ≤ 'F' then some (c.toNat - 'A'.toNat + 10)
  else none

/-- The digits after the mark of a base. -/
def readRadix (base : ℕ) (ds : List Char) : Double :=
  match ds.mapM fun c => (digitValue? c).filter (· < base) with
  | none | some [] => .nan
  | some values => ofRat (values.foldl (fun n d => base * n + d) 0 : ℕ)

/-- The base that the letter after a zero marks. -/
def markedBase : Char → Option ℕ
  | 'x' | 'X' => some 16
  | 'o' | 'O' => some 8
  | 'b' | 'B' => some 2
  | _ => none

/-- `Number(text)`, of a text without white space around it. -/
def readNumber (l : List Char) : Double :=
  match l with
  | [] => .finite 0
  | '-' :: rest => readUnsigned true rest
  | '+' :: rest => readUnsigned false rest
  | '0' :: mark :: ds =>
      match markedBase mark with
      | some base => readRadix base ds
      | none => readUnsigned false l
  | l => readUnsigned false l

theorem markedBase_of_isDigit {c : Char} (h : c.isDigit = true) : markedBase c = none := by
  unfold markedBase
  split
  all_goals first | rfl | exact absurd h (by decide)

theorem readDecimal_of_isDigit {l : List Char} (hne : l ≠ []) (h : ∀ c ∈ l, c.isDigit = true) :
    readDecimal l = some (Nat.ofDigitChars 10 l 0 : ℚ) := by
  have hwhole : l.takeWhile Char.isDigit = l := List.takeWhile_eq_self_iff.mpr h
  have hrest : l.dropWhile Char.isDigit = [] := List.dropWhile_eq_nil_iff.mpr h
  simp [readDecimal, hwhole, hrest, afterPoint, readExponent, hne]

/-- A text of digits is read as the number that they say. -/
theorem readNumber_of_isDigit {l : List Char} (hne : l ≠ []) (h : ∀ c ∈ l, c.isDigit = true) :
    readNumber l = ofRat (Nat.ofDigitChars 10 l 0 : ℕ) := by
  have hunsigned : readUnsigned false l = ofRat (Nat.ofDigitChars 10 l 0 : ℕ) := by
    have hword : l ≠ "Infinity".toList := by
      rintro rfl
      exact absurd (h 'I' (by decide)) (by decide)
    rw [readUnsigned, if_neg hword, readDecimal_of_isDigit hne h]
    rfl
  unfold readNumber
  split
  · exact absurd rfl hne
  · exact absurd (h '-' List.mem_cons_self) (by decide)
  · exact absurd (h '+' List.mem_cons_self) (by decide)
  · rename_i mark ds
    have hmark : mark.isDigit = true := h mark (List.mem_cons_of_mem _ List.mem_cons_self)
    rw [markedBase_of_isDigit hmark]
    exact hunsigned
  · exact hunsigned

/-- A small number is read back from its digits. -/
theorem readNumber_toDigits {n : ℕ} (h : n < 2 ^ 53) :
    readNumber (Nat.toDigits 10 n) = .finite n := by
  rw [readNumber_of_isDigit Nat.toDigits_ne_nil fun _ => Text.isDigit_of_mem_toDigits,
    Nat.ofDigitChars_ten_toDigits, ofRat_natCast h]

end Double

end SeapathWebui.Foundation
