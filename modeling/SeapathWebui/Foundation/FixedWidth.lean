/-
  Foundation/FixedWidth.lean --- decimals of one width, ordered as texts and as numbers.

  Texts are compared character by character, numbers by their value.  For digits that are as
  many on both sides the two orders are one (`lt_iff_ofDigitChars_lt`), so numbers that are
  padded to a width compare as they would unpadded (`padDecimal_lt_iff`).  Texts that consist
  of such fields are compared field by field (`append_lt_append_iff`).
-/
import Mathlib.Data.List.Lex
import SeapathWebui.Foundation.Decimal

set_option autoImplicit false

namespace SeapathWebui.Foundation.Text

/-! ## Field by field -/

/-- Where the first fields are as long as each other, they decide unless they are equal. -/
theorem append_lt_append_iff {α : Type*} [LinearOrder α] {a b : List α} :
    ∀ {c d : List α}, a.length = b.length →
      (a ++ c < b ++ d ↔ a < b ∨ (a = b ∧ c < d)) := by
  induction a generalizing b with
  | nil =>
      intro c d hlength
      obtain rfl := List.length_eq_zero_iff.mp hlength.symm
      simp
  | cons x xs ih =>
      intro c d hlength
      obtain ⟨y, ys, rfl⟩ := List.exists_cons_of_length_eq_add_one hlength.symm
      have hrest := @ih ys c d (by simpa using hlength)
      rw [List.cons_append, List.cons_append, List.cons_lt_cons_iff, List.cons_lt_cons_iff, hrest,
        List.cons.injEq]
      constructor
      · rintro (hlt | ⟨rfl, hlt | ⟨rfl, hlt⟩⟩)
        · exact .inl (.inl hlt)
        · exact .inl (.inr ⟨rfl, hlt⟩)
        · exact .inr ⟨⟨rfl, rfl⟩, hlt⟩
      · rintro ((hlt | ⟨rfl, hlt⟩) | ⟨⟨rfl, rfl⟩, hlt⟩)
        · exact .inl hlt
        · exact .inr ⟨rfl, .inl hlt⟩
        · exact .inr ⟨rfl, .inr ⟨rfl, hlt⟩⟩

/-! ## One field -/

/-- The value of digits is below the power of ten of their number. -/
theorem ofDigitChars_lt {l : List Char} (h : ∀ c ∈ l, c.isDigit = true) :
    Nat.ofDigitChars 10 l 0 < 10 ^ l.length := by
  induction l with
  | nil => simp
  | cons c l ih =>
      have hrest := ih fun d hd => h d (List.mem_cons_of_mem c hd)
      obtain ⟨hlow, hhigh⟩ := toNat_of_isDigit (h c List.mem_cons_self)
      have hzero : '0'.toNat = 48 := rfl
      rw [Nat.ofDigitChars_cons, Nat.ofDigitChars_eq_ofDigitChars_zero, List.length_cons, pow_succ,
        hzero]
      have hdigit : 10 ^ l.length * (10 * 0 + (c.toNat - 48)) ≤ 10 ^ l.length * 9 :=
        Nat.mul_le_mul_left _ (by omega)
      omega

/-- Two numbers in a positional notation: the leading digit decides unless it is the same. -/
theorem mul_add_lt_iff {base i j m n : Nat} (hm : m < base) (hn : n < base) :
    base * i + m < base * j + n ↔ i < j ∨ (i = j ∧ m < n) := by
  rcases lt_trichotomy i j with hlt | rfl | hlt
  · have hstep : base * (i + 1) ≤ base * j := Nat.mul_le_mul_left base hlt
    rw [Nat.mul_succ] at hstep
    exact iff_of_true (by omega) (.inl hlt)
  · simp
  · have hstep : base * (j + 1) ≤ base * i := Nat.mul_le_mul_left base hlt
    rw [Nat.mul_succ] at hstep
    exact iff_of_false (by omega) (by omega)

/-- Digits, as many on both sides, are ordered as their values. -/
theorem lt_iff_ofDigitChars_lt {l : List Char} :
    ∀ {m : List Char}, (∀ c ∈ l, c.isDigit = true) → (∀ c ∈ m, c.isDigit = true) →
      l.length = m.length → (l < m ↔ Nat.ofDigitChars 10 l 0 < Nat.ofDigitChars 10 m 0) := by
  induction l with
  | nil =>
      intro m _ _ hlength
      obtain rfl := List.length_eq_zero_iff.mp hlength.symm
      simp
  | cons c l ih =>
      intro m hl hm hlength
      obtain ⟨d, m, rfl⟩ := List.exists_cons_of_length_eq_add_one hlength.symm
      have hlength : l.length = m.length := by simpa using hlength
      have hl' : ∀ e ∈ l, e.isDigit = true := fun e he => hl e (List.mem_cons_of_mem c he)
      have hm' : ∀ e ∈ m, e.isDigit = true := fun e he => hm e (List.mem_cons_of_mem d he)
      have hrest := ih hl' hm' hlength
      have hlow := ofDigitChars_lt hl'
      have hhigh := ofDigitChars_lt hm'
      obtain ⟨hc, -⟩ := toNat_of_isDigit (hl c List.mem_cons_self)
      obtain ⟨hd, -⟩ := toNat_of_isDigit (hm d List.mem_cons_self)
      have hzero : '0'.toNat = 48 := rfl
      have hvalue : ∀ (e : Char) (k : List Char), Nat.ofDigitChars 10 (e :: k) 0 =
          10 ^ k.length * (e.toNat - 48) + Nat.ofDigitChars 10 k 0 := by
        intro e k
        rw [Nat.ofDigitChars_cons, Nat.ofDigitChars_eq_ofDigitChars_zero, hzero]
        simp
      rw [List.cons_lt_cons_iff, hvalue, hvalue, hrest, hlength,
        mul_add_lt_iff (hlength ▸ hlow) hhigh]
      -- a digit is its value, as a character
      have hdigit : c < d ↔ c.toNat - 48 < d.toNat - 48 := by
        rw [Char.lt_def, UInt32.lt_iff_toNat_lt]
        change c.toNat < d.toNat ↔ _
        omega
      have hsame : c = d ↔ c.toNat - 48 = d.toNat - 48 := by
        rw [← Char.toNat_inj]
        omega
      rw [hdigit, hsame]

/-- A number that fits is as long as the width. -/
theorem length_padDecimal {width n : Nat} (hwidth : 0 < width) (h : n < 10 ^ width) :
    (padDecimal width n).length = width := by
  have hlength := (Nat.length_toDigits_le_iff (by decide) hwidth).mpr h
  rw [padDecimal, List.length_append, List.length_replicate]
  omega

/-- The padding does not change the value. -/
theorem ofDigitChars_padDecimal (width n : Nat) :
    Nat.ofDigitChars 10 (padDecimal width n) 0 = n := by
  rw [padDecimal, Nat.ofDigitChars_append, Nat.ofDigitChars_replicate_zero, Nat.mul_zero,
    Nat.ofDigitChars_ten_toDigits]

theorem padDecimal_injective (width : Nat) : Function.Injective (padDecimal width) := by
  intro m n h
  rw [← ofDigitChars_padDecimal width m, h, ofDigitChars_padDecimal]

/-- Numbers of one width are ordered as their texts. -/
theorem padDecimal_lt_iff {width m n : Nat} (hwidth : 0 < width) (hm : m < 10 ^ width)
    (hn : n < 10 ^ width) : padDecimal width m < padDecimal width n ↔ m < n := by
  have hlength : (padDecimal width m).length = (padDecimal width n).length :=
    (length_padDecimal hwidth hm).trans (length_padDecimal hwidth hn).symm
  rw [lt_iff_ofDigitChars_lt (fun _ => isDigit_of_mem_padDecimal)
    (fun _ => isDigit_of_mem_padDecimal) hlength, ofDigitChars_padDecimal, ofDigitChars_padDecimal]

end SeapathWebui.Foundation.Text
