/-
  Foundation/Decimal.lean --- decimal texts of numbers, written and read.

  `toString` writes a number and `readInt` reads one.  What is written is read back as
  long as it has no more digits than the interpreter converts (`readInt_toString`), and
  nothing that is read has more (`readNat_lt`).  A text of digits that does not begin
  with a zero is the one that is written of its value (`toDigits_ofDigitChars`), so such
  texts are told apart by what they say.
-/
import SeapathWebui.Foundation.Text

set_option autoImplicit false

namespace SeapathWebui.Foundation.Text

/-! ## Digits -/

/-- A text of decimal digits, and of nothing else. -/
def IsDecimal (s : String) : Prop := s ≠ "" ∧ ∀ c ∈ s.toList, c.isDigit = true

instance (s : String) : Decidable (IsDecimal s) :=
  haveI : Decidable (∀ c ∈ s.toList, c.isDigit = true) := List.decidableBAll _ _
  inferInstanceAs (Decidable (_ ∧ _))

theorem toNat_of_isDigit {c : Char} (h : c.isDigit = true) : 48 ≤ c.toNat ∧ c.toNat ≤ 57 := by
  simp only [Char.isDigit, Bool.and_eq_true, decide_eq_true_eq, ge_iff_le,
    UInt32.le_iff_toNat_le] at h
  exact h

theorem digitValue?_of_isDigit {c : Char} (h : c.isDigit = true) :
    digitValue? c = some (c.toNat - 48) := by
  obtain ⟨hlow, hhigh⟩ := toNat_of_isDigit h
  have hfirst : (decide (48 ≤ c.toNat) && decide (c.toNat < 48 + 10)) = true := by
    simp only [Bool.and_eq_true, decide_eq_true_eq]
    omega
  have hzeros : decimalZeros = 48 :: decimalZeros.tail := rfl
  rw [digitValue?, hzeros, List.find?_cons, hfirst, Option.map_some]

theorem readDigits_of_isDigit {l : List Char} (hne : l ≠ [])
    (h : ∀ c ∈ l, c.isDigit = true) : readDigits l = some (l.map fun c => c.toNat - 48) := by
  induction l with
  | nil => exact absurd rfl hne
  | cons c rest ih =>
      have hrest : ∀ d ∈ rest, d.isDigit = true := fun d hd => h d (List.mem_cons_of_mem _ hd)
      have hc := digitValue?_of_isDigit (h c List.mem_cons_self)
      cases rest with
      | nil => simp [readDigits, hc]
      | cons d more =>
          have hunderscore : d ≠ '_' := by
            rintro rfl
            exact absurd (hrest '_' List.mem_cons_self) (by decide)
          rw [readDigits, hc]
          dsimp only
          split
          · rename_i heq
            cases heq
          · rename_i heq
            exact absurd (List.cons.inj heq).1 hunderscore
          · rw [ih (List.cons_ne_nil _ _) hrest]
            rfl

/-- The value of digits is the one the library reads of them. -/
theorem foldl_digits (l : List Char) (n : Nat) :
    (l.map fun c => c.toNat - 48).foldl (fun n d => 10 * n + d) n = Nat.ofDigitChars 10 l n := by
  rw [Nat.ofDigitChars_eq_foldl, List.foldl_map]
  rfl

theorem readNat_of_isDigit {l : List Char} (hne : l ≠ []) (h : ∀ c ∈ l, c.isDigit = true)
    (hlength : l.length ≤ maxDigits) : readNat l = some (Nat.ofDigitChars 10 l 0) := by
  rw [readNat, readDigits_of_isDigit hne h]
  simp only [List.length_map, if_pos hlength, foldl_digits]

/-! ## What is written -/

theorem isDigit_of_mem_toDigits {n : Nat} {c : Char} (h : c ∈ Nat.toDigits 10 n) :
    c.isDigit = true :=
  Nat.isDigit_of_mem_toDigits (by decide) (by decide) h

theorem readNat_toDigits {n : Nat} (h : n < 10 ^ maxDigits) :
    readNat (Nat.toDigits 10 n) = some n := by
  have hlength : (Nat.toDigits 10 n).length ≤ maxDigits :=
    (Nat.length_toDigits_le_iff (by decide) (by decide)).mpr h
  rw [readNat_of_isDigit Nat.toDigits_ne_nil (fun _ => isDigit_of_mem_toDigits) hlength,
    Nat.ofDigitChars_ten_toDigits]

theorem isNumberSpace_of_isDigit {c : Char} (h : c.isDigit = true) : isNumberSpace c = false := by
  rw [isNumberSpace, isSpace_of_isDigit h, Bool.false_and]

/-- A text of digits is read as a number without a sign. -/
theorem readInt_of_isDecimal {s : String} (h : IsDecimal s) :
    readInt s = (readNat s.toList).map Int.ofNat := by
  obtain ⟨-, hdigits⟩ := h
  have htrim : (s.toList.dropWhile isNumberSpace).rdropWhile isNumberSpace = s.toList :=
    trimBoth_eq_self fun c hc => isNumberSpace_of_isDigit (hdigits c hc)
  rw [readInt, htrim]
  split
  · rename_i heq
    exact absurd (hdigits '-' (heq ▸ List.mem_cons_self)) (by decide)
  · rename_i heq
    exact absurd (hdigits '+' (heq ▸ List.mem_cons_self)) (by decide)
  · cases readNat s.toList <;> rfl

theorem toList_toString (n : Nat) : (toString (n : Int)).toList = Nat.toDigits 10 n := by
  rw [Int.toString_eq_repr, Int.repr_eq_if, if_pos (Int.natCast_nonneg n), Int.toNat_natCast,
    Nat.toList_repr]

theorem isDecimal_toString (n : Nat) : IsDecimal (toString (n : Int)) := by
  refine ⟨fun heq => ?_, fun c hc => ?_⟩
  · have hlist := toList_toString n
    rw [heq] at hlist
    exact Nat.toDigits_ne_nil hlist.symm
  · rw [toList_toString] at hc
    exact isDigit_of_mem_toDigits hc

/-- What is written is read back. -/
theorem readInt_toString {n : Nat} (h : n < 10 ^ maxDigits) :
    readInt (toString (n : Int)) = some (n : Int) := by
  rw [readInt_of_isDecimal (isDecimal_toString n), toList_toString, readNat_toDigits h]
  rfl

/-! ## What is read -/

theorem digitValue?_lt {c : Char} {d : Nat} (h : digitValue? c = some d) : d < 10 := by
  obtain ⟨first, hfirst, rfl⟩ := Option.map_eq_some_iff.mp h
  have hrange := List.find?_some hfirst
  simp only [Bool.and_eq_true, decide_eq_true_eq] at hrange
  omega

theorem readDigits_lt {l : List Char} :
    ∀ {ds}, readDigits l = some ds → ∀ d ∈ ds, d < 10 := by
  fun_induction readDigits l with
  | case1 => exact fun h => nomatch h
  | case2 => exact fun h => nomatch h
  | case3 c d hc =>
      intro ds h e he
      obtain rfl := Option.some.inj h
      exact List.mem_singleton.mp he ▸ digitValue?_lt hc
  | case4 c d hc more ih =>
      intro ds h e he
      obtain ⟨ds', hmore, rfl⟩ := Option.map_eq_some_iff.mp h
      rcases List.mem_cons.mp he with rfl | he
      · exact digitValue?_lt hc
      · exact ih hmore e he
  | case5 c d hc more _ _ ih =>
      intro ds h e he
      obtain ⟨ds', hmore, rfl⟩ := Option.map_eq_some_iff.mp h
      rcases List.mem_cons.mp he with rfl | he
      · exact digitValue?_lt hc
      · exact ih hmore e he

theorem foldl_digits_lt {ds : List Nat} (h : ∀ d ∈ ds, d < 10) :
    ds.foldl (fun n d => 10 * n + d) 0 < 10 ^ ds.length := by
  induction ds using List.reverseRecOn with
  | nil => decide
  | append_singleton ds d ih =>
      have hlast := h d (by simp)
      have hbefore := ih fun e he => h e (List.mem_append_left _ he)
      rw [List.foldl_append, List.foldl_cons, List.foldl_nil, List.length_append,
        List.length_singleton, pow_succ]
      omega

/-- No number that is read has more digits than the interpreter converts. -/
theorem readNat_lt {l : List Char} {n : Nat} (h : readNat l = some n) : n < 10 ^ maxDigits := by
  unfold readNat at h
  split at h
  · cases h
  · rename_i ds hds
    split at h
    · rename_i hlength
      obtain rfl := Option.some.inj h
      exact (foldl_digits_lt (readDigits_lt hds)).trans_le
        (Nat.pow_le_pow_right (by decide) hlength)
    · cases h

/-- A number that is read is that of its digits, with a sign or without one. -/
theorem readInt_eq_some {s : String} {n : Int} (h : readInt s = some n) :
    ∃ m : Nat, m < 10 ^ maxDigits ∧ (n = m ∨ (n = -m ∧ '-' ∈ s.toList)) := by
  have hvalue : ∀ {l : List Char} {f : Int → Int},
      ((readNat l).bind fun m => some (m : Int)).map f = some n →
        ∃ m : Nat, m < 10 ^ maxDigits ∧ n = f m := by
    intro l f hread
    obtain ⟨_, hbind, rfl⟩ := Option.map_eq_some_iff.mp hread
    obtain ⟨m, hm, hcast⟩ := Option.bind_eq_some_iff.mp hbind
    exact ⟨m, readNat_lt hm, congrArg f (Option.some.inj hcast).symm⟩
  unfold readInt at h
  split at h
  · rename_i ds heq
    have hminus : '-' ∈ (s.toList.dropWhile isNumberSpace).rdropWhile isNumberSpace :=
      heq ▸ List.mem_cons_self
    have hmem := (List.dropWhile_sublist _).subset ((List.rdropWhile_prefix _ _).subset hminus)
    obtain ⟨m, hm, rfl⟩ := hvalue h
    exact ⟨m, hm, .inr ⟨rfl, hmem⟩⟩
  · obtain ⟨m, hm, rfl⟩ := hvalue h
    exact ⟨m, hm, .inl rfl⟩
  · obtain ⟨m, hm, rfl⟩ := hvalue h
    exact ⟨m, hm, .inl rfl⟩

theorem readInt_lt {s : String} {n : Int} (h : readInt s = some n) :
    n.toNat < 10 ^ maxDigits := by
  obtain ⟨m, hm, rfl | ⟨rfl, -⟩⟩ := readInt_eq_some h
  · rwa [Int.toNat_natCast]
  · refine lt_of_le_of_lt ?_ hm
    omega

/-- A text without a minus is read as no negative number. -/
theorem readInt_nonneg {s : String} (hminus : '-' ∉ s.toList) {n : Int}
    (h : readInt s = some n) : 0 ≤ n := by
  obtain ⟨m, -, rfl | ⟨-, hmem⟩⟩ := readInt_eq_some h
  · exact Int.natCast_nonneg m
  · exact absurd hmem hminus

/-! ## Texts of digits that are written -/

/-- Digits that do not begin with a zero, unless there is no other. -/
def Canonical (l : List Char) : Prop :=
  l ≠ [] ∧ (∀ c ∈ l, c.isDigit = true) ∧ (l.head? = some '0' → l = ['0'])

theorem digitChar_of_isDigit {c : Char} (h : c.isDigit = true) :
    Nat.digitChar (c.toNat - 48) = c := by
  obtain ⟨hlow, hhigh⟩ := toNat_of_isDigit h
  have hdigits : ∀ n ∈ List.range 10, Nat.digitChar n = Char.ofNat (48 + n) := by decide
  rw [hdigits _ (List.mem_range.mpr (by omega)), Nat.add_sub_cancel' hlow, Char.ofNat_toNat]

/-- Such digits are the ones that are written of their value. -/
theorem toDigits_ofDigitChars {l : List Char} (h : Canonical l) :
    Nat.toDigits 10 (Nat.ofDigitChars 10 l 0) = l := by
  induction l using List.reverseRecOn with
  | nil => exact absurd rfl h.1
  | append_singleton l c ih =>
      obtain ⟨-, hdigits, hzero⟩ := h
      have hc : c.isDigit = true := hdigits c (by simp)
      obtain ⟨hlow, hhigh⟩ := toNat_of_isDigit hc
      have hvalue : Nat.ofDigitChars 10 (l ++ [c]) 0 =
          10 * Nat.ofDigitChars 10 l 0 + (c.toNat - 48) := by
        rw [Nat.ofDigitChars_append, Nat.ofDigitChars_cons, Nat.ofDigitChars_nil]
        rfl
      by_cases hnil : l = []
      · subst hnil
        rw [hvalue, Nat.ofDigitChars_nil, Nat.toDigits_of_lt_base (by omega)]
        simp [digitChar_of_isDigit hc]
      · have hhead : (l ++ [c]).head? = l.head? := List.head?_append_of_ne_nil _ hnil
        -- a zero in front would be all there is
        have hnotZero : l.head? ≠ some '0' := by
          intro heq
          have hsingle := congrArg List.length (hzero (hhead.trans heq))
          exact hnil (by simpa using hsingle)
        have hcanonical : Canonical l :=
          ⟨hnil, fun d hd => hdigits d (List.mem_append_left _ hd), fun heq => absurd heq hnotZero⟩
        have hwritten := ih hcanonical
        have hpositive : 0 < Nat.ofDigitChars 10 l 0 := by
          refine Nat.pos_of_ne_zero fun heq => hnotZero ?_
          rw [heq] at hwritten
          rw [← hwritten]
          rfl
        rw [hvalue, ← Nat.toDigits_append_toDigits (by decide) hpositive (by omega), hwritten,
          Nat.toDigits_of_lt_base (by omega), digitChar_of_isDigit hc]

end SeapathWebui.Foundation.Text
