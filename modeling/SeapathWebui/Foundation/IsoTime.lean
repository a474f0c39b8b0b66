/-
  Foundation/IsoTime.lean --- times with an offset, in the extended form of ISO 8601.

  `2026-01-02T03:04:05+01:00`: fields of a fixed width, a sign, and how far the clock is
  from UTC.  That the day exists and the time is one of a clock is part of the type.  What
  is written of a time whose year has four digits is read back as that time
  (`readIso_text`), whatever the minutes of its zone; a zone that is a hundred hours away
  takes more places, and a year that is later.
-/
import SeapathWebui.Foundation.FixedWidth

set_option autoImplicit false

namespace SeapathWebui.Foundation

open SeapathWebui.Foundation.Text

/-! ## Times -/

def isLeap (year : Nat) : Bool := (year % 4 == 0 && year % 100 != 0) || year % 400 == 0

def daysInMonth (year month : Nat) : Nat :=
  match month with
  | 2 => if isLeap year then 29 else 28
  | 4 | 6 | 9 | 11 => 30
  | _ => 31

theorem daysInMonth_le (year month : Nat) : daysInMonth year month ≤ 31 := by
  unfold daysInMonth
  split
  · split <;> omega
  all_goals omega

/-- A day, and a time of it. -/
structure ClockTime where
  year : Nat
  month : Nat
  day : Nat
  hour : Nat
  minute : Nat
  second : Nat
  month_range : 1 ≤ month ∧ month ≤ 12
  day_range : 1 ≤ day ∧ day ≤ daysInMonth year month
  time_range : hour < 24 ∧ minute < 60 ∧ second < 60
  deriving DecidableEq

/-- How far a clock is from UTC. -/
structure Zone where
  west : Bool
  hours : Nat
  minutes : Nat
  minutes_range : minutes < 100
  deriving DecidableEq

/-- The minutes it is ahead. -/
def Zone.offset (z : Zone) : Int :=
  if z.west then -((60 * z.hours + z.minutes : Nat) : Int) else (60 * z.hours + z.minutes : Nat)

/-! ## Writing -/

def ClockTime.text (t : ClockTime) : List Char :=
  padDecimal 4 t.year ++ '-' :: (padDecimal 2 t.month ++ '-' :: (padDecimal 2 t.day ++
    'T' :: (padDecimal 2 t.hour ++ ':' :: (padDecimal 2 t.minute ++ ':' :: padDecimal 2 t.second))))

/-- With `zulu` the zone of UTC is a letter. -/
def Zone.text (zulu : Bool) (z : Zone) : List Char :=
  if zulu && z.offset == 0 then ['Z']
  else (if z.west then '-' else '+') :: (padDecimal 2 z.hours ++ ':' :: padDecimal 2 z.minutes)

/-- Neither has white space. -/
theorem isSpace_of_mem_text {t : ClockTime} {c : Char} (h : c ∈ t.text) : isSpace c = false := by
  have hpad : ∀ {w n : Nat} {c : Char}, c ∈ padDecimal w n → isSpace c = false :=
    fun h => isSpace_of_isDigit (isDigit_of_mem_padDecimal h)
  simp only [ClockTime.text, List.mem_append, List.mem_cons] at h
  rcases h with h | rfl | h | rfl | h | rfl | h | rfl | h | rfl | h
  all_goals first | exact hpad h | decide

theorem isSpace_of_mem_zone {zulu : Bool} {z : Zone} {c : Char} (h : c ∈ z.text zulu) :
    isSpace c = false := by
  have hpad : ∀ {w n : Nat} {c : Char}, c ∈ padDecimal w n → isSpace c = false :=
    fun h => isSpace_of_isDigit (isDigit_of_mem_padDecimal h)
  unfold Zone.text at h
  split at h
  · rw [List.mem_singleton.mp h]
    decide
  · simp only [List.mem_cons, List.mem_append] at h
    rcases h with rfl | h | rfl | h
    · split <;> decide
    · exact hpad h
    · decide
    · exact hpad h

/-! ## Reading -/

/-- A number of so many digits. -/
def readNumber (width : Nat) (l : List Char) : Option (Nat × List Char) :=
  let digits := l.take width
  if digits.length = width ∧ digits.all Char.isDigit = true then
    some (Nat.ofDigitChars 10 digits 0, l.drop width)
  else none

/-- The character that must come next. -/
def readChar (c : Char) : List Char → Option (List Char)
  | [] => none
  | d :: l => if d = c then some l else none

/-- A number, after the character that must come before it. -/
def readField (c : Char) (width : Nat) (l : List Char) : Option (Nat × List Char) :=
  (readChar c l).bind (readNumber width)

/-- The day exists, and the time is one of a clock. -/
def clockTime? (year month day hour minute second : Nat) : Option ClockTime :=
  if h : (1 ≤ month ∧ month ≤ 12) ∧ (1 ≤ day ∧ day ≤ daysInMonth year month) ∧
      (hour < 24 ∧ minute < 60 ∧ second < 60) then
    some ⟨year, month, day, hour, minute, second, h.1, h.2.1, h.2.2⟩
  else none

def readClock (l : List Char) : Option (ClockTime × List Char) := do
  let (year, l) ← readNumber 4 l
  let (month, l) ← readField '-' 2 l
  let (day, l) ← readField '-' 2 l
  let (hour, l) ← readField 'T' 2 l
  let (minute, l) ← readField ':' 2 l
  let (second, l) ← readField ':' 2 l
  let time ← clockTime? year month day hour minute second
  some (time, l)

/-- Hours and minutes, to the end of the text. -/
def readMinutes (l : List Char) : Option Nat := do
  let (hours, l) ← readNumber 2 l
  let (minutes, l) ← readField ':' 2 l
  if l = [] then some (60 * hours + minutes) else none

/-- The offset, to the end of the text. -/
def readZone : List Char → Option Int
  | '+' :: l => (readMinutes l).map fun minutes => (minutes : Int)
  | '-' :: l => (readMinutes l).map fun minutes => -(minutes : Int)
  | l => if l = ['Z'] then some 0 else none

def readIso (s : String) : Option (ClockTime × Int) := do
  let (time, l) ← readClock s.toList
  let offset ← readZone l
  some (time, offset)

/-! ## Reading what is written -/

theorem readNumber_padDecimal {width n : Nat} (hwidth : 0 < width) (h : n < 10 ^ width)
    (rest : List Char) : readNumber width (padDecimal width n ++ rest) = some (n, rest) := by
  have hlength := length_padDecimal hwidth h
  have htake : (padDecimal width n ++ rest).take width = padDecimal width n :=
    List.take_left' hlength
  have hdrop : (padDecimal width n ++ rest).drop width = rest := List.drop_left' hlength
  have hdigits : (padDecimal width n).all Char.isDigit = true :=
    List.all_eq_true.mpr fun _ => isDigit_of_mem_padDecimal
  rw [readNumber, htake, hdrop, if_pos ⟨hlength, hdigits⟩, ofDigitChars_padDecimal]

theorem readField_padDecimal {c : Char} {width n : Nat} (hwidth : 0 < width) (h : n < 10 ^ width)
    (rest : List Char) :
    readField c width (c :: (padDecimal width n ++ rest)) = some (n, rest) := by
  rw [readField, readChar, if_pos rfl, Option.bind_some, readNumber_padDecimal hwidth h]

theorem readClock_text (t : ClockTime) (h : t.year ≤ 9999) (rest : List Char) :
    readClock (t.text ++ rest) = some (t, rest) := by
  have hdays := daysInMonth_le t.year t.month
  have hmonth := t.month_range
  have hday := t.day_range
  have htime := t.time_range
  have hsplit : t.text ++ rest = padDecimal 4 t.year ++ '-' :: (padDecimal 2 t.month ++
      '-' :: (padDecimal 2 t.day ++ 'T' :: (padDecimal 2 t.hour ++ ':' :: (padDecimal 2 t.minute ++
        ':' :: (padDecimal 2 t.second ++ rest))))) := by
    simp [ClockTime.text]
  have hclock : clockTime? t.year t.month t.day t.hour t.minute t.second = some t :=
    dif_pos ⟨hmonth, hday, htime⟩
  unfold readClock
  rw [hsplit, readNumber_padDecimal (by decide) (by omega)]
  simp only [Option.bind_eq_bind, Option.bind_some]
  rw [readField_padDecimal (by decide) (by omega)]
  simp only [Option.bind_some]
  rw [readField_padDecimal (by decide) (by omega)]
  simp only [Option.bind_some]
  rw [readField_padDecimal (by decide) (by omega)]
  simp only [Option.bind_some]
  rw [readField_padDecimal (by decide) (by omega)]
  simp only [Option.bind_some]
  rw [readField_padDecimal (by decide) (by omega)]
  simp only [Option.bind_some, hclock]

theorem readMinutes_padDecimal {hours minutes : Nat} (hhours : hours < 100)
    (hminutes : minutes < 100) :
    readMinutes (padDecimal 2 hours ++ ':' :: padDecimal 2 minutes) =
      some (60 * hours + minutes) := by
  have hfield : readField ':' 2 (':' :: padDecimal 2 minutes) = some (minutes, []) := by
    have hall : readField ':' 2 (':' :: (padDecimal 2 minutes ++ [])) = some (minutes, []) :=
      readField_padDecimal (by decide) hminutes []
    rwa [List.append_nil] at hall
  unfold readMinutes
  rw [readNumber_padDecimal (by decide) hhours]
  simp only [Option.bind_eq_bind, Option.bind_some, hfield, if_true]

theorem readZone_text (zulu : Bool) {z : Zone} (h : z.hours < 100) :
    readZone (z.text zulu) = some z.offset := by
  have hminutes := readMinutes_padDecimal h z.minutes_range
  unfold Zone.text
  split
  · rename_i hzero
    have hoffset : z.offset = 0 := by simpa using (Bool.and_eq_true_iff.mp hzero).2
    rw [hoffset]
    rfl
  · cases hwest : z.west with
    | false =>
        rw [if_neg Bool.false_ne_true, readZone, hminutes, Zone.offset, hwest]
        rfl
    | true =>
        rw [if_pos rfl, readZone, hminutes, Zone.offset, hwest]
        rfl

/-- What is written of a time is read back as that time, and the minutes it is ahead. -/
theorem readIso_text (zulu : Bool) {t : ClockTime} {z : Zone} (hyear : t.year ≤ 9999)
    (hzone : z.hours < 100) :
    readIso (String.ofList (t.text ++ z.text zulu)) = some (t, z.offset) := by
  rw [readIso, String.toList_ofList, readClock_text t hyear]
  simp only [Option.bind_eq_bind, Option.bind_some, readZone_text zulu hzone]

end SeapathWebui.Foundation
