import WillItRecycle.WordOrder
import Mathlib.Data.String.Basic
import Mathlib.Tactic.IntervalCases

/-!
# Dates in short style

REDEEM stores the moment as text, in the short style of the locale: month, day
and year, then the hour with its half of the day.  Only the year and the minute
have leading zeroes.

Two texts compare as the months, the days, the years of the century, the hours,
the minutes and the halves of the day do, the numbers without leading zeroes
taken as text (`dateString_lt_iff`).
-/

namespace WillItRecycle

open WordOrder

/-- A leap year of the Gregorian calendar. -/
def leapYear (year : Nat) : Bool := year % 4 = 0 && (year % 100 ≠ 0 || year % 400 = 0)

/-- The days of a month, which bound the day of a moment. -/
def daysInMonth (year month : Nat) : Nat :=
  if month = 2 then if leapYear year then 29 else 28
  else if month ∈ [4, 6, 9, 11] then 30
  else 31

/-- What the calendar of the locale makes of a `Date`, to the minute. -/
structure Moment where
  year : Nat
  month : Nat
  day : Nat
  hour : Nat
  minute : Nat
  month_mem : 1 ≤ month ∧ month ≤ 12
  day_mem : 1 ≤ day ∧ day ≤ daysInMonth year month
  hour_lt : hour < 24
  minute_lt : minute < 60
  deriving DecidableEq, Repr

/-- A number below a hundred with two digits, with a leading zero where it needs one. -/
def twoDigits (n : Nat) : String := if n < 10 then "0" ++ toString n else toString n

namespace Moment

/-- Moments follow one another as these do. -/
def parts (moment : Moment) : List Nat :=
  [moment.year, moment.month, moment.day, moment.hour, moment.minute]

/-- The hour of the half of the day. -/
def hour12 (moment : Moment) : Nat :=
  if moment.hour % 12 = 0 then 12 else moment.hour % 12

/-- The half of the day, as the short style prints it after the time. -/
def half (moment : Moment) : String := if moment.hour < 12 then "AM" else "PM"

/-- `formatter.string(from:)` with short style, as `M/d/yy, h:mm a`. -/
def dateString (moment : Moment) : String :=
  toString moment.month ++ "/" ++ toString moment.day ++ "/" ++
    twoDigits (moment.year % 100) ++ ", " ++ toString moment.hour12 ++ ":" ++
    twoDigits moment.minute ++ " " ++ moment.half

end Moment

/-! ## How the texts compare -/

/-- The place of a number among the texts of up to two digits, when a separator
follows that comes before all digits, or after them. -/
def numberRank (sepFirst : Bool) (n : Nat) : Nat :=
  if n < 10 then 11 * n + (if sepFirst then 0 else 10)
  else 11 * (n / 10) + n % 10 + (if sepFirst then 1 else 0)

/-- A slash comes before all digits: 1, 10, 11 and so on up to 19, then 2. -/
def slashRank : Nat → Nat := numberRank true

/-- A colon comes after all digits: 10, 11 and so on up to 19, then 1. -/
def colonRank : Nat → Nat := numberRank false

/-- The texts of the moments compare as these do. -/
def Moment.ranks (moment : Moment) : List Nat :=
  [slashRank moment.month, slashRank moment.day, moment.year % 100,
    colonRank moment.hour12, moment.minute, moment.hour / 12]

/-- A number below ten is printed as its one digit. -/
theorem toList_toString_of_lt_ten {n : Nat} (h : n < 10) :
    (toString n).toList = [Nat.digitChar n] := by
  have hchars : (toString n).toList = Nat.toDigits 10 n := Nat.toList_repr
  rw [hchars, Nat.toDigits_of_lt_base h]

/-- A number from 10 to 99 is printed as its tens and its ones. -/
theorem toList_toString_of_lt_hundred {n : Nat} (hten : 10 ≤ n) (h : n < 100) :
    (toString n).toList = [Nat.digitChar (n / 10), Nat.digitChar (n % 10)] := by
  have hchars : (toString n).toList = Nat.toDigits 10 n := Nat.toList_repr
  rw [hchars, Nat.toDigits_of_base_le (by omega) hten, Nat.toDigits_of_lt_base (by omega)]
  rfl

/-- With a leading zero, every number below a hundred is printed as its tens and its ones.
-/
theorem toList_twoDigits {n : Nat} (h : n < 100) :
    (twoDigits n).toList = [Nat.digitChar (n / 10), Nat.digitChar (n % 10)] := by
  unfold twoDigits
  by_cases hten : n < 10
  · have htens : n / 10 = 0 := by omega
    have hunits : n % 10 = n := by omega
    rw [if_pos hten, String.toList_append, toList_toString_of_lt_ten hten, htens, hunits]
    rfl
  · rw [if_neg hten, toList_toString_of_lt_hundred (by omega) h]

/-- Digits are ordered as characters the way they are ordered as numbers. -/
theorem digitChar_lt_iff {m n : Nat} (hm : m < 10) (hn : n < 10) :
    Nat.digitChar m < Nat.digitChar n ↔ m < n := by
  have hall : ∀ m n : Fin 10, Nat.digitChar m < Nat.digitChar n ↔ m.val < n.val := by
    decide
  exact hall ⟨m, hm⟩ ⟨n, hn⟩

/-- Different digits are different characters. -/
theorem digitChar_inj {m n : Nat} (hm : m < 10) (hn : n < 10) :
    Nat.digitChar m = Nat.digitChar n ↔ m = n := by
  have hall : ∀ m n : Fin 10, Nat.digitChar m = Nat.digitChar n ↔ m.val = n.val := by
    decide
  exact hall ⟨m, hm⟩ ⟨n, hn⟩

/-- Numbers printed with two digits are ordered as the numbers are. -/
theorem fieldRank_twoDigits {m n : Nat} (hm : m < 100) (hn : n < 100) :
    FieldRank (twoDigits m).toList (twoDigits n).toList m n := by
  have htens := digitChar_inj (by omega : m / 10 < 10) (by omega : n / 10 < 10)
  have hunits := digitChar_inj (by omega : m % 10 < 10) (by omega : n % 10 < 10)
  have htens' := digitChar_lt_iff (by omega : m / 10 < 10) (by omega : n / 10 < 10)
  have hunits' := digitChar_lt_iff (by omega : m % 10 < 10) (by omega : n % 10 < 10)
  rw [toList_twoDigits hm, toList_twoDigits hn]
  refine fieldRank_of_length (by simp) ?_ ?_
  · simp only [List.cons.injEq, htens, hunits, and_true]
    omega
  · simp only [List.cons_lt_cons_iff, htens, hunits', htens', lt_irrefl, and_false, or_false]
    omega

/-! A number with a separator after it. -/

section Number

variable {sep : Char} {sepFirst : Bool}

/-- One digit against one digit: the digits decide. -/
theorem fieldRank_one {m n : Nat} (hm : m < 10) (hn : n < 10) :
    FieldRank ((toString m).toList ++ [sep]) ((toString n).toList ++ [sep])
      (numberRank sepFirst m) (numberRank sepFirst n) := by
  have hdigit := digitChar_inj hm hn
  have hdigit' := digitChar_lt_iff hm hn
  rw [toList_toString_of_lt_ten hm, toList_toString_of_lt_ten hn]
  refine fieldRank_of_length (by simp) ?_ ?_
  · simp [hdigit, numberRank, hm, hn]
  · simp [hdigit', numberRank, hm, hn, List.cons_lt_cons_iff]

/-- Two digits against two digits: the tens decide, and then the ones. -/
theorem fieldRank_two {m n : Nat} (hm10 : 10 ≤ m) (hn10 : 10 ≤ n) (hm : m < 100)
    (hn : n < 100) :
    FieldRank ((toString m).toList ++ [sep]) ((toString n).toList ++ [sep])
      (numberRank sepFirst m) (numberRank sepFirst n) := by
  have htens := digitChar_inj (by omega : m / 10 < 10) (by omega : n / 10 < 10)
  have hunits := digitChar_inj (by omega : m % 10 < 10) (by omega : n % 10 < 10)
  have htens' := digitChar_lt_iff (by omega : m / 10 < 10) (by omega : n / 10 < 10)
  have hunits' := digitChar_lt_iff (by omega : m % 10 < 10) (by omega : n % 10 < 10)
  rw [toList_toString_of_lt_hundred hm10 hm, toList_toString_of_lt_hundred hn10 hn]
  refine fieldRank_of_length (by simp) ?_ ?_
  · simp [htens, hunits, numberRank, hm10.not_gt, hn10.not_gt]
    omega
  · simp [List.cons_lt_cons_iff, htens, hunits', htens', numberRank, hm10.not_gt, hn10.not_gt]
    omega

variable (hsep : ∀ d < 10, sep ≠ Nat.digitChar d ∧
  (sep < Nat.digitChar d ↔ sepFirst = true))
include hsep

/-- One digit against two: the separator after the one digit meets the ones of the other,
so the order depends on where the separator stands among the digits. -/
theorem fieldRank_oneTwo {m n : Nat} (hm : m < 10) (hn10 : 10 ≤ n) (hn : n < 100) :
    FieldRank ((toString m).toList ++ [sep]) ((toString n).toList ++ [sep])
      (numberRank sepFirst m) (numberRank sepFirst n) := by
  have htens := digitChar_inj hm (by omega : n / 10 < 10)
  have htens' := digitChar_lt_iff hm (by omega : n / 10 < 10)
  obtain ⟨hne, hfirst⟩ := hsep (n % 10) (by omega)
  rw [toList_toString_of_lt_ten hm, toList_toString_of_lt_hundred hn10 hn]
  refine ⟨?_, ?_, ?_, ?_⟩
  · simp [List.cons_prefix_cons, hne]
  · simp [List.cons_prefix_cons, hne.symm]
  · simp [numberRank, hm, hn10.not_gt]
    cases sepFirst <;> simp <;> omega
  · simp [List.cons_lt_cons_iff, htens, htens', hne, hfirst, numberRank, hm, hn10.not_gt]
    cases sepFirst <;> simp <;> omega

/-- Numbers below a hundred that end with a separator are ordered by `numberRank`,
whatever their number of digits. -/
theorem fieldRank_number {m n : Nat} (hm : m < 100) (hn : n < 100) :
    FieldRank ((toString m).toList ++ [sep]) ((toString n).toList ++ [sep])
      (numberRank sepFirst m) (numberRank sepFirst n) := by
  by_cases hm10 : m < 10
  · by_cases hn10 : n < 10
    · exact fieldRank_one hm10 hn10
    · exact fieldRank_oneTwo hsep hm10 (by omega) hn
  · by_cases hn10 : n < 10
    · exact (fieldRank_oneTwo hsep hn10 (by omega) hm).symm
    · exact fieldRank_two (by omega) (by omega) hm hn

end Number

/-- A slash stands before every digit, so that a shorter number of the date comes first.
-/
theorem slash_first : ∀ d < 10, '/' ≠ Nat.digitChar d ∧
    ('/' < Nat.digitChar d ↔ true = true) := by
  decide

/-- A colon stands after every digit, so that a shorter hour comes last. -/
theorem colon_last : ∀ d < 10, ':' ≠ Nat.digitChar d ∧
    (':' < Nat.digitChar d ↔ false = true) := by
  decide

namespace Moment

/-- A month is printed with at most two digits. -/
theorem month_lt (moment : Moment) : moment.month < 100 := by
  have hmonth := moment.month_mem
  omega

/-- A day is printed with at most two digits. -/
theorem day_lt (moment : Moment) : moment.day < 100 := by
  have hday := moment.day_mem.2
  unfold daysInMonth at hday
  split_ifs at hday <;> omega

/-- A year is printed by its last two digits. -/
theorem yearOfCentury_lt (moment : Moment) : moment.year % 100 < 100 := by
  omega

/-- An hour is printed from 12 and 1 to 11, with at most two digits. -/
theorem hour12_lt (moment : Moment) : moment.hour12 < 100 := by
  unfold hour12
  split <;> omega

/-- A minute is printed with two digits. -/
theorem minute_lt_hundred (moment : Moment) : moment.minute < 100 := by
  have hminute := moment.minute_lt
  omega

/-- The half printed says in which half of the day the hour is. -/
theorem half_cases (moment : Moment) :
    moment.half = "AM" ∧ moment.hour / 12 = 0 ∨ moment.half = "PM" ∧ moment.hour / 12 = 1 := by
  have hhour := moment.hour_lt
  unfold half
  by_cases ham : moment.hour < 12
  · exact Or.inl ⟨if_pos ham, by omega⟩
  · exact Or.inr ⟨if_neg ham, by omega⟩

/-- The halves are ordered as texts the way they are ordered in the day. -/
theorem fieldRank_half (moment other : Moment) :
    FieldRank moment.half.toList other.half.toList (moment.hour / 12) (other.hour / 12) := by
  rcases half_cases moment with ⟨hhalf, hrank⟩ | ⟨hhalf, hrank⟩ <;>
    rcases half_cases other with ⟨hhalf', hrank'⟩ | ⟨hhalf', hrank'⟩ <;>
    rw [hhalf, hhalf', hrank, hrank'] <;>
    exact fieldRank_of_length rfl (by decide) (by decide)

/-- **The texts compare as the ranks of their fields.** -/
theorem dateString_lt_iff (moment other : Moment) :
    moment.dateString < other.dateString ↔ moment.ranks < other.ranks := by
  have hmonth := fieldRank_number slash_first moment.month_lt other.month_lt
  have hday := fieldRank_number slash_first moment.day_lt other.day_lt
  have hyear := fieldRank_twoDigits moment.yearOfCentury_lt other.yearOfCentury_lt
  have hhour := fieldRank_number colon_last moment.hour12_lt other.hour12_lt
  have hminute := fieldRank_twoDigits moment.minute_lt_hundred other.minute_lt_hundred
  have hhalf := fieldRank_half moment other
  have hfields := hmonth.compareAs.append (hday.compareAs.append (hyear.compareAs.append
    ((CompareAs.refl ", ".toList).append (hhour.compareAs.append (hminute.compareAs.append
      ((CompareAs.refl " ".toList).append hhalf.compareAs))))))
  have htext : ∀ moment : Moment, moment.dateString.toList =
      ((toString moment.month).toList ++ ['/']) ++ (((toString moment.day).toList ++ ['/']) ++
        ((twoDigits (moment.year % 100)).toList ++ (", ".toList ++
          (((toString moment.hour12).toList ++ [':']) ++ ((twoDigits moment.minute).toList ++
            (" ".toList ++ moment.half.toList)))))) := by
    intro moment
    simp [dateString, String.toList_append]
  rw [String.lt_iff_toList_lt, htext, htext]
  exact hfields.lt_iff

end Moment

end WillItRecycle
