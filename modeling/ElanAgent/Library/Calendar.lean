import Mathlib.Algebra.GroupWithZero.Nat

/-!
# Dates

The dates of the proleptic Gregorian calendar, and those that `strptime` reads under the
format `%Y-%m-%d`, a separator and `%H:%M:%S`. A number is a run of ASCII digits.
-/

namespace ElanAgent.Calendar

def isLeap (year : Nat) : Bool := year % 4 = 0 && (year % 100 ≠ 0 || year % 400 = 0)

def daysInMonth (year month : Nat) : Nat :=
  if month = 2 then if isLeap year then 29 else 28
  else if month ∈ [4, 6, 9, 11] then 30
  else 31

def daysBeforeMonth (year month : Nat) : Nat :=
  ((List.range (month - 1)).map fun m => daysInMonth year (m + 1)).sum

def daysBeforeYear (year : Nat) : Nat :=
  (year - 1) * 365 + (year - 1) / 4 - (year - 1) / 100 + (year - 1) / 400

/-- The date and the time exist. -/
abbrev Valid (year month day hour minute second : Nat) : Prop :=
  1 ≤ year ∧ 1 ≤ month ∧ month ≤ 12 ∧ 1 ≤ day ∧ day ≤ daysInMonth year month ∧
    hour < 24 ∧ minute < 60 ∧ second < 60

structure DateTime where
  year : Nat
  month : Nat
  day : Nat
  hour : Nat
  minute : Nat
  second : Nat
  valid : Valid year month day hour minute second

/-- The seconds since 1970, whose first day has the ordinal 719163. -/
def DateTime.epoch (date : DateTime) : ℤ :=
  (daysBeforeYear date.year + daysBeforeMonth date.year date.month + date.day - 719163 : ℤ) *
    86400 + date.hour * 3600 + date.minute * 60 + date.second

/-- A number of `least` to `most` digits, and the rest of the text. -/
def number (least most : Nat) (text : List Char) : Option (Nat × List Char) :=
  let digits := text.takeWhile Char.isDigit
  if least ≤ digits.length ∧ digits.length ≤ most then
    some (digits.foldl (fun n c => 10 * n + (c.toNat - '0'.toNat)) 0, text.dropWhile Char.isDigit)
  else none

/-- The text after the letter, in either case. -/
def letter (c : Char) : List Char → Option (List Char)
  | [] => none
  | d :: text => if d.toUpper = c then some text else none

/-- A day may be padded with a blank. -/
def dayOfMonth : List Char → Option (Nat × List Char)
  | ' ' :: text => number 1 1 text
  | text => number 1 2 text

/-- `datetime.datetime.strptime`, and nothing where it raises. -/
def strptime (separator : List Char → Option (List Char)) (text : List Char) :
    Option DateTime := do
  let (year, text) ← number 4 4 text
  let text ← letter '-' text
  let (month, text) ← number 1 2 text
  let text ← letter '-' text
  let (day, text) ← dayOfMonth text
  let text ← separator text
  let (hour, text) ← number 1 2 text
  let text ← letter ':' text
  let (minute, text) ← number 1 2 text
  let text ← letter ':' text
  let (second, text) ← number 1 2 text
  if valid : text = [] ∧ Valid year month day hour minute second then
    some { year, month, day, hour, minute, second, valid := valid.2 }
  else none

example : (strptime (letter 'T') "2024-02-29T12:00:00".toList).map DateTime.epoch =
    some 1709208000 := by decide

example : (strptime (letter 'T') "2023-02-29T12:00:00".toList).isNone := by decide

end ElanAgent.Calendar
