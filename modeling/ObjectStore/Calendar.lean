import ObjectStore.Text.Hex

/-
  Instants and their text.

  An instant is a number of seconds since the start of 1970 and a number of
  nanoseconds into that second. A leap second has no number of its own: it is the
  second before it with a thousand million nanoseconds more.

    1. `Timestamp.compare` orders by seconds, then by nanoseconds.
    2. `civil` is the date of a day in the Gregorian calendar, in either
       direction without end.
    3. `Timestamp.text` is the date and time with offset zero: as many digits of
       the fraction as are needed in steps of three, second 60 for a leap second,
       and a signed year beyond four digits.
-/

namespace ObjectStore

structure Timestamp where
  seconds : Int
  nanos : Nat
  deriving DecidableEq, Repr, Inhabited

namespace Timestamp

def epoch : Timestamp := ⟨0, 0⟩

/-- Instants in the order of time. -/
def compare (a b : Timestamp) : Ordering :=
  (Ord.compare a.seconds b.seconds).then (Ord.compare a.nanos b.nanos)

/-- A date of the Gregorian calendar. -/
structure Date where
  year : Int
  month : Nat
  day : Nat
  deriving DecidableEq, Repr

/-- The date of a day, counted from the start of 1970. The count is moved to the
first of March of year zero, so that a leap day ends its year, and is split into
spans of 400 years, which all have 146097 days. -/
def civil (days : Int) : Date :=
  let shifted := days + 719468
  let era := Int.fdiv shifted 146097
  let dayOfEra := (shifted - era * 146097).toNat
  let yearOfEra := (dayOfEra - dayOfEra / 1460 + dayOfEra / 36524 - dayOfEra / 146096) / 365
  let dayOfYear := dayOfEra - (365 * yearOfEra + yearOfEra / 4 - yearOfEra / 100)
  let shiftedMonth := (5 * dayOfYear + 2) / 153
  let day := dayOfYear - (153 * shiftedMonth + 2) / 5 + 1
  let month := if shiftedMonth < 10 then shiftedMonth + 3 else shiftedMonth - 9
  let year := yearOfEra + era * 400 + (if month ≤ 2 then 1 else 0)
  ⟨year, month, day⟩

/-- A year in four digits; beyond them, and before year zero, with its sign. -/
def yearText (year : Int) : String :=
  if 0 ≤ year ∧ year ≤ 9999 then Text.padded 4 year.toNat
  else (if year < 0 then "-" else "+") ++ Text.padded 4 year.natAbs

/-- The fraction of a second with 0, 3, 6 or 9 digits. -/
def fractionText (nanos : Nat) : String :=
  if nanos = 0 then ""
  else if nanos % 1000000 = 0 then "." ++ Text.padded 3 (nanos / 1000000)
  else if nanos % 1000 = 0 then "." ++ Text.padded 6 (nanos / 1000)
  else "." ++ Text.padded 9 nanos

/-- Date, time and offset. -/
def text (t : Timestamp) : String :=
  let days := Int.fdiv t.seconds 86400
  let inDay := (t.seconds - days * 86400).toNat
  let date := civil days
  let second := inDay % 60 + t.nanos / 1000000000
  let two := Text.padded 2
  let clock := two (inDay / 3600) ++ ":" ++ two (inDay / 60 % 60) ++ ":" ++ two second
  yearText date.year ++ "-" ++ two date.month ++ "-" ++ two date.day ++ "T" ++ clock
    ++ fractionText (t.nanos % 1000000000) ++ "+00:00"

end Timestamp

end ObjectStore
