import RootFinding.Decimal.Text

namespace RootFinding.Timestamp

structure Date where
  year : Int
  month : Nat
  day : Nat
  deriving DecidableEq, Repr

/-- The date of a day counted from 1970-01-01. Years are taken to start in March, in eras of 400
years, so that the leap day comes last. -/
def dateOfDay (day : Int) : Date :=
  let shifted := day + 719468
  let era := shifted / 146097
  let dayOfEra := (shifted % 146097).toNat
  let yearOfEra := (dayOfEra - dayOfEra / 1460 + dayOfEra / 36524 - dayOfEra / 146096) / 365
  let dayOfYear := dayOfEra - (365 * yearOfEra + yearOfEra / 4 - yearOfEra / 100)
  let fromMarch := (5 * dayOfYear + 2) / 153
  let month := if fromMarch < 10 then fromMarch + 3 else fromMarch - 9
  let year := era * 400 + yearOfEra
  ⟨if month ≤ 2 then year + 1 else year, month, dayOfYear - (153 * fromMarch + 2) / 5 + 1⟩

def text (seconds : Int) (microseconds : Nat) : String :=
  let date := dateOfDay (seconds / 86400)
  let second := (seconds % 86400).toNat
  let two (n : Nat) : String := Decimal.paddedInt 2 n
  let fraction := if microseconds = 0 then "" else "." ++ Decimal.paddedInt 6 microseconds
  Decimal.paddedInt 4 date.year ++ "-" ++ two date.month ++ "-" ++ two date.day ++ "T" ++
    two (second / 3600) ++ ":" ++ two (second / 60 % 60) ++ ":" ++ two (second % 60) ++
    fraction ++ "+00:00"

end RootFinding.Timestamp
