namespace CodeGraph.Text

/-! Points in time as text. -/

def twoDigits (n : Nat) : String :=
  (if n < 10 then "0" else "") ++ toString n

/-- The date a number of days after the first of January 1970.  Years are counted from March, so
that a leap day is the last day of its year. -/
def dateText (days : Nat) : String :=
  let shifted := days + 719468
  let era := shifted / 146097
  let dayOfEra := shifted % 146097
  let yearOfEra := (dayOfEra - dayOfEra / 1460 + dayOfEra / 36524 - dayOfEra / 146096) / 365
  let dayOfYear := dayOfEra - (365 * yearOfEra + yearOfEra / 4 - yearOfEra / 100)
  let marchMonth := (5 * dayOfYear + 2) / 153
  let day := dayOfYear - (153 * marchMonth + 2) / 5 + 1
  let month := if marchMonth < 10 then marchMonth + 3 else marchMonth - 9
  let year := yearOfEra + era * 400 + (if month ≤ 2 then 1 else 0)
  toString year ++ "-" ++ twoDigits month ++ "-" ++ twoDigits day

/-- A point in universal time, in seconds since the start of 1970. -/
def timestampText (seconds : Nat) : String :=
  let time := seconds % 86400
  dateText (seconds / 86400) ++ "T" ++ twoDigits (time / 3600) ++ ":" ++
    twoDigits (time / 60 % 60) ++ ":" ++ twoDigits (time % 60) ++ "+00:00"

end CodeGraph.Text
