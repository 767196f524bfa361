/-!
# Instants

The time of a run, written in UTC with three decimal places, such as `2024-02-29T23:59:59.007Z`.
Days are counted in years that begin with March, so that a leap day ends its year, and in eras of
four hundred years, which all have the same number of days.
-/

namespace ManifestSync

/-- A time: the milliseconds since the begin of the year 1970 in UTC. -/
structure Instant where
  milliseconds : Nat
  deriving DecidableEq, Repr, Inhabited

/-- A day of the calendar. -/
structure Day where
  year : Nat
  month : Nat
  day : Nat
  deriving DecidableEq, Repr, Inhabited

/-- The days of an era. -/
def daysOfEra : Nat := 146097

/-- The day that is some days after the first of January 1970. -/
def Day.ofCount (count : Nat) : Day :=
  let shifted := count + 719468
  let inEra := shifted % daysOfEra
  let years := (inEra - inEra / 1460 + inEra / 36524 - inEra / (daysOfEra - 1)) / 365
  let inYear := inEra - (365 * years + years / 4 - years / 100)
  -- The months from March on have 153 days in every five.
  let months := (5 * inYear + 2) / 153
  let month := if months < 10 then months + 3 else months - 9
  { year := 400 * (shifted / daysOfEra) + years + (if month ≤ 2 then 1 else 0)
    month
    day := inYear - (153 * months + 2) / 5 + 1 }

/-- A number with at least so many digits. -/
def padded (width n : Nat) : String :=
  let digits := toString n
  String.ofList (List.replicate (width - digits.length) '0') ++ digits

/-- An instant in words. -/
def Instant.render (t : Instant) : String :=
  let seconds := t.milliseconds / 1000
  let inDay := seconds % 86400
  let day := Day.ofCount (seconds / 86400)
  padded 4 day.year ++ "-" ++ padded 2 day.month ++ "-" ++ padded 2 day.day ++ "T"
    ++ padded 2 (inDay / 3600) ++ ":" ++ padded 2 (inDay / 60 % 60) ++ ":" ++ padded 2 (inDay % 60)
    ++ "." ++ padded 3 (t.milliseconds % 1000) ++ "Z"

example : (Instant.mk 0).render = "1970-01-01T00:00:00.000Z" := by cbv

example : (Instant.mk 1709251199007).render = "2024-02-29T23:59:59.007Z" := by cbv

end ManifestSync
