import LayeredConfig.Double.Shortest
/-!
# Durations

A duration is a whole number of microseconds within 999999999 days of zero, kept as days, seconds
within the day and microseconds within the second; only the days may be negative. The invariants are
part of the type, so two durations are equal exactly when they are equally long.
-/
namespace LayeredConfig

/-- A duration of microsecond precision. -/
structure Duration where
  days : Int
  seconds : Nat
  micros : Nat
  days_ge : -999999999 ≤ days
  days_le : days ≤ 999999999
  seconds_lt : seconds < 86400
  micros_lt : micros < 1000000
  deriving DecidableEq

namespace Duration

def dayMicros : Int := 86400000000

/-- The duration of so many microseconds, if it is in range. -/
def ofMicros? (n : Int) : Option Duration :=
  let inDay := (n % dayMicros).toNat
  if h : -999999999 ≤ n / dayMicros ∧ n / dayMicros ≤ 999999999 then
    some {
      days := n / dayMicros
      seconds := inDay / 1000000
      micros := inDay % 1000000
      days_ge := h.1
      days_le := h.2
      seconds_lt := by simp only [dayMicros, inDay]; omega
      micros_lt := Nat.mod_lt _ (by decide) }
  else none

/-- The duration of so many milliseconds, if it is in range. -/
def ofMillis? (n : Int) : Option Duration := ofMicros? (n * 1000)

def toMicros (d : Duration) : Int := (d.days * 86400 + d.seconds) * 1000000 + d.micros

/-- The length in nanoseconds, exactly. -/
def toNanos (d : Duration) : Int := (d.days * 86400 + d.seconds) * 1000000000 + d.micros * 1000

/-- The length in seconds, rounded to the nearest binary64 number. -/
def toSeconds (d : Duration) : Double :=
  Double.ofQuotient (decide (d.toMicros < 0)) d.toMicros.natAbs 1000000

/-- The parts that are not zero, each with its name. -/
def parts (d : Duration) : List String :=
  (if d.days = 0 then [] else ["days=" ++ Text.decimal d.days]) ++
  (if d.seconds = 0 then [] else ["seconds=" ++ Text.decimal d.seconds]) ++
  (if d.micros = 0 then [] else ["microseconds=" ++ Text.decimal d.micros])

def shown (d : Duration) : String :=
  "datetime.timedelta(" ++ (if d.parts.isEmpty then "0" else ", ".intercalate d.parts) ++ ")"

/-- A duration as it is listed for the user: whole milliseconds, else seconds. -/
def listed (d : Duration) : String :=
  if d.micros % 1000 = 0 then Text.decimal (d.toMicros / 1000) ++ "ms" else d.toSeconds.text ++ "s"

end Duration
end LayeredConfig
