import FileCensus.Decimal.Binary
import FileCensus.Decimal.Places

/-!
Times as dates of the Gregorian calendar in universal time, to the millisecond. A time is first rounded to microseconds, ties
to even, and then cut to milliseconds. Years run from 1 to 9999.
-/

namespace FileCensus.Log

/-- Why a time has no date. -/
inductive TimeFault where
  | notANumber
  | outOfRange
  | tooLarge
  | yearOutOfRange (year : Int)
  deriving DecidableEq, Repr

namespace TimeFault

def message : TimeFault → String
  | .notANumber => "Invalid value NaN (not a number)"
  | .outOfRange => "timestamp out of range for platform time_t"
  | .tooLarge => "[Errno 75] Value too large for defined data type"
  | .yearOutOfRange year => "year " ++ toString year ++ " is out of range"

def kind : TimeFault → String
  | .notANumber | .yearOutOfRange _ => "ValueError"
  | .outOfRange => "OverflowError"
  | .tooLarge => "OSError"

end TimeFault

/-- Seconds since 1970. -/
inductive Instant where
  | whole (seconds : Int)
  | double (seconds : Float)

/-- The last second that can be counted. -/
def lastSecond : Int := 9223372036854775807

/-- Whole seconds and microseconds of a double. The part below one second is scaled as a double before it is rounded. -/
def microseconds (x : Float) : Except TimeFault (Int × Int) :=
    match Decimal.read x with
    | .notANumber => .error .notANumber
    | .infinite _ => .error .outOfRange
    | .finite b =>
        let seconds := b.truncate
        if lastSecond < seconds || seconds < -lastSecond - 1 then .error .outOfRange
        else match Decimal.read ((x - Float.ofInt seconds) * 1e6) with
          | .finite m =>
              let n := Int.ofNat (Decimal.nearest m.ratio.1 m.ratio.2)
              let micros := if m.negative then -n else n
              if 1000000 ≤ micros then .ok (seconds + 1, micros - 1000000)
              else if micros < 0 then .ok (seconds - 1, micros + 1000000)
              else .ok (seconds, micros)
          | _ => .error .notANumber

def Instant.split : Instant → Except TimeFault (Int × Int)
  | .whole n => if lastSecond < n || n < -lastSecond - 1 then .error .outOfRange else .ok (n, 0)
  | .double x => microseconds x

structure Date where
  year : Int
  month : Nat
  day : Nat
  deriving DecidableEq, Repr

/-- The date of a day counted from 1 March of the year 0, in eras of 400 years that begin with March. -/
def Date.ofMarchDay (n : Int) : Date :=
    let era := Int.fdiv n 146097
    let day := (Int.fmod n 146097).toNat
    let yearOfEra := (day - day / 1460 + day / 36524 - day / 146096) / 365
    let dayOfYear := day - (365 * yearOfEra + yearOfEra / 4 - yearOfEra / 100)
    let shifted := (5 * dayOfYear + 2) / 153
    let month := if shifted < 10 then shifted + 3 else shifted - 9
    let year := era * 400 + Int.ofNat yearOfEra + (if month ≤ 2 then 1 else 0)
    ⟨year, month, dayOfYear - (153 * shifted + 2) / 5 + 1⟩

/-- The number of days from 1 March of the year 0 to 1 January 1970. -/
def epochDay : Int := 719468

def firstYear : Int := 1

def lastYear : Int := 9999

/-- The greatest distance of a year from 1900 for which a date is computed at all. -/
def yearLimit : Int := 2147483647

def pad (width n : Nat) : String :=
    String.ofList (Decimal.paddedDigits width n)

def timestamp (t : Instant) : Except TimeFault String := do
    let (seconds, micros) ← t.split
    let date := Date.ofMarchDay (Int.fdiv seconds 86400 + epochDay)
    let clock := (Int.fmod seconds 86400).toNat
    if yearLimit < date.year - 1900 || date.year - 1900 < -yearLimit - 1 then .error .tooLarge
    else if date.year < firstYear || lastYear < date.year then .error (.yearOutOfRange date.year)
    else
      .ok (pad 4 date.year.toNat ++ "-" ++ pad 2 date.month ++ "-" ++ pad 2 date.day ++ "T" ++ pad 2 (clock / 3600) ++ ":" ++
        pad 2 (clock / 60 % 60) ++ ":" ++ pad 2 (clock % 60) ++ "." ++ pad 3 (micros.toNat / 1000) ++ "+00:00")

end FileCensus.Log
