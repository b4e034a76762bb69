import FileCensus.Text.Quoted

/-!
Why a document cannot be loaded. Either it is malformed, which covers everything that the notation and its tags forbid, or
one of its scalars has the form or the tag of a value that its text does not denote after all, or has no text at all. The
latter causes are kept apart, each with its own words, since they are reported as they stand.
-/

namespace FileCensus.Yaml

inductive ScalarFault where
  | unknownSwitch (word : String)
  | emptyNumber
  | notInteger (base : Nat) (text : String)
  | tooManyDigits (count : Nat)
  | notNumber (text : String)
  /-- A part of a number in base sixty stands so far in front that its place has no value among the doubles. -/
  | numberTooLarge
  | notMoment
  /-- A moment is looked for in what is no text. -/
  | notText
  | yearOutOfRange (year : Nat)
  | monthOutOfRange
  | dayOutOfRange
  | hourOutOfRange
  | minuteOutOfRange
  | secondOutOfRange
  /-- The offset of a time from universal time is a day or more; in seconds. -/
  | offsetOutOfRange (seconds : Int)
  | codePointOutOfRange
  | codePointTooLarge
  /-- The text of a mapping is that of its default field, which leads back to the mapping. -/
  | endless
  deriving DecidableEq, Repr

namespace ScalarFault

/-- A span of time as it is shown: days, of which there may be a negative number, and the seconds on top of them. -/
def shownSpan (seconds : Int) : String :=
    let days := Int.fdiv seconds 86400
    let rest := Int.fmod seconds 86400
    let parts := (if days = 0 then [] else ["days=" ++ toString days]) ++
      (if rest = 0 then [] else ["seconds=" ++ toString rest])
    "datetime.timedelta(" ++ ", ".intercalate parts ++ ")"

def message : ScalarFault → String
  | .unknownSwitch word => Text.quoted word
  | .emptyNumber => "string index out of range"
  | .notInteger base text =>
      "invalid literal for int() with base " ++ toString base ++ ": " ++ String.ofList ((Text.quoted text).toList.take 200)
  | .tooManyDigits count =>
      "Exceeds the limit (4300 digits) for integer string conversion: value has " ++ toString count ++
        " digits; use sys.set_int_max_str_digits() to increase the limit"
  | .notNumber text => "could not convert string to float: " ++ Text.quoted text
  | .numberTooLarge => "int too large to convert to float"
  | .notMoment => "'NoneType' object has no attribute 'groupdict'"
  | .notText => "expected string or bytes-like object, got 'list'"
  | .yearOutOfRange year => "year " ++ toString year ++ " is out of range"
  | .monthOutOfRange => "month must be in 1..12"
  | .dayOutOfRange => "day is out of range for month"
  | .hourOutOfRange => "hour must be in 0..23"
  | .minuteOutOfRange => "minute must be in 0..59"
  | .secondOutOfRange => "second must be in 0..59"
  | .offsetOutOfRange seconds =>
      "offset must be a timedelta strictly between -timedelta(hours=24) and timedelta(hours=24), not " ++
        shownSpan seconds ++ "."
  | .codePointOutOfRange => "chr() arg not in range(0x110000)"
  | .codePointTooLarge => "Python int too large to convert to C int"
  | .endless => "maximum recursion depth exceeded"

/-- The class under which a fault is reported. -/
def kind : ScalarFault → String
  | .unknownSwitch _ => "KeyError"
  | .emptyNumber => "IndexError"
  | .notMoment => "AttributeError"
  | .notText => "TypeError"
  | .numberTooLarge | .codePointTooLarge => "OverflowError"
  | .endless => "RecursionError"
  | _ => "ValueError"

end ScalarFault

inductive LoadError where
  | malformed
  | scalar (fault : ScalarFault)
  deriving DecidableEq, Repr

end FileCensus.Yaml
