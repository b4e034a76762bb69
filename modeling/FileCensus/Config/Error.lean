import FileCensus.Glob.Error

/-!
Why a configuration is refused: an option has a value that it cannot take, or the configuration file as a whole is of no
use. The option is named by the key that was given for it.
-/

namespace FileCensus

/-- What is wrong with an option's value. -/
inductive OptionFault where
  | notSwitch
  | unknownSwitchWord
  | notInteger
  | unreadableInteger
  | integerTooLong
  | fractional
  | notFinite
  | negative
  | notList
  | notText
  | undecodableText
  /-- A depth limit that was set directly and is no integer; the value as it is shown. -/
  | integerExpected (shown : String)
  /-- A depth limit that was set directly and is below zero. -/
  | belowZero
  deriving DecidableEq, Repr

def OptionFault.message : OptionFault → String
  | .notSwitch => "Input should be a valid boolean"
  | .unknownSwitchWord => "Input should be a valid boolean, unable to interpret input"
  | .notInteger => "Input should be a valid integer"
  | .unreadableInteger => "Input should be a valid integer, unable to parse string as an integer"
  | .integerTooLong => "Unable to parse input string as an integer, exceeded maximum size"
  | .fractional => "Input should be a valid integer, got a number with a fractional part"
  | .notFinite => "Input should be a finite number"
  | .negative => "Input should be greater than or equal to 0"
  | .notList => "Input should be a valid tuple"
  | .notText => "Input should be a valid string"
  | .undecodableText => "Input should be a valid string, unable to parse raw data as a unicode string"
  | .integerExpected shown => "expected an integer, got " ++ shown
  | .belowZero => "must be zero or greater"

inductive ConfigError where
  | option (key : String) (fault : OptionFault)
  | unreadable (file : String)
  | notMapping
  /-- An error that is given by its parts alone. -/
  | stated (text : String) (option : Option String)
  deriving DecidableEq, Repr

namespace ConfigError

def text : ConfigError → String
  | .option _ fault => fault.message
  | .unreadable file => "cannot parse " ++ file
  | .notMapping => "configuration file must contain a mapping"
  | .stated text _ => text

def option? : ConfigError → Option String
  | .option key _ => some key
  | .stated _ named => named
  | _ => none

/-- The text, after the option in brackets if one is named. -/
def labelled (option : Option String) (text : String) : String :=
    match option with
    | some key => if key = "" then text else "[" ++ key ++ "] " ++ text
    | none => text

def message (e : ConfigError) : String :=
    labelled e.option? e.text

end ConfigError

end FileCensus
