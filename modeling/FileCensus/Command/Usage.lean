import FileCensus.Text.Quoted

/-!
Why a command line cannot be carried out as it stands.
-/

namespace FileCensus.Command

inductive UsageFault where
  | noCommand
  | unknownCommand (name : String)
  | noRoots
  | unknownOption (option : String)
  | valueMissing (option : String)
  | valueUnwanted (option : String)
  | notInteger (option text : String)
  | belowLeast (option : String) (value least : Int)
  | directory (option file : String)
  deriving DecidableEq, Repr

namespace UsageFault

def inQuotes (s : String) : String :=
    "\x27" ++ s ++ "\x27"

def invalid (option reason : String) : String :=
    "Invalid value for " ++ inQuotes option ++ ": " ++ reason

def message : UsageFault → String
  | .noCommand => "Missing command."
  | .unknownCommand name => "No such command " ++ Text.quoted name ++ "."
  | .noRoots => "Missing argument 'ROOTS...'."
  | .unknownOption option => "No such option: " ++ option
  | .valueMissing option => "Option " ++ Text.quoted option ++ " requires an argument."
  | .valueUnwanted option => "Option " ++ Text.quoted option ++ " does not take a value."
  | .notInteger option text => invalid option (Text.quoted text ++ " is not a valid integer range.")
  | .belowLeast option value least =>
      invalid option (toString value ++ " is not in the range x>=" ++ toString least ++ ".")
  | .directory option file => invalid option ("File " ++ Text.quoted file ++ " is a directory.")

end UsageFault

end FileCensus.Command
