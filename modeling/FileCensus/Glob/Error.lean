import FileCensus.Text.Quoted

/-!
Why a pattern is no glob. Every cause but one names the pattern; a range of characters whose ends are reversed is found
only when the bracket expression is read, and is reported on its own.
-/

namespace FileCensus

inductive GlobError where
  | blank (pattern : String)
  | nestedGroup (pattern : String)
  | openGroup (pattern : String)
  /-- The escape at the end of a segment of `line`, one of the alternatives of `pattern`, has nothing to escape. -/
  | danglingEscape (pattern line : String)
  | reversedRange (low high : Char)
  deriving DecidableEq, Repr

namespace GlobError

/-- How the end of a range is shown: an escape character stands doubled. -/
def rangeEnd (c : Char) : String :=
    if c == '\\' then "\\\\" else String.singleton c

def invalid (pattern reason : String) : String :=
    "invalid glob " ++ Text.quoted pattern ++ ": " ++ reason

def message : GlobError → String
  | .blank p => invalid p "empty pattern"
  | .nestedGroup p => invalid p "cannot nest groups"
  | .openGroup p => invalid p "missing '\x7d'"
  | .danglingEscape p line => invalid p ("Invalid git pattern: " ++ Text.quoted line)
  | .reversedRange low high => "bad character range " ++ rangeEnd low ++ "-" ++ rangeEnd high

/-- Whether the pattern is refused as such; a reversed range is found too late for that. -/
def isRefusal : GlobError → Bool
  | .reversedRange _ _ => false
  | _ => true

end GlobError

end FileCensus
