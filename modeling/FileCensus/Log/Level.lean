/-!
Levels of log records. A level is a rank, so that a record may have one that lies between those with names. A threshold is
given by a level's name in any letter case; the name for an unset level stands for the threshold that is in force where none
is set.
-/

namespace FileCensus.Log

structure Level where
  rank : Int
  deriving DecidableEq, Repr

namespace Level

def unset : Level := ⟨0⟩

def debug : Level := ⟨10⟩

def info : Level := ⟨20⟩

def warning : Level := ⟨30⟩

def error : Level := ⟨40⟩

def critical : Level := ⟨50⟩

/-- The levels that records name. -/
def named : List (Level × String) :=
    [(critical, "CRITICAL"), (error, "ERROR"), (warning, "WARNING"), (info, "INFO"), (debug, "DEBUG"), (unset, "NOTSET")]

/-- The name of a level in its records; a level without a name is known by its rank. -/
def name (l : Level) : String :=
    (named.lookup l).getD ("Level " ++ toString l.rank)

/-- The level in force where none is set. -/
def usual : Level := .warning

/-- The names that a level may be given by. -/
def names : List (String × Level) :=
    [("CRITICAL", critical), ("FATAL", critical), ("ERROR", error), ("WARN", warning), ("WARNING", warning), ("INFO", info),
      ("DEBUG", debug), ("NOTSET", unset)]

/-- The upper case of the letters that have a Latin capital. -/
def upperChar (c : Char) : Char :=
    if c == '\u0131' then 'I' else if c == '\u017F' then 'S' else c.toUpper

def ofName? (s : String) : Option Level :=
    names.lookup (s.map upperChar)

/-- The threshold that a level stands for. -/
def inForce (l : Level) : Level :=
    if l = unset then usual else l

end Level

end FileCensus.Log
