import FileCensus.Log.Level

/-!
Loggers and the records that reach a log. The name of a logger says which loggers it may be below: those whose names it
begins with up to a full stop. Of these it is below the nearest one that is known, and with it below those that that one is
below. Only the program's own logger and the loggers below it have the log.
-/

namespace FileCensus.Log

def loggerName : String := "treescan"

/-- Whether a logger, with its name read backwards, is below the program's own. The name in front of a full stop is that of a
logger above; where no such logger is known, the search goes on without a look at the character before the full stop. -/
def isBelow (known : List String) : (blind : Bool) → List Char → Bool
  | _, [] => false
  | true, _ :: rest => isBelow known false rest
  | false, c :: rest =>
      if c == '.' && !rest.isEmpty then
        let above := String.ofList rest.reverse
        if known.contains above then above == loggerName || isBelow known false rest else isBelow known true rest
      else isBelow known false rest

/-- The program's logger, or one below it. -/
def isOwn (known : List String) (logger : String) : Bool :=
    logger == loggerName || isBelow known false logger.toList.reverse

def admits (known : List String) (threshold : Level) (logger : String) (level : Level) : Bool :=
    isOwn known logger && threshold.rank ≤ level.rank

end FileCensus.Log
