import FileCensus.Failure
import FileCensus.Log.Level

/-!
What a walk reports while it goes on, at which level and in which words.
-/

namespace FileCensus

inductive Notice where
  | started (root : Path)
  | completed (root : Path) (queued skipped failed : Nat)
  | cancelled (root : Path) (queued : Nat)
  | failed (root : Path) (place : String) (fault : Fault)
  | loop (path : Path)
  | excluded (path : Path)
  | uncreated (path : Path) (cause : Failure)
  | unmonitored (path : Path)
  deriving DecidableEq, Repr

namespace Notice

def level : Notice → Log.Level
  | .started _ | .completed .. | .cancelled .. => .info
  | .failed .. => .error
  | .loop _ | .uncreated .. | .unmonitored _ => .warning
  | .excluded _ => .debug

/-- A path in the quotation marks of reports. -/
def marked (text : String) : String :=
    "\x22" ++ text ++ "\x22"

def message : Notice → String
  | .started root => "Starting scan of: " ++ marked root.text ++ "."
  | .completed root put passed lost =>
      "Completed scan of " ++ marked root.text ++ ": " ++ toString put ++ " queued, " ++ toString passed ++
        " skipped, " ++ toString lost ++ " failed."
  | .cancelled root queued =>
      "Scan of " ++ marked root.text ++ " cancelled after queuing " ++ toString queued ++ " entries."
  | .failed root place fault =>
      "Scan of " ++ marked root.text ++ " failed at " ++ marked place ++ ": " ++ fault.message
  | .loop path => "Skipping symlink loop at " ++ marked path.text ++ "."
  | .excluded path => "Excluded " ++ marked path.text ++ "."
  | .uncreated path cause => "Could not create entry for " ++ marked path.text ++ ": " ++ cause.message
  | .unmonitored path => "Progress monitor failed for " ++ marked path.text ++ "."

end Notice

end FileCensus
