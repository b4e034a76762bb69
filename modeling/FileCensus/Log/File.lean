import FileCensus.FileSystem.Access
import FileCensus.Json.ArrayWriter
import FileCensus.Log.Record

/-!
A log: a text to which each record that it keeps adds one line. It keeps the records of the program's own loggers from a
threshold on. Which loggers these are is a matter of the loggers that are known, and a logger is known from its first record
on at the latest. A log goes to a file, after what the file already holds, or to the error stream.
-/

namespace FileCensus

structure Log where
  /-- The file of the log, `none` for the error stream. -/
  file : Option Place
  text : String
  threshold : Log.Level
  /-- The loggers that are known. -/
  known : List String
  deriving DecidableEq, Repr

namespace Log

def toStream (threshold : Level) : Log :=
    ⟨none, "", threshold, [loggerName]⟩

/-- Sets up a log in a file. A file that cannot be opened and a level that is not known are told apart. -/
def openFile (fs : FileSystem) (p : Path) (level : String) : Except Failure (FileSystem × Log) := do
    let fs ← fs.makeParent p
    match fs.openForAppending p 0 with
    | .error _ => .error .logFile
    | .ok (fs, place, bytes) =>
        match Level.ofName? level with
        | none => .error .loggerLevel
        | some level =>
            .ok (fs, ⟨some place, (String.fromUTF8? ⟨bytes.toArray⟩).getD "", level.inForce, [loggerName]⟩)

/-- Makes further loggers known. -/
def knowing (log : Log) (loggers : List String) : Log :=
    { log with known := log.known ++ loggers }

/-- Adds a record of a level, made at a time, if the log keeps it. -/
def add (log : Log) (level : Level) (r : Record) (time : String) : Log :=
    let log := log.knowing [r.logger]
    if admits log.known log.threshold r.logger level then { log with text := log.text ++ r.line time ++ "\n" } else log

end Log

end FileCensus
