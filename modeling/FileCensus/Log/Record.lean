import FileCensus.Failure
import FileCensus.Json.Printer
import FileCensus.Log.Logger
import FileCensus.Log.Timestamp

/-!
One line of a log: a JSON object with the time, level, logger, thread and message of a record, and the text of
the failure that it is about if there is one. A line break inside a text is escaped, so that a record never takes more than its line.
-/

namespace FileCensus.Log

structure Record where
  level : String
  logger : String
  thread : String
  message : String
  exception : Option String
  deriving DecidableEq, Repr

/-- A failure by its kind and message. -/
def failureText (f : Failure) : String :=
    if f.message = "" then f.kind else f.kind ++ ": " ++ f.message

namespace Record

def fields (r : Record) (time : String) : List (String × Json.Value) :=
    [("timestamp", .str time), ("level", .str r.level), ("name", .str r.logger), ("thread", .str r.thread),
      ("message", .str r.message)] ++
      (match r.exception with
        | some text => [("exception", .str text)]
        | none => [])

def line (r : Record) (time : String) : String :=
    (Json.Value.obj (r.fields time)).text

/-- The line of a record whose message is a template with arguments. -/
def format (r : Record) (created : Instant) (arguments : List Datum) : Except Failure String := do
    let time ← (timestamp created).mapError .time
    let message ← (fillIn r.message arguments).mapError .template
    .ok ({ r with message := message }.line time)

end Record

end FileCensus.Log
