import FileCensus.Decimal.Binary
import FileCensus.Failure
import FileCensus.Json.Value

/-!
How far a job has come: its times, its counts and the failures that did not stop it. Times are of any type with subtraction
and order; the statistics of a job give its duration in seconds with two decimal places. Every failure that is recorded has a
message or is known by its kind.
-/

namespace FileCensus

structure ErrorRecord where
  path : String
  message : String
  deriving DecidableEq, Repr

structure Progress (τ : Type) where
  root : String
  startTime : Option τ
  endTime : Option τ
  visited : Nat
  queued : Nat
  skipped : Nat
  failed : Nat
  currentPath : Option String
  errors : List ErrorRecord

namespace Progress

variable {τ : Type}

def fresh (root : String) : Progress τ :=
    ⟨root, none, none, 0, 0, 0, 0, none, []⟩

def start (p : Progress τ) (now : τ) : Progress τ :=
    { p with startTime := some now }

def finish (p : Progress τ) (now : τ) : Progress τ :=
    { p with endTime := some now, currentPath := none }

def visit (p : Progress τ) : Progress τ :=
    { p with visited := p.visited + 1 }

def skip (p : Progress τ) : Progress τ :=
    { p with skipped := p.skipped + 1 }

def enqueue (p : Progress τ) : Progress τ :=
    { p with queued := p.queued + 1 }

def record (p : Progress τ) (path : String) (f : Failure) : Progress τ :=
    { p with failed := p.failed + 1, errors := p.errors ++ [⟨path, f.record⟩] }

/-- The end point of a measurement: the end of the job, else the time asked for, else the clock. A time of zero counts as
not asked for. -/
def endPoint [OfNat τ 0] [BEq τ] (p : Progress τ) (clock : τ) (asked : Option τ) : τ :=
    match p.endTime, asked with
    | some t, _ => t
    | none, some t => if t == 0 then clock else t
    | none, none => clock

def elapsed [OfNat τ 0] [BEq τ] [Sub τ] [LT τ] [DecidableLT τ] (p : Progress τ) (clock : τ) (asked : Option τ) : τ :=
    match p.startTime with
    | none => 0
    | some t =>
        let span := p.endPoint clock asked - t
        if span < 0 then 0 else span

end Progress

/-- What is reported of a job. -/
structure Statistics where
  root : String
  visited : Nat
  queued : Nat
  skipped : Nat
  failed : Nat
  duration : Float
  errors : List ErrorRecord

namespace Progress

def durationPlaces : Nat := 2

def statistics (p : Progress Float) (clock : Float) : Statistics :=
    ⟨p.root, p.visited, p.queued, p.skipped, p.failed, Decimal.roundTo durationPlaces (p.elapsed clock none), p.errors⟩

end Progress

namespace Statistics

def errorValue (e : ErrorRecord) : Json.Value :=
    .obj [("path", .str e.path), ("message", .str e.message)]

def fields (s : Statistics) : List (String × Json.Value) :=
    [("root", .str s.root), ("visited", .int s.visited), ("queued", .int s.queued), ("skipped", .int s.skipped),
      ("failed", .int s.failed), ("duration_seconds", .float s.duration), ("errors", .arr (s.errors.map errorValue))]

end Statistics

end FileCensus
