import FileCensus.FileEntry
import FileCensus.Json.ArrayWriter
import FileCensus.Scanner.Stop
import FileCensus.Scanner.Submission
import FileCensus.Scanner.Work

/-!
A census: one run over several roots. Its main thread submits the roots, sees to it that the latch is closed when the last
job is done, and writes entries as they come until the latch is used up. Entries go into an array, or else one by one to the
output. A failure in between stops every job.
-/

namespace FileCensus

/-- What a census is to do. -/
structure Census.Plan where
  roots : List Path
  surroundings : Surroundings FileEntry
  /-- The failure of a write after so many others. -/
  refusal : Nat → Option Failure

/-- The stops of a main thread that leaves its scanner, each followed by the next. -/
inductive Census.Exit where
  /-- The stop at once of a main thread that was interrupted or could not write. -/
  | handling
  /-- The stop at once that comes with any failure. -/
  | leaving
  /-- The gentle stop of everybody who leaves. -/
  | closing
  deriving DecidableEq, Repr

namespace Census.Exit

def kind : Exit → StopKind
  | .handling | .leaving => .immediate
  | .closing => .gentle false

/-- The first stop on account of a failure that has come while entries were written. -/
def onFailure : Failure → Exit
  | .system _ | .interrupted => .handling
  | _ => .leaving

theorem onFailure_cases (f : Failure) : onFailure f = .handling ∨ onFailure f = .leaving := by
  unfold onFailure
  split
  · exact .inl rfl
  · exact .inl rfl
  · exact .inr rfl

end Census.Exit

/-- What the main thread of a census does next. -/
inductive Census.Stage where
  | submitting (left : List Path) (submission : Submission FileEntry)
  | grouping
  | registering (left : List Nat) (group : Nat)
  /-- Callbacks that are run at once, because their job was already done. -/
  | telling (calls : List Call) (left : List Nat) (group : Nat)
  | waiting
  | taking
  | writing (e : FileEntry)
  | closing (cause : Option Failure)
  | summarising
  | stopping (exit : Exit) (progress : Stopping) (cause : Option Failure)
  /-- Callbacks of jobs that a stop has cancelled. -/
  | dismissing (calls : List Call) (exit : Exit) (progress : Stopping) (cause : Option Failure)
  | joining (cause : Option Failure)
  | ended (cause : Option Failure)

structure Census.Summary where
  queued : Nat
  jobs : List JobReport

structure Census where
  scanner : Scanner FileEntry
  stage : Census.Stage
  /-- The numbers of the jobs, in the order of their roots. -/
  accepted : List Nat
  writer : Option Json.ArrayWriter
  /-- The entries that were written, the latest first. -/
  writes : List FileEntry
  summary : Option Census.Summary

namespace Census

def start (scanner : Scanner FileEntry) (roots : List Path) (writer : Option Json.ArrayWriter) : Census where
  scanner := scanner
  stage := .submitting roots .asking
  accepted := []
  writer := writer
  writes := []
  summary := none

/-- The entries in the order in which they were written. -/
def written (c : Census) : List FileEntry :=
    c.writes.reverse

def isEnded (c : Census) : Bool :=
    match c.stage with
    | .ended _ => true
    | _ => false

/-- Whether the main thread can only wait for the worker. -/
def isWaiting (c : Census) : Bool :=
    match c.stage with
    | .waiting => c.scanner.channel.latch.any (·.blocks)
    | .taking => c.scanner.channel.items.isEmpty
    | .joining _ => !c.scanner.isIdle
    | _ => false

def Summary.isComplete (s : Summary) : Bool :=
    s.jobs.all fun j => j.status = .completed

def Summary.fields (s : Summary) : List (String × Json.Value) :=
    [("stage", .str "scan"), ("queued", .int s.queued), ("roots", .arr (s.jobs.map fun j => .obj j.fields))]

end Census

end FileCensus
