import FileCensus.Failure

/-!
The state of a job as its submitter sees it. A job waits, runs and finishes with a root or a failure; one that waits can be
cancelled, and the worker that meets a cancelled job takes note of it. Callbacks run once, when the job is finished or
cancelled; the operations that make it so give back the callbacks that run.
-/

namespace FileCensus

/-- The root of a finished job, or why it failed. -/
abbrev Outcome := Except Failure Path

inductive Stage where
  | pending
  | running
  | cancelled
  | cancelledNoted
  | finished (o : Outcome)

structure Future (κ : Type) where
  stage : Stage
  callbacks : List κ

namespace Future

variable {κ : Type}

def fresh : Future κ :=
    ⟨.pending, []⟩

def isCancelled (f : Future κ) : Bool :=
    match f.stage with
    | .cancelled | .cancelledNoted => true
    | _ => false

def isRunning (f : Future κ) : Bool :=
    match f.stage with
    | .running => true
    | _ => false

def isDone (f : Future κ) : Bool :=
    match f.stage with
    | .pending | .running => false
    | _ => true

/-- The worker takes the job up; whether it is to be run. -/
def start (f : Future κ) : Except Failure (Bool × Future κ) :=
    match f.stage with
    | .pending => .ok (true, { f with stage := .running })
    | .cancelled => .ok (false, { f with stage := .cancelledNoted })
    | _ => .error .jobNotStartable

def settle (f : Future κ) (o : Outcome) : Except Failure (Future κ × List κ) :=
    if f.isDone then .error .jobFinished
    else .ok ({ f with stage := .finished o }, f.callbacks)

/-- Cancels the job unless it runs or is finished. -/
def cancel (f : Future κ) : Bool × Future κ × List κ :=
    match f.stage with
    | .pending => (true, { f with stage := .cancelled }, f.callbacks)
    | .cancelled | .cancelledNoted => (true, f, [])
    | .running | .finished _ => (false, f, [])

/-- Adds a callback, which runs at once if the job is done. -/
def addCallback (f : Future κ) (k : κ) : Future κ × List κ :=
    if f.isDone then (f, [k]) else ({ f with callbacks := f.callbacks ++ [k] }, [])

/-- The root of the job, asked for without waiting. -/
def result (f : Future κ) : Outcome :=
    match f.stage with
    | .finished o => o
    | .cancelled | .cancelledNoted => .error .jobCancelled
    | .pending | .running => .error .jobUnfinished

/-- Why the job failed, asked for without waiting. -/
def failure (f : Future κ) : Except Failure (Option Failure) :=
    match f.stage with
    | .finished (.ok _) => .ok none
    | .finished (.error e) => .ok (some e)
    | .cancelled | .cancelledNoted => .error .jobCancelled
    | .pending | .running => .error .jobUnfinished

end Future

end FileCensus
