import FileCensus.Job.Handle
import FileCensus.Walk.Step

/-!
A job: the walk of one root together with the handle of its submitter. What is to be done when a job is done is kept with
its handle: noting the job, or counting it toward the closing of the latch.
-/

namespace FileCensus

inductive Callback where
  /-- Notes a tag and whether the job counts as cancelled. -/
  | note (tag : String)
  /-- Counts one job fewer in a group, whose last job closes the latch. -/
  | countDown (group : Nat)
  | closeLatch
  deriving DecidableEq, Repr

structure Job (ε : Type) where
  handle : Handle Callback
  plan : Plan ε
  walk : Walk ε

/-- What a summary says of a job. -/
structure JobReport where
  statistics : Statistics
  status : JobStatus
  error : Option String

def JobReport.fields (r : JobReport) : List (String × Json.Value) :=
    r.statistics.fields ++ ("status", .str r.status.text) :: (r.error.map fun e => ("error", .str e)).toList

namespace Job

variable {ε : Type}

def fresh (plan : Plan ε) : Job ε :=
    ⟨.fresh plan.root, plan, .fresh plan.root⟩

def statistics (j : Job ε) : Statistics :=
    j.walk.progress.statistics j.plan.now

/-- The failure that a report names. -/
def error? (j : Job ε) : Option Failure :=
    match j.handle.failure with
    | .ok f => f
    | .error _ => none

def report (j : Job ε) : JobReport :=
    ⟨j.statistics, j.handle.status, j.error?.map (·.message)⟩

/-- Whether a job has reached its end as far as waiting for it goes: a cancelled one only when the worker has met it. -/
def isOver (j : Job ε) : Bool :=
    match j.handle.future.stage with
    | .finished _ | .cancelledNoted => true
    | _ => false

end Job

end FileCensus
