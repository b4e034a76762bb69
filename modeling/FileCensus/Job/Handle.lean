import FileCensus.Job.Future
import FileCensus.Signal.Token

/-!
What the submitter of a job holds. A job that stopped because of its token counts as cancelled just like one that never
started. A request to cancel takes several steps, between which the worker may go on with the job.
-/

namespace FileCensus

structure Handle (κ : Type) where
  root : Path
  future : Future κ
  token : Token

inductive JobStatus where
  | pending
  | running
  | completed
  | failed
  | cancelled
  deriving DecidableEq, Repr

def JobStatus.text : JobStatus → String
  | .pending => "pending"
  | .running => "running"
  | .completed => "completed"
  | .failed => "failed"
  | .cancelled => "cancelled"

/-- Whether a failure means that a job followed its token. -/
def Failure.isCancellation : Failure → Bool
  | .cancelled _ => true
  | _ => false

namespace Handle

variable {κ : Type}

def fresh (root : Path) : Handle κ :=
    ⟨root, .fresh, .fresh⟩

def isDone (h : Handle κ) : Bool :=
    h.future.isDone

def isRunning (h : Handle κ) : Bool :=
    h.future.isRunning

def isCancelled (h : Handle κ) : Bool :=
    match h.future.stage with
    | .cancelled | .cancelledNoted => true
    | .finished (.error e) => e.isCancellation
    | _ => false

def status (h : Handle κ) : JobStatus :=
    if h.isCancelled then .cancelled
    else match h.future.stage with
      | .finished (.error _) => .failed
      | .finished (.ok _) => .completed
      | .running => .running
      | _ => .pending

/-- How a handle is shown. -/
def shown (h : Handle κ) : String :=
    "<ScanHandle root=" ++ Text.quoted h.root.text ++ " " ++ h.status.text ++ ">"

def result (h : Handle κ) : Outcome :=
    match h.future.result with
    | .error (.cancelled _) => .error .jobCancelled
    | o => o

def failure (h : Handle κ) : Except Failure (Option Failure) :=
    match h.future.failure with
    | .ok (some (.cancelled _)) => .error .jobCancelled
    | r => r

/-- Changes the future of a handle, giving back the callbacks that run. -/
def withFuture (h : Handle κ) (r : Future κ × List κ) : Handle κ × List κ :=
    ({ h with future := r.1 }, r.2)

def addCallback (h : Handle κ) (k : κ) : Handle κ × List κ :=
    h.withFuture (h.future.addCallback k)

end Handle

/-- How far a request to cancel a job has come. -/
inductive Cancelling where
  | asking
  | flagging
  | withdrawing
  | checking
  | reporting
  | answered (cancelled : Bool)
  deriving DecidableEq, Repr

namespace Handle

variable {κ : Type}

/-- One step of a request to cancel: look whether the job is done; set its token; withdraw it if it waits; look again; and
report what has become of it. -/
def cancelStep (c : Cancelling) (h : Handle κ) : Cancelling × Handle κ × List κ :=
    match c with
    | .asking => (if h.isDone then .reporting else .flagging, h, [])
    | .flagging => (.withdrawing, { h with token := h.token.cancel }, [])
    | .withdrawing =>
        let (withdrawn, future, ran) := h.future.cancel
        (if withdrawn then .answered true else .checking, { h with future := future }, ran)
    | .checking => (if h.isDone then .reporting else .answered true, h, [])
    | .reporting => (.answered h.isCancelled, h, [])
    | .answered b => (.answered b, h, [])

def cancelWithin : (steps : Nat) → Cancelling → Handle κ → Bool × Handle κ × List κ
  | 0, _, h => (false, h, [])
  | steps + 1, c, h =>
      match cancelStep c h with
      | (.answered b, h, ran) => (b, h, ran)
      | (c, h, ran) =>
          let (b, h, more) := cancelWithin steps c h
          (b, h, ran ++ more)

/-- A whole request to cancel, without a step of the worker in between. -/
def cancel (h : Handle κ) : Bool × Handle κ × List κ :=
    cancelWithin 5 .asking h

end Handle

end FileCensus
