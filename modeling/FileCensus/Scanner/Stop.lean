import FileCensus.Scanner.Work

/-!
The steps of a stop, between which the worker may go on. A stop closes the scanner first, so that nothing new can come. One
that is to take effect now then looks which jobs neither run nor are done, cancels every job, and has the worker given no
more; jobs that still wait are withdrawn. A gentle stop lets jobs go on, and withdraws those that wait only if it is asked to.
-/

namespace FileCensus

inductive StopKind where
  | gentle (withdraws : Bool)
  | immediate
  deriving DecidableEq, Repr

/-- How far a stop has come; `idle` holds the jobs that were found neither running nor done. -/
inductive Stopping where
  | marking
  | looking (all left idle : List Nat)
  | confirming (job : Nat) (all left idle : List Nat)
  | choosing (left idle : List Nat)
  | cancelling (job : Nat) (request : Cancelling) (left idle : List Nat)
  | halting (idle : List Nat)
  | withdrawing (idle : List Nat)
  | over (idle : List Nat)
  deriving DecidableEq, Repr

namespace StopKind

def withdraws : StopKind → Bool
  | .gentle w => w
  | .immediate => true

end StopKind

namespace Scanner

variable {ε : Type}

/-- One step of a request to cancel a job. -/
def cancelStep (n : Nat) (request : Cancelling) (s : Scanner ε) : Cancelling × Scanner ε × List Call :=
    match s.jobs[n]? with
    | none => (.answered false, s, [])
    | some j =>
        let (request, h, calls) := j.handle.cancelStep request
        (request, s.setHandle n h, calls.map (n, ·))

/-- Withdraws the job that is the next to be taken up. -/
def withdraw (s : Scanner ε) : Scanner ε × List Call :=
    match s.waiting with
    | [] => (s, [])
    | n :: rest =>
        let s := { s with waiting := rest }
        match s.jobs[n]? with
        | none => (s, [])
        | some j =>
            let (_, future, calls) := j.handle.future.cancel
            (s.setHandle n { j.handle with future := future }, calls.map (n, ·))

/-- One step of a stop, with the callbacks that are to be run before the next. -/
def stopStep (kind : StopKind) (phase : Stopping) (s : Scanner ε) : Stopping × Scanner ε × List Call :=
    match phase with
    | .marking =>
        let s := { s with isClosed := true }
        match kind with
        | .gentle _ => (.halting [], s, [])
        | .immediate => (.looking s.stoppable s.stoppable [], s, [])
    | .looking all [] idle => (.choosing all idle, s, [])
    | .looking all (n :: left) idle =>
        (if s.isRunning n then .looking all left idle else .confirming n all left idle, s, [])
    | .confirming n all left idle => (.looking all left (if s.isDone n then idle else idle ++ [n]), s, [])
    | .choosing [] idle => (.halting idle, s, [])
    | .choosing (n :: left) idle => (.cancelling n .asking left idle, s, [])
    | .cancelling n request left idle =>
        match s.cancelStep n request with
        | (.answered _, s, calls) => (.choosing left idle, s, calls)
        | (request, s, calls) => (.cancelling n request left idle, s, calls)
    | .halting idle => (if kind.withdraws then .withdrawing idle else .over idle, { s with isStopped := true }, [])
    | .withdrawing idle =>
        if s.waiting.isEmpty then (.over idle, s, [])
        else let (s, calls) := s.withdraw; (.withdrawing idle, s, calls)
    | .over idle => (.over idle, s, [])

/-- The roots of jobs. -/
def roots (s : Scanner ε) (jobs : List Nat) : List Path :=
    jobs.filterMap fun n => s.jobs[n]?.map (·.handle.root)

/-- After how many callbacks the worker has a turn. -/
def callsPerTurn : Nat :=
    1000

/-- More steps than the worker takes in a turn. -/
def stepsPerTurn : Nat :=
    1000000

/-- Runs callbacks one after the other. They take their time: when there are many, the worker has its turns in between. -/
def performLong (s : Scanner ε) (calls : List Call) : Scanner ε :=
    calls.zipIdx.foldl (fun s (call, k) =>
      let s := s.performAll [call]
      if (k + 1) % callsPerTurn = 0 then s.workAlone stepsPerTurn else s) s

/-- Goes on with a stop for at most so many steps, while the worker does nothing but what it does during callbacks. -/
def stopWithin (kind : StopKind) : (steps : Nat) → Stopping → Scanner ε → Scanner ε × List Nat
  | 0, _, s => (s, [])
  | steps + 1, phase, s =>
      match phase with
      | .over idle => (s, idle)
      | phase =>
          let (phase, s, calls) := s.stopStep kind phase
          stopWithin kind steps phase (s.performLong calls)

/-- More steps than a stop takes. -/
def stopSteps (s : Scanner ε) : Nat :=
    10 * s.stoppable.length + s.waiting.length + 10

/-- A whole stop; the jobs that were found neither running nor done. -/
def stop (s : Scanner ε) (kind : StopKind) : Scanner ε × List Nat :=
    stopWithin kind s.stopSteps .marking s

/-- A whole request to cancel a job, during which the worker does nothing. -/
def cancelJob (s : Scanner ε) (n : Nat) : Bool × Scanner ε :=
    match s.jobs[n]? with
    | none => (false, s)
    | some j =>
        let (answer, h, calls) := j.handle.cancel
        (answer, (s.setHandle n h).performAll (calls.map (n, ·)))

/-- The jobs that a wait which begins now is to wait for. -/
def snapshot (s : Scanner ε) : List Nat :=
    s.awaited

/-- Whether a wait for these jobs is over. -/
def areOver (s : Scanner ε) (jobs : List Nat) : Bool :=
    jobs.all s.isOver

end Scanner

end FileCensus
