import FileCensus.Scanner.Basic

/-!
The steps of the worker. It takes up one job at a time, passes over a job that was cancelled, runs the walk of any other to
its end, settles the job with the outcome of its walk and runs the callbacks of the job.
-/

namespace FileCensus.Scanner

variable {ε : Type}

/-- Takes up the next job, if there is one. -/
def takeUp (s : Scanner ε) : Scanner ε :=
    match s.waiting with
    | [] => s
    | n :: rest =>
        let s := { s with waiting := rest }
        match s.jobs[n]? with
        | none => s
        | some j =>
            match j.handle.future.start with
            | .error _ => s
            | .ok (starts, future) =>
                let s := s.setHandle n { j.handle with future := future }
                if starts then { s with worker := .running n } else s

/-- One step of the walk of a job, or the end of the job once its walk has ended. -/
def proceed (s : Scanner ε) (n : Nat) : Scanner ε :=
    match s.jobs[n]? with
    | none => { s with worker := .free }
    | some j =>
        match j.walk.outcome? with
        | none =>
            let (walk, channel) := j.walk.step j.plan j.handle.token s.channel
            { s.setJob n { j with walk := walk } with channel := channel }
        | some o =>
            match j.handle.future.settle o with
            | .error _ => { s with worker := .free }
            | .ok (future, callbacks) =>
                { s.setHandle n { j.handle with future := future } with worker := .telling n callbacks }

def workStep (s : Scanner ε) : Scanner ε :=
    match s.worker with
    | .free => s.takeUp
    | .running n => s.proceed n
    | .telling _ [] => { s with worker := .free }
    | .telling n (c :: rest) =>
        let (s, more) := s.perform (n, c)
        { s with worker := .telling n (more.map (·.2) ++ rest) }

def current? (s : Scanner ε) : Option (Job ε) :=
    match s.worker with
    | .running n => s.jobs[n]?
    | _ => none

/-- Whether the worker has nothing left to do. -/
def isIdle (s : Scanner ε) : Bool :=
    s.worker = .free && s.waiting.isEmpty

/-- Whether the worker can do nothing but try a full queue again. -/
def isBlocked (s : Scanner ε) : Bool :=
    match s.current? with
    | none => false
    | some j =>
        match j.walk.phase with
        | .offering _ _ => s.channel.isFull && !j.handle.token.isCancelled && j.plan.refusal.isNone
        | _ => false

/-- Whether the next step of the worker is a call of what the scanner was given. -/
def isCalling (s : Scanner ε) : Bool :=
    match s.current? with
    | none => false
    | some j =>
        match j.walk.phase with
        | .creating _ | .notifying _ _ => true
        | _ => false

/-- Has the worker go on for at most so many steps, until it is idle, blocked or calling. -/
def workAlone : (steps : Nat) → Scanner ε → Scanner ε
  | 0, s => s
  | steps + 1, s => if s.isIdle || s.isBlocked || s.isCalling then s else workAlone steps s.workStep

/-- Has the worker go on for at most so many steps, until it is idle or blocked. -/
def work : (steps : Nat) → Scanner ε → Scanner ε
  | 0, s => s
  | steps + 1, s => if s.isIdle || s.isBlocked then s else work steps s.workStep

end FileCensus.Scanner
