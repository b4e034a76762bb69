import FileCensus.Scanner.Job
import FileCensus.Scanner.Settings

/-!
A scanner: its settings, the jobs that were submitted to it, and the one worker that takes them up in the order of their
submission. Its jobs share a queue, a count and a latch. A job is known by its number, which is its place in the order of
submission; jobs are never forgotten, but once a job is done a later submission drops it from the lists that a stop and a
wait go through.
-/

namespace FileCensus

/-- What a scanner works with. -/
structure Surroundings (ε : Type) where
  probe : Probe
  make : Path → Except Failure ε
  monitor : Option (Nat → Bool)
  /-- Whether there are attribute bits at a root. -/
  supportsMarks : Path → Except Failure Bool
  now : Float

inductive Worker where
  | free
  | running (job : Nat)
  /-- The job is done and these callbacks are still to run. -/
  | telling (job : Nat) (callbacks : List Callback)
  deriving DecidableEq, Repr

structure Scanner (ε : Type) where
  settings : Settings
  channel : Channel ε
  jobs : List (Job ε)
  /-- The jobs that the worker has still to take up. -/
  waiting : List Nat
  worker : Worker
  /-- The jobs that a stop goes through. -/
  stoppable : List Nat
  /-- The jobs that a wait goes through. -/
  awaited : List Nat
  isClosed : Bool
  /-- Whether the worker is given no more jobs. -/
  isStopped : Bool
  /-- The roots that were announced, in order. -/
  announced : List Path
  notes : List (String × Bool)
  /-- How many jobs are left in each group. -/
  countdowns : List Nat

/-- A callback with the job that it is about. -/
abbrev Call := Nat × Callback

namespace Scanner

variable {ε : Type}

def fresh (channel : Channel ε) : Scanner ε where
  settings := .usual
  channel := channel
  jobs := []
  waiting := []
  worker := .free
  stoppable := []
  awaited := []
  isClosed := false
  isStopped := false
  announced := []
  notes := []
  countdowns := []

/-- All entries ever put on the queue. -/
def queued (s : Scanner ε) : Nat :=
    s.channel.total

def announcement (root : Path) : String :=
    "Queuing scan of: " ++ Notice.marked root.text ++ "."

def setJob (s : Scanner ε) (n : Nat) (j : Job ε) : Scanner ε :=
    { s with jobs := s.jobs.set n j }

def setHandle (s : Scanner ε) (n : Nat) (h : Handle Callback) : Scanner ε :=
    { s with jobs := s.jobs.modify n fun j => { j with handle := h } }

def isRunning (s : Scanner ε) (n : Nat) : Bool :=
    s.jobs[n]?.any (·.handle.isRunning)

def isDone (s : Scanner ε) (n : Nat) : Bool :=
    s.jobs[n]?.any (·.handle.isDone)

def isCancelled (s : Scanner ε) (n : Nat) : Bool :=
    s.jobs[n]?.any (·.handle.isCancelled)

def isOver (s : Scanner ε) (n : Nat) : Bool :=
    s.jobs[n]?.any (·.isOver)

/-- Runs a callback; what it gives rise to is to be run next. -/
def perform (s : Scanner ε) (call : Call) : Scanner ε × List Call :=
    match call.2 with
    | .note tag => ({ s with notes := s.notes ++ [(tag, s.isCancelled call.1)] }, [])
    | .countDown group =>
        let left := s.countdowns.getD group 0 - 1
        ({ s with countdowns := s.countdowns.set group left }, if left = 0 then [(call.1, .closeLatch)] else [])
    | .closeLatch => ({ s with channel := s.channel.closeLatch }, [])

/-- Runs callbacks one after the other, with what each gives rise to. -/
def performAll (s : Scanner ε) (calls : List Call) : Scanner ε :=
    calls.foldl (fun s call => let (s, more) := s.perform call; more.foldl (fun s c => (s.perform c).1) s) s

/-- Adds a callback to a job, giving back what is to be run at once. -/
def addCallback (s : Scanner ε) (n : Nat) (c : Callback) : Scanner ε × List Call :=
    match s.jobs[n]? with
    | none => (s, [])
    | some j =>
        let (h, calls) := j.handle.addCallback c
        (s.setHandle n h, calls.map (n, ·))

/-- Starts a group of so many jobs; a group without jobs closes the latch at once. -/
def startGroup (s : Scanner ε) (size : Nat) : Scanner ε × Nat :=
    let s := { s with countdowns := s.countdowns ++ [size] }
    (if size = 0 then { s with channel := s.channel.closeLatch } else s, s.countdowns.length - 1)

/-- Has the latch closed once all of these jobs are done. -/
def closeLatchAfter (s : Scanner ε) (jobs : List Nat) : Scanner ε :=
    let (s, group) := s.startGroup jobs.length
    jobs.foldl (fun s n => let (s, calls) := s.addCallback n (.countDown group); s.performAll calls) s

end Scanner

end FileCensus
