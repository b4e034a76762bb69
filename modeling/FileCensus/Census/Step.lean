import FileCensus.Census.Basic

/-!
The steps of a census. The main thread and the worker take turns in any order; a turn of a thread that has to wait changes
nothing. An entry is taken only after the latch has been waited for, and the summary is made before the scanner is closed.
-/

namespace FileCensus.Census

inductive Turn where
  | main
  | worker
  deriving DecidableEq, Repr

def go (c : Census) (stage : Stage) : Census :=
    { c with stage := stage }

/-- Leaves the scanner, at once if there is a failure to blame. -/
def leave (c : Census) (cause : Option Failure) : Census :=
    c.go (.stopping (if cause.isSome then .leaving else .closing) .marking cause)

/-- A census that is left before any root is submitted. -/
def abandoned (scanner : Scanner FileEntry) (f : Failure) : Census :=
    (start scanner [] none).leave (some f)

def submitStep (p : Plan) (left : List Path) (submission : Submission FileEntry) (c : Census) : Census :=
    match left, submission with
    | [], _ => c.go .grouping
    | _ :: rest, .accepted n => { c with accepted := c.accepted ++ [n] }.go (.submitting rest .asking)
    | _ :: _, .refused f => c.leave (some f)
    | root :: rest, submission =>
        let (submission, scanner) := c.scanner.submitStep p.surroundings root submission
        { c with scanner := scanner }.go (.submitting (root :: rest) submission)

/-- Waits for a signal; without one the wait is over once the latch is closed. -/
def wait (c : Census) : Census :=
    match c.scanner.channel.latch with
    | none => c.go (.closing none)
    | some l =>
        match l.take with
        | (true, l) =>
            { c with scanner := { c.scanner with channel := { c.scanner.channel with latch := some l } } }.go .taking
        | (false, l) => if l.blocks then c else c.go (.closing none)

def take (c : Census) : Census :=
    match c.scanner.channel.get? with
    | none => c
    | some (e, channel) => { c with scanner := { c.scanner with channel := channel } }.go (.writing e)

def write (p : Plan) (e : FileEntry) (c : Census) : Census :=
    let wrote := { c with writes := e :: c.writes }.go .waiting
    match p.refusal c.writes.length, c.writer with
    | some f, _ => c.go (.closing (some f))
    | none, none => wrote
    | none, some w =>
        match w.write e.fields with
        | .ok w => { wrote with writer := some w }
        | .error (f, w) => { c with writer := some w }.go (.closing (some f))

def close (c : Census) (cause : Option Failure) : Census :=
    let c := { c with writer := c.writer.map Json.ArrayWriter.close }
    match cause with
    | none => c.go .summarising
    | some f => c.go (.stopping (.onFailure f) .marking (some f))

def summarise (c : Census) : Census :=
    let jobs := c.accepted.filterMap fun n => (c.scanner.jobs[n]?).map (·.report)
    { c with summary := some ⟨c.scanner.queued, jobs⟩ }.leave none

/-- A stop that is over is followed by the next; the worker is waited for after the last. -/
def stopStep (exit : Exit) (progress : Stopping) (cause : Option Failure) (c : Census) : Census :=
    match progress with
    | .over _ =>
        match exit with
        | .handling => c.go (.stopping .leaving .marking cause)
        | .leaving => c.go (.stopping .closing .marking cause)
        | .closing => c.go (.joining cause)
    | progress =>
        let (progress, scanner, calls) := c.scanner.stopStep exit.kind progress
        let c := { c with scanner := scanner }
        if calls.isEmpty then c.go (.stopping exit progress cause) else c.go (.dismissing calls exit progress cause)

/-- Runs the first of some callbacks, giving back those that are left. -/
def tell (c : Census) : List Call → Census × List Call
  | [] => (c, [])
  | call :: rest =>
      let (scanner, more) := c.scanner.perform call
      ({ c with scanner := scanner }, more ++ rest)

def mainStep (p : Plan) (c : Census) : Census :=
    match c.stage with
    | .submitting left submission => c.submitStep p left submission
    | .grouping =>
        let (scanner, group) := c.scanner.startGroup c.accepted.length
        { c with scanner := scanner }.go (.registering c.accepted group)
    | .registering [] _ => c.go .waiting
    | .registering (n :: left) group =>
        let (scanner, calls) := c.scanner.addCallback n (.countDown group)
        { c with scanner := scanner }.go (.telling calls left group)
    | .telling [] left group => c.go (.registering left group)
    | .telling calls left group => let (c, calls) := c.tell calls; c.go (.telling calls left group)
    | .waiting => c.wait
    | .taking => c.take
    | .writing e => c.write p e
    | .closing cause => c.close cause
    | .summarising => c.summarise
    | .stopping exit progress cause => c.stopStep exit progress cause
    | .dismissing [] exit progress cause => c.go (.stopping exit progress cause)
    | .dismissing calls exit progress cause =>
        let (c, calls) := c.tell calls
        c.go (.dismissing calls exit progress cause)
    | .joining cause => if c.scanner.isIdle then c.go (.ended cause) else c
    | .ended _ => c

def workStep (c : Census) : Census :=
    { c with scanner := c.scanner.workStep }

def step (p : Plan) (t : Turn) (c : Census) : Census :=
    match t with
    | .main => c.mainStep p
    | .worker => c.workStep

/-- A census after turns in a given order. -/
def follow (p : Plan) (turns : List Turn) (c : Census) : Census :=
    turns.foldl (fun c t => c.step p t) c

/-- Runs a census for at most so many turns; the worker has its turns when the main thread has to wait. -/
def run (p : Plan) : (turns : Nat) → Census → Census
  | 0, c => c
  | turns + 1, c =>
      if c.isEnded then c
      else run p turns (c.step p (if c.isWaiting then .worker else .main))

end FileCensus.Census
