import FileCensus.Scanner.Basic

/-!
The steps of a submission. A scanner that is closed refuses a root; if it is not, the filters of the job are made, and after
that it is asked once more whether the scanner is closed, for it may have been closed in between. Only then is the job there.
-/

namespace FileCensus

inductive Submission (ε : Type) where
  | asking
  | preparing
  | entering (plan : Plan ε)
  | accepted (job : Nat)
  | refused (f : Failure)

namespace Scanner

variable {ε : Type}

/-- The plan of a job on a root, with the settings of the moment. -/
def plan (s : Scanner ε) (w : Surroundings ε) (root : Path) : Except Failure (Plan ε) := do
    let filters ← s.settings.filterSet w.supportsMarks root
    .ok ⟨root, filters, w.probe, w.make, w.monitor, none, w.now⟩

/-- Makes a plan and announces its root. -/
def prepare (s : Scanner ε) (w : Surroundings ε) (root : Path) : Except Failure (Plan ε × Scanner ε) := do
    let p ← s.plan w root
    .ok (p, { s with announced := s.announced ++ [root] })

/-- The refusal of a worker that is given no more jobs. -/
def stopped : Failure :=
    .trouble "cannot schedule new futures after shutdown"

/-- Enters a job and drops those that are done from the lists of a stop and a wait. -/
def enter (s : Scanner ε) (p : Plan ε) : Scanner ε :=
    let n := s.jobs.length
    { s with
      jobs := s.jobs ++ [.fresh p]
      waiting := s.waiting ++ [n]
      stoppable := s.stoppable.filter (!s.isDone ·) ++ [n]
      awaited := s.awaited.filter (!s.isDone ·) ++ [n] }

def submitStep (w : Surroundings ε) (root : Path) (phase : Submission ε) (s : Scanner ε) :
    Submission ε × Scanner ε :=
    match phase with
    | .asking => (if s.isClosed then .refused .closed else .preparing, s)
    | .preparing =>
        match s.prepare w root with
        | .ok (p, s) => (.entering p, s)
        | .error f => (.refused f, s)
    | .entering p =>
        if s.isClosed then (.refused .closed, s)
        else if s.isStopped then (.refused stopped, s)
        else (.accepted s.jobs.length, s.enter p)
    | .accepted n => (.accepted n, s)
    | .refused f => (.refused f, s)

/-- A whole submission; the number of the new job. -/
def submit (w : Surroundings ε) (root : Path) (s : Scanner ε) : Except Failure Nat × Scanner ε :=
    let (phase, s) := s.submitStep w root .asking
    let (phase, s) := s.submitStep w root phase
    let (phase, s) := s.submitStep w root phase
    match phase with
    | .accepted n => (.ok n, s)
    | .refused f => (.error f, s)
    | _ => (.error .closed, s)

end Scanner

end FileCensus
