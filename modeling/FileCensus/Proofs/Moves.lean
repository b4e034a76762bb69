import FileCensus.Scanner.Stop
import FileCensus.Scanner.Submission
import FileCensus.Scanner.Work
import Mathlib.Data.List.Basic

/-!
What one operation on a scanner can do, whoever performs it. Only the jobs, those that wait, the
worker, the channel and the countdowns are looked at; every operation is cut into its outcomes once,
and what a scanner keeps is shown by going through these. An operation does not run the callbacks
that it sets off; that is an operation of its own.
-/

namespace FileCensus

variable {ε κ : Type}

theorem set_getElem?_self {α : Type} {l : List α} {n : Nat} {a : α} (h : l[n]? = some a) :
    l.set n a = l := by
  obtain ⟨less, rfl⟩ := List.getElem?_eq_some_iff.mp h
  exact List.set_getElem_self less

/-- Whether a job has been taken up to be run. -/
def Stage.isStarted : Stage → Bool
  | .running | .finished _ => true
  | .pending | .cancelled | .cancelledNoted => false

/-- What an operation does to a handle, with the callbacks that it sets off. -/
inductive Handle.Change (h : Handle κ) : Handle κ → List κ → Prop where
  | keeps : Change h h []
  | flags : Change h { h with token := h.token.cancel } []
  | withdraws (pending : h.future.stage = .pending) :
      Change h { h with future := { h.future with stage := .cancelled } } h.future.callbacks
  | notes (cancelled : h.future.stage = .cancelled) :
      Change h { h with future := { h.future with stage := .cancelledNoted } } []

namespace Handle

theorem cancel_change (h : Handle κ) :
    h.Change { h with future := h.future.cancel.2.1 } h.future.cancel.2.2 := by
  cases stage : h.future.stage with
  | pending =>
      simp only [Future.cancel, stage]
      exact .withdraws stage
  | running | cancelled | cancelledNoted | finished _ =>
      simp only [Future.cancel, stage]
      exact .keeps

theorem cancelStep_change (request : Cancelling) (h : Handle κ) :
    h.Change (h.cancelStep request).2.1 (h.cancelStep request).2.2 := by
  cases request with
  | asking | checking | reporting | answered _ => exact .keeps
  | flagging => exact .flags
  | withdrawing => exact h.cancel_change

end Handle

/-- The callbacks that the worker has still to run. -/
def Worker.callbacks : Worker → List Callback
  | .telling _ cs => cs
  | .free | .running _ => []

/-- What of a scanner its jobs depend on. -/
structure Core (ε : Type) where
  jobs : List (Job ε)
  waiting : List Nat
  worker : Worker
  channel : Channel ε
  countdowns : List Nat

namespace Core

/-- What a callback does, with those that it gives rise to. -/
inductive Performs (c : Core ε) : Call → Core ε → List Call → Prop where
  | note {n tag} : Performs c (n, .note tag) c []
  | countDown {n group left} (left_eq : left = c.countdowns.getD group 0 - 1) :
      Performs c (n, .countDown group) { c with countdowns := c.countdowns.set group left }
        (if left = 0 then [(n, .closeLatch)] else [])
  | closeLatch {n} : Performs c (n, .closeLatch) { c with channel := c.channel.closeLatch } []

def entered (c : Core ε) (p : Plan ε) : Core ε :=
    { c with jobs := c.jobs ++ [.fresh p], waiting := c.waiting ++ [c.jobs.length] }

@[simp] theorem entered_jobs (c : Core ε) (p : Plan ε) :
    (c.entered p).jobs = c.jobs ++ [.fresh p] := rfl
@[simp] theorem entered_waiting (c : Core ε) (p : Plan ε) :
    (c.entered p).waiting = c.waiting ++ [c.jobs.length] := rfl
@[simp] theorem entered_worker (c : Core ε) (p : Plan ε) : (c.entered p).worker = c.worker := rfl
@[simp] theorem entered_channel (c : Core ε) (p : Plan ε) : (c.entered p).channel = c.channel := rfl

/-- The outcomes of a step of the worker, of a request or of a stop, with the callbacks that are to
be run after it. -/
inductive Moves (c : Core ε) : Core ε → List Call → Prop where
  | rests : Moves c c []
  | handles {n j h cs} (job : c.jobs[n]? = some j) (change : j.handle.Change h cs) :
      Moves c { c with jobs := c.jobs.set n { j with handle := h } } (cs.map (n, ·))
  | drops {n rest j h cs} (next : c.waiting = n :: rest) (job : c.jobs[n]? = some j)
      (change : j.handle.Change h cs) (refused : h.future.stage ≠ .pending) :
      Moves c { c with jobs := c.jobs.set n { j with handle := h }, waiting := rest }
        (cs.map (n, ·))
  | strays {n rest} (next : c.waiting = n :: rest) (lost : c.jobs[n]? = none) :
      Moves c { c with waiting := rest } []
  | starts {n rest j} (free : c.worker = .free) (next : c.waiting = n :: rest)
      (job : c.jobs[n]? = some j) (pending : j.handle.future.stage = .pending) :
      Moves c { c with
        jobs := c.jobs.set n { j with
          handle := { j.handle with future := { j.handle.future with stage := .running } } }
        waiting := rest
        worker := .running n } []
  | walks {n j} (runs : c.worker = .running n) (job : c.jobs[n]? = some j)
      (awake : ∀ o, j.walk.phase ≠ .ended o) :
      Moves c { c with
        jobs := c.jobs.set n { j with walk := (j.walk.step j.plan j.handle.token c.channel).1 }
        channel := (j.walk.step j.plan j.handle.token c.channel).2 } []
  | settles {n j o} (runs : c.worker = .running n) (job : c.jobs[n]? = some j)
      (ended : j.walk.phase = .ended o) (undone : j.handle.future.isDone = false) :
      Moves c { c with
        jobs := c.jobs.set n { j with
          handle := { j.handle with future := { j.handle.future with stage := .finished o } } }
        worker := .telling n j.handle.future.callbacks } []
  | halts {n} (runs : c.worker = .running n)
      (lost : ∀ j, c.jobs[n]? = some j → j.handle.future.isDone = true) :
      Moves c { c with worker := .free } []
  | frees {n} (told : c.worker = .telling n []) : Moves c { c with worker := .free } []

/-- The worker runs a callback of the job that it has brought to its end. -/
inductive Tells (c : Core ε) : Core ε → Prop where
  | tells {n k rest c' more} (telling : c.worker = .telling n (k :: rest))
      (performs : c.Performs (n, k) c' more) :
      Tells c { c' with worker := .telling n (more.map (·.2) ++ rest) }

/-- The outcomes of adding a callback to a job. -/
inductive Registers (c : Core ε) (n : Nat) (k : Callback) : Core ε → List Call → Prop where
  | lost (none : c.jobs[n]? = none) : Registers c n k c []
  | answers {j} (job : c.jobs[n]? = some j) (done : j.handle.future.isDone = true) :
      Registers c n k c [(n, k)]
  | joins {j} (job : c.jobs[n]? = some j) (undone : j.handle.future.isDone = false) :
      Registers c n k { c with
        jobs := c.jobs.set n { j with handle := { j.handle with
          future := { j.handle.future with callbacks := j.handle.future.callbacks ++ [k] } } } } []

/-- The plans of all jobs, in the order of submission. -/
def plans (c : Core ε) : List (Plan ε) :=
    c.jobs.map (·.plan)

theorem plans_set {c : Core ε} {n : Nat} {j j' : Job ε} (job : c.jobs[n]? = some j)
    (same : j'.plan = j.plan) : (c.jobs.set n j').map (·.plan) = c.plans := by
  have found : c.plans[n]? = some j'.plan := by rw [plans, List.getElem?_map, job, same]; rfl
  rw [List.map_set, ← plans, set_getElem?_self found]

theorem Moves.plans {c c' : Core ε} {calls : List Call} (move : c.Moves c' calls) :
    c'.plans = c.plans := by
  cases move with
  | rests | strays _ _ | halts _ _ | frees _ => rfl
  | handles job _ | drops _ job _ _ | starts _ _ job _ | walks _ job _ | settles _ job _ _ =>
      exact plans_set job rfl

theorem Performs.jobs {c c' : Core ε} {call : Call} {more : List Call}
    (performs : c.Performs call c' more) : c'.jobs = c.jobs := by
  cases performs <;> rfl

theorem Tells.plans {c c' : Core ε} (tell : c.Tells c') : c'.plans = c.plans := by
  cases tell with
  | tells _ performs => exact congrArg (List.map (·.plan)) performs.jobs

theorem Registers.plans {c c' : Core ε} {n : Nat} {k : Callback} {calls : List Call}
    (registers : c.Registers n k c' calls) : c'.plans = c.plans := by
  cases registers with
  | lost _ | answers _ _ => rfl
  | joins job _ => exact plans_set job rfl

end Core

namespace Scanner

def core (s : Scanner ε) : Core ε :=
    ⟨s.jobs, s.waiting, s.worker, s.channel, s.countdowns⟩

variable (s : Scanner ε)

theorem setHandle_of_job {n : Nat} {j : Job ε} (job : s.jobs[n]? = some j) (h : Handle Callback) :
    s.setHandle n h = { s with jobs := s.jobs.set n { j with handle := h } } := by
  simp [setHandle, List.modify_eq_set_getElem?, job]

theorem setHandle_self {n : Nat} {j : Job ε} (job : s.jobs[n]? = some j) :
    s.setHandle n j.handle = s := by
  rw [s.setHandle_of_job job, set_getElem?_self job]

theorem perform_performs (call : Call) :
    s.core.Performs call (s.perform call).1.core (s.perform call).2 := by
  obtain ⟨n, k⟩ := call
  cases k with
  | note tag => exact .note
  | countDown group => exact .countDown rfl
  | closeLatch => exact .closeLatch

/-- A job that is dropped as it is. -/
theorem dropped_moves {n : Nat} {rest : List Nat} {j : Job ε} (next : s.waiting = n :: rest)
    (job : s.jobs[n]? = some j) (refused : j.handle.future.stage ≠ .pending) :
    s.core.Moves { s with waiting := rest }.core [] := by
  have same : s.core.jobs.set n { j with handle := j.handle } = s.jobs := set_getElem?_self job
  have moves := Core.Moves.drops (c := s.core) next job .keeps refused
  rwa [same] at moves

theorem takeUp_moves (free : s.worker = .free) : s.core.Moves s.takeUp.core [] := by
  simp only [takeUp]
  split
  · exact .rests
  · next n rest next =>
    cases job : s.jobs[n]? with
    | none => exact .strays next job
    | some j =>
        have sets := fun h => setHandle_of_job { s with waiting := rest } job h
        cases stage : j.handle.future.stage with
        | pending =>
            simp only [Future.start, stage, if_true, sets]
            exact .starts free next job stage
        | cancelled =>
            simp only [Future.start, stage, Bool.false_eq_true, if_false, sets]
            exact .drops next job (.notes stage) nofun
        | running | cancelledNoted | finished _ =>
            simp only [Future.start, stage]
            exact s.dropped_moves next job (by simp [stage])

theorem proceed_moves {n : Nat} (runs : s.worker = .running n) :
    s.core.Moves (s.proceed n).core [] := by
  cases job : s.jobs[n]? with
  | none =>
      simp only [proceed, job]
      exact .halts (c := s.core) runs fun j found => nomatch job.symm.trans found
  | some j =>
      cases outcome : j.walk.outcome? with
      | none =>
          simp only [proceed, job, outcome]
          refine .walks (c := s.core) runs job fun o ended => ?_
          simp [Walk.outcome?, ended] at outcome
      | some o =>
          have ended : j.walk.phase = .ended o := by
            simp only [Walk.outcome?] at outcome
            split at outcome
            · next phase =>
              rw [phase, Option.some.inj outcome]
            · cases outcome
          cases done : j.handle.future.isDone with
          | true =>
              simp only [proceed, job, outcome, Future.settle, done, if_true]
              refine .halts (c := s.core) runs fun j' found => ?_
              have same : j = j' := Option.some.inj (job.symm.trans found)
              rw [← same, done]
          | false =>
              simp only [proceed, job, outcome, Future.settle, done, Bool.false_eq_true, if_false,
                s.setHandle_of_job job]
              exact .settles (c := s.core) runs job ended done

theorem workStep_cases : s.worker.callbacks = [] ∧ s.core.Moves s.workStep.core [] ∨
    s.core.Tells s.workStep.core := by
  simp only [workStep]
  split
  · next free => exact Or.inl ⟨by rw [free]; rfl, s.takeUp_moves free⟩
  · next n runs => exact Or.inl ⟨by rw [runs]; rfl, s.proceed_moves runs⟩
  · next n told => exact Or.inl ⟨by rw [told]; rfl, .frees told⟩
  · next n k rest telling => exact Or.inr (.tells telling (s.perform_performs (n, k)))

theorem cancelStep_moves (n : Nat) (request : Cancelling) :
    s.core.Moves (s.cancelStep n request).2.1.core (s.cancelStep n request).2.2 := by
  simp only [cancelStep]
  cases job : s.jobs[n]? with
  | none => exact .rests
  | some j =>
      simp only [s.setHandle_of_job job]
      exact .handles job (j.handle.cancelStep_change request)

theorem addCallback_registers (n : Nat) (k : Callback) :
    s.core.Registers n k (s.addCallback n k).1.core (s.addCallback n k).2 := by
  cases job : s.jobs[n]? with
  | none =>
      simp only [addCallback, job]
      exact .lost job
  | some j =>
      cases done : j.handle.future.isDone with
      | true =>
          simp only [addCallback, job, Handle.addCallback, Handle.withFuture, Future.addCallback,
            done, if_true, s.setHandle_self job]
          exact .answers (c := s.core) job done
      | false =>
          simp only [addCallback, job, Handle.addCallback, Handle.withFuture, Future.addCallback,
            done, Bool.false_eq_true, if_false, s.setHandle_of_job job]
          exact .joins (c := s.core) job done

theorem startGroup_core (size : Nat) : (s.startGroup size).1.core = { s.core with
    countdowns := s.core.countdowns ++ [size]
    channel := if size = 0 then s.core.channel.closeLatch else s.core.channel } := by
  simp only [startGroup]
  split <;> rfl

theorem startGroup_jobs (size : Nat) : (s.startGroup size).1.jobs = s.jobs := by
  simp only [startGroup]
  split <;> rfl

theorem startGroup_number (size : Nat) : (s.startGroup size).2 = s.countdowns.length := by
  simp [startGroup]

theorem withdraw_moves : s.core.Moves s.withdraw.1.core s.withdraw.2 := by
  simp only [withdraw]
  split
  · exact .rests
  · next n rest next =>
    cases job : s.jobs[n]? with
    | none => exact .strays next job
    | some j =>
        simp only [setHandle_of_job { s with waiting := rest } job]
        refine .drops next job j.handle.cancel_change ?_
        cases stage : j.handle.future.stage <;> simp [Future.cancel, stage]

/-- Only the last step of a submission enters a job, and it is the last one then. -/
theorem submitStep_cases (w : Surroundings ε) (root : Path) (phase : Submission ε) :
    (s.submitStep w root phase).2.core = s.core ∧
        (∀ n, (s.submitStep w root phase).1 = .accepted n → phase = .accepted n) ∨
      ∃ p, (s.submitStep w root phase).2.core = s.core.entered p ∧
        (s.submitStep w root phase).1 = .accepted s.jobs.length := by
  cases phase with
  | asking =>
      refine Or.inl ⟨rfl, fun n found => ?_⟩
      simp only [submitStep] at found
      split at found <;> cases found
  | accepted _ => exact Or.inl ⟨rfl, fun _ => id⟩
  | refused _ => exact Or.inl ⟨rfl, nofun⟩
  | preparing =>
      cases plan : s.plan w root with
      | error f => exact Or.inl (by simp [submitStep, prepare, plan, bind, Except.bind])
      | ok p => exact Or.inl (by simp [submitStep, prepare, plan, bind, Except.bind, core])
  | entering p =>
      cases closed : s.isClosed with
      | true => exact Or.inl (by simp [submitStep, closed])
      | false =>
          cases halted : s.isStopped with
          | true => exact Or.inl (by simp [submitStep, closed, halted])
          | false =>
              refine Or.inr ⟨p, ?_, ?_⟩
              · simp only [submitStep, closed, halted]
                rfl
              · simp [submitStep, closed, halted]

/-- What a step of a stop does to a scanner: it closes the desk or the worker's part of it, goes on
with a request to cancel a job, or withdraws one. Which of these, depends on how far it is. -/
inductive Winds (s : Scanner ε) : Scanner ε × List Call → Prop where
  | marks (isClosed isStopped : Bool) :
      Winds s ({ s with isClosed := isClosed, isStopped := isStopped }, [])
  | cancels (n : Nat) (request : Cancelling) : Winds s (s.cancelStep n request).2
  | withdraws : Winds s s.withdraw

theorem stopStep_winds (kind : StopKind) (phase : Stopping) :
    s.Winds (s.stopStep kind phase).2 := by
  cases phase with
  | marking => cases kind <;> exact .marks true s.isStopped
  | looking all left idle => cases left <;> exact .marks s.isClosed s.isStopped
  | choosing left idle => cases left <;> exact .marks s.isClosed s.isStopped
  | cancelling n request left idle =>
      have winds := Winds.cancels (s := s) n request
      simp only [stopStep]
      split
      · next answer => rwa [answer] at winds
      · next answer => rwa [answer] at winds
  | halting idle => exact .marks s.isClosed true
  | withdrawing idle =>
      simp only [stopStep]
      split
      · exact .marks s.isClosed s.isStopped
      · exact .withdraws
  | confirming _ _ _ _ | «over» _ => exact .marks s.isClosed s.isStopped

theorem Winds.moves {s : Scanner ε} {r : Scanner ε × List Call} (winds : s.Winds r) :
    s.core.Moves r.1.core r.2 := by
  cases winds with
  | marks _ _ => exact .rests
  | cancels n request => exact s.cancelStep_moves n request
  | withdraws => exact s.withdraw_moves

theorem stopStep_moves (kind : StopKind) (phase : Stopping) :
    s.core.Moves (s.stopStep kind phase).2.1.core (s.stopStep kind phase).2.2 :=
  (s.stopStep_winds kind phase).moves

end Scanner

/-- What a scanner keeps beside its jobs: the lists of a stop and of a wait, and whether it takes
roots and gives its worker jobs. -/
structure Desk where
  stoppable : List Nat
  awaited : List Nat
  isClosed : Bool
  isStopped : Bool

def Desk.lists (d : Desk) : List Nat × List Nat :=
    (d.stoppable, d.awaited)

namespace Scanner

def desk (s : Scanner ε) : Desk :=
    ⟨s.stoppable, s.awaited, s.isClosed, s.isStopped⟩

variable (s : Scanner ε)

/-- What no operation on the jobs changes, be it the worker's or a request's. -/
def frame (s : Scanner ε) : Desk × Settings :=
    (s.desk, s.settings)

theorem perform_frame (call : Call) : (s.perform call).1.frame = s.frame := by
  simp only [perform]
  split <;> rfl

theorem addCallback_frame (n : Nat) (k : Callback) : (s.addCallback n k).1.frame = s.frame := by
  simp only [addCallback]
  split <;> rfl

theorem startGroup_frame (size : Nat) : (s.startGroup size).1.frame = s.frame := by
  simp only [startGroup]
  split <;> rfl

theorem takeUp_frame : s.takeUp.frame = s.frame := by
  simp only [takeUp]
  split
  · rfl
  · split
    · rfl
    · split
      · rfl
      · split <;> rfl

theorem proceed_frame (n : Nat) : (s.proceed n).frame = s.frame := by
  simp only [proceed]
  split
  · rfl
  · split
    · rfl
    · split <;> rfl

theorem workStep_frame : s.workStep.frame = s.frame := by
  simp only [workStep]
  split
  · exact s.takeUp_frame
  · exact s.proceed_frame _
  · rfl
  · exact s.perform_frame _

theorem cancelStep_frame (n : Nat) (request : Cancelling) :
    (s.cancelStep n request).2.1.frame = s.frame := by
  simp only [cancelStep]
  split <;> rfl

theorem withdraw_frame : s.withdraw.1.frame = s.frame := by
  simp only [withdraw]
  split
  · rfl
  · split <;> rfl

theorem perform_desk (call : Call) : (s.perform call).1.desk = s.desk :=
  congrArg Prod.fst (s.perform_frame call)

theorem addCallback_desk (n : Nat) (k : Callback) : (s.addCallback n k).1.desk = s.desk :=
  congrArg Prod.fst (s.addCallback_frame n k)

theorem startGroup_desk (size : Nat) : (s.startGroup size).1.desk = s.desk :=
  congrArg Prod.fst (s.startGroup_frame size)

theorem workStep_desk : s.workStep.desk = s.desk :=
  congrArg Prod.fst s.workStep_frame

theorem cancelStep_desk (n : Nat) (request : Cancelling) :
    (s.cancelStep n request).2.1.desk = s.desk :=
  congrArg Prod.fst (s.cancelStep_frame n request)

theorem withdraw_desk : s.withdraw.1.desk = s.desk :=
  congrArg Prod.fst s.withdraw_frame

theorem perform_settings (call : Call) : (s.perform call).1.settings = s.settings :=
  congrArg Prod.snd (s.perform_frame call)

theorem addCallback_settings (n : Nat) (k : Callback) :
    (s.addCallback n k).1.settings = s.settings :=
  congrArg Prod.snd (s.addCallback_frame n k)

theorem startGroup_settings (size : Nat) : (s.startGroup size).1.settings = s.settings :=
  congrArg Prod.snd (s.startGroup_frame size)

theorem workStep_settings : s.workStep.settings = s.settings :=
  congrArg Prod.snd s.workStep_frame

theorem cancelStep_settings (n : Nat) (request : Cancelling) :
    (s.cancelStep n request).2.1.settings = s.settings :=
  congrArg Prod.snd (s.cancelStep_frame n request)

theorem Winds.settings {s : Scanner ε} {r : Scanner ε × List Call} (winds : s.Winds r) :
    r.1.settings = s.settings := by
  cases winds with
  | marks _ _ => rfl
  | cancels n request => exact s.cancelStep_settings n request
  | withdraws => exact congrArg Prod.snd s.withdraw_frame

theorem stopStep_settings (kind : StopKind) (phase : Stopping) :
    (s.stopStep kind phase).2.1.settings = s.settings :=
  (s.stopStep_winds kind phase).settings

/-- A stop closes the scanner, and later has the worker given no more jobs; beyond this it leaves
the desk alone. -/
theorem stopStep_desk (kind : StopKind) (phase : Stopping) :
    (s.stopStep kind phase).2.1.desk = { s.desk with
      isClosed := s.isClosed || phase matches .marking
      isStopped := s.isStopped || phase matches .halting _ } := by
  cases phase with
  | marking => cases kind <;> simp [stopStep, desk]
  | looking all left idle => cases left <;> simp [stopStep, desk]
  | choosing left idle => cases left <;> simp [stopStep, desk]
  | cancelling n request left idle =>
      have same := s.cancelStep_desk n request
      simp only [stopStep, Bool.or_false]
      split
      · next answer => rwa [answer] at same
      · next answer => rwa [answer] at same
  | withdrawing idle =>
      simp only [stopStep, Bool.or_false]
      split
      · rfl
      · exact s.withdraw_desk
  | _ => simp [stopStep, desk]

end Scanner
end FileCensus
