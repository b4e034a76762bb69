import FileCensus.Proofs.Traffic
import FileCensus.Proofs.Turns

/-!
What a stop that is to take effect at once reaches. It goes through the jobs that the scanner has on
its list, and every job that is not done is there; so in the end each job is done or has its token
cancelled. A job whose token is cancelled is never blocked by a full queue.
-/

namespace FileCensus

variable {ε : Type}

namespace Core

variable {c c' : Core ε} {calls : List Call} {left left' : List Nat} {n : Nat} {k : Callback}

/-- Every job but these is done or has its token cancelled. -/
def Flagged (c : Core ε) (left : List Nat) : Prop :=
    ∀ n (j : Job ε), c.jobs[n]? = some j → n ∉ left →
      j.handle.isDone = true ∨ j.handle.token.isCancelled = true

theorem flagged_of_empty (jobs : c.jobs = []) (left : List Nat) : c.Flagged left := by
  intro n j job
  rw [jobs, List.getElem?_nil] at job
  cases job

theorem Flagged.of_jobs (h : c.Flagged left) (jobs : c'.jobs = c.jobs) : c'.Flagged left := by
  intro n j job
  rw [jobs] at job
  exact h n j job

theorem Moves.earlier (move : c.Moves c' calls) (orderly : c.Orderly) {j' : Job ε}
    (found : c'.jobs[n]? = some j') : ∃ j, c.jobs[n]? = some j ∧ j.Later j' := by
  have less : n < c.jobs.length := move.length ▸ (List.getElem?_eq_some_iff.mp found).1
  have job : c.jobs[n]? = some c.jobs[n] := List.getElem?_eq_getElem less
  obtain ⟨j, same, later⟩ := move.later orderly job
  cases same.symm.trans found
  exact ⟨_, job, later⟩

theorem Flagged.moves (h : c.Flagged left) (orderly : c.Orderly) (move : c.Moves c' calls) :
    c'.Flagged left := by
  intro n j' found other
  obtain ⟨j, job, later⟩ := move.earlier orderly found
  cases h n j job other with
  | inl done => exact Or.inl (later.done done).1
  | inr flagged => exact Or.inr (later.flagged flagged)

theorem Flagged.mono (h : c.Flagged left) (sub : ∀ n ∈ left, n ∈ left') : c.Flagged left' :=
  fun n j job other => h n j job fun old => other (sub n old)

/-- A job may be left out of the list when it is done or flagged itself. -/
theorem Flagged.drop (h : c.Flagged (n :: left)) (this : ∀ j, c.jobs[n]? = some j →
    j.handle.isDone = true ∨ j.handle.token.isCancelled = true) : c.Flagged left := by
  intro m j job other
  by_cases same : m = n
  · subst same
    exact this j job
  · exact h m j job (by simp [same, other])

theorem Flagged.registers (h : c.Flagged left) (add : c.Registers n k c' calls) :
    c'.Flagged left := by
  cases add with
  | lost _ | answers _ _ => exact h
  | joins job _ =>
      intro m j' found other
      rcases getElem?_set_cases found with ⟨rfl, rfl⟩ | ⟨-, old⟩
      · have before := h m _ job other
        exact before
      · exact h m j' old other

end Core

/-- These jobs, and the one that is to be cancelled as long as it has not been told to stop. -/
def Cancelling.left (n : Nat) (left : List Nat) : Cancelling → List Nat
  | .asking | .flagging => n :: left
  | .withdrawing | .checking | .reporting | .answered _ => left

/-- The jobs that a stop which is to take effect at once has not told to stop yet. -/
def Stopping.left (stoppable : List Nat) : Stopping → List Nat
  | .marking => stoppable
  | .looking all _ _ | .confirming _ all _ _ => all
  | .choosing left _ => left
  | .cancelling n request left _ => request.left n left
  | .halting _ | .withdrawing _ | .over _ => []

namespace Scanner

variable (s : Scanner ε)

/-- The jobs that a stop and a wait go through. -/
def lists (s : Scanner ε) : List Nat × List Nat :=
    (s.stoppable, s.awaited)

theorem perform_lists (call : Call) : (s.perform call).1.lists = s.lists :=
  congrArg Desk.lists (s.perform_desk call)

theorem addCallback_lists (n : Nat) (k : Callback) : (s.addCallback n k).1.lists = s.lists :=
  congrArg Desk.lists (s.addCallback_desk n k)

theorem workStep_lists : s.workStep.lists = s.lists :=
  congrArg Desk.lists s.workStep_desk

theorem startGroup_lists (size : Nat) : (s.startGroup size).1.lists = s.lists :=
  congrArg Desk.lists (s.startGroup_desk size)

theorem cancelStep_lists (n : Nat) (request : Cancelling) :
    (s.cancelStep n request).2.1.lists = s.lists :=
  congrArg Desk.lists (s.cancelStep_desk n request)

theorem stopStep_lists (kind : StopKind) (phase : Stopping) :
    (s.stopStep kind phase).2.1.lists = s.lists :=
  congrArg Desk.lists (s.stopStep_desk kind phase)

variable {s} {left : List Nat}

theorem cancelStep_flagged {n : Nat} {request : Cancelling} (orderly : s.core.Orderly)
    (h : s.core.Flagged (request.left n left)) :
    (s.cancelStep n request).2.1.core.Flagged ((s.cancelStep n request).1.left n left) := by
  have kept := h.moves orderly (s.cancelStep_moves n request)
  cases job : s.jobs[n]? with
  | none =>
      simp only [cancelStep, job] at kept ⊢
      cases request with
      | asking | flagging =>
          refine kept.drop fun j found => ?_
          cases job.symm.trans found
      | withdrawing | checking | reporting | answered _ => exact kept
  | some j =>
      simp only [cancelStep, job] at kept ⊢
      cases request with
      | asking =>
          cases done : j.handle.isDone with
          | false =>
              simp only [Handle.cancelStep, done, Bool.false_eq_true, if_false] at kept ⊢
              exact kept
          | true =>
              simp only [Handle.cancelStep, done, if_true, s.setHandle_self job] at kept ⊢
              refine kept.drop fun j' found => Or.inl ?_
              cases job.symm.trans found
              exact done
      | flagging =>
          simp only [Handle.cancelStep, s.setHandle_of_job job] at kept ⊢
          refine kept.drop fun j' found => Or.inr ?_
          rcases getElem?_set_cases found with ⟨-, rfl⟩ | ⟨other, -⟩
          · rfl
          · exact absurd rfl other
      | withdrawing | checking =>
          simp only [Handle.cancelStep] at kept ⊢
          split <;> exact kept
      | reporting | answered _ => exact kept

theorem stopStep_flagged {phase : Stopping} (orderly : s.core.Orderly)
    (h : s.core.Flagged (phase.left s.stoppable)) :
    (s.stopStep .immediate phase).2.1.core.Flagged
      ((s.stopStep .immediate phase).1.left s.stoppable) := by
  have kept := h.moves orderly (s.stopStep_moves .immediate phase)
  cases phase with
  | marking | confirming _ _ _ _ | halting _ => exact kept
  | looking all left idle =>
      cases left with
      | nil => exact kept
      | cons n left =>
          simp only [stopStep]
          split <;> exact kept
  | choosing left idle => cases left <;> exact kept
  | cancelling n request left idle =>
      have flagged := cancelStep_flagged orderly h
      simp only [stopStep]
      split
      · next answer => rwa [answer] at flagged
      · next answer => rwa [answer] at flagged
  | withdrawing idle =>
      simp only [stopStep] at kept ⊢
      cases empty : s.waiting.isEmpty with
      | true | false =>
          simp only [empty] at kept ⊢
          exact kept
  | _ => exact kept

/-- A submission drops from the list only jobs that are done. -/
theorem submitStep_flagged (w : Surroundings ε) (root : Path) (phase : Submission ε)
    (h : s.core.Flagged s.stoppable) :
    (s.submitStep w root phase).2.core.Flagged (s.submitStep w root phase).2.stoppable := by
  cases phase with
  | asking | accepted _ | refused _ => exact h
  | preparing =>
      cases plan : s.plan w root with
      | error f =>
          simp only [submitStep, prepare, plan, bind, Except.bind]
          exact h
      | ok p =>
          simp only [submitStep, prepare, plan, bind, Except.bind]
          exact h
  | entering p =>
      simp only [submitStep]
      split
      · exact h
      · split
        · exact h
        · intro n j job other
          simp only [enter, List.mem_append, List.mem_filter, List.mem_singleton, not_or] at other
          rcases getElem?_snoc_cases job with ⟨-, job⟩ | ⟨last, -⟩
          · by_cases listed : n ∈ s.stoppable
            · refine Or.inl ?_
              have job : s.jobs[n]? = some j := job
              by_contra undone
              exact other.1 ⟨listed, by simpa [isDone, job] using undone⟩
            · exact h n j job listed
          · exact absurd last other.2

theorem workStep_of_idle (idle : s.isIdle = true) : s.workStep = s := by
  simp only [isIdle, Bool.and_eq_true, decide_eq_true_eq, List.isEmpty_iff] at idle
  simp only [workStep, idle.1, takeUp, idle.2]

theorem perform_idle (call : Call) : (s.perform call).1.isIdle = s.isIdle := by
  simp only [perform]
  split <;> rfl

theorem cancelStep_idle (n : Nat) (request : Cancelling) :
    (s.cancelStep n request).2.1.isIdle = s.isIdle := by
  simp only [cancelStep]
  split <;> rfl

end Scanner

namespace Census

/-- The jobs that have not been told to stop while a census stops its scanner. A failure has it
stopped at once, before the gentle stop. -/
def unstopped (stoppable : List Nat) (exit : Exit) (progress : Stopping)
    (cause : Option Failure) : List Nat :=
    match exit with
    | .handling | .leaving => progress.left stoppable
    | .closing => if cause.isSome then [] else stoppable

/-- The jobs that have not been told to stop. -/
def unflagged (c : Census) : List Nat :=
    match c.stage with
    | .stopping exit progress cause | .dismissing _ exit progress cause =>
        unstopped c.scanner.stoppable exit progress cause
    | .joining cause | .ended cause => if cause.isSome then [] else c.scanner.stoppable
    | _ => c.scanner.stoppable

/-- Each job that goes on is among those that will be told to stop, and at the end no job is left. -/
structure Heeded (c : Census) : Prop where
  flagged : c.scanner.core.Flagged c.unflagged
  idle : c.isEnded = true → c.scanner.isIdle = true

variable {p : Plan} {c : Census}

/-- Nothing but the scanner has changed. -/
theorem Heeded.withScanner (h : c.Heeded) {s : Scanner FileEntry}
    (flagged : ∀ left, c.scanner.core.Flagged left → s.core.Flagged left)
    (lists : s.lists = c.scanner.lists) (idle : c.scanner.isIdle = true → s.isIdle = true) :
    Heeded { c with scanner := s } where
  flagged := by
    have same : ({ c with scanner := s } : Census).unflagged = c.unflagged := by
      have stoppable : s.stoppable = c.scanner.stoppable := congrArg Prod.fst lists
      simp only [unflagged, stoppable]
    rw [same]
    exact flagged _ h.flagged
  idle ended := idle (h.idle ended)

theorem Heeded.workStep (h : c.Heeded) (orderly : c.scanner.core.Orderly) : c.workStep.Heeded := by
  apply h.withScanner
  · intro left flagged
    rcases c.scanner.workStep_cases with ⟨-, move⟩ | tell
    · exact flagged.moves orderly move
    · exact flagged.of_jobs tell.jobs
  · exact c.scanner.workStep_lists
  · intro idle
    rw [Scanner.workStep_of_idle idle]
    exact idle

theorem Heeded.request (h : c.Heeded) (orderly : c.scanner.core.Orderly) (q : CancelRequest) :
    Heeded { c with scanner := (q.step c.scanner).2 } := by
  cases calls : q.calls with
  | nil =>
      simp only [CancelRequest.step, calls]
      have move := c.scanner.cancelStep_moves q.job q.phase
      apply h.withScanner
      · exact fun _ flagged => flagged.moves orderly move
      · exact c.scanner.cancelStep_lists q.job q.phase
      · exact fun idle => by rw [Scanner.cancelStep_idle, idle]
  | cons call rest =>
      simp only [CancelRequest.step, calls]
      have perf := c.scanner.perform_performs call
      apply h.withScanner
      · exact fun _ flagged => flagged.of_jobs perf.same.1
      · exact c.scanner.perform_lists call
      · exact fun idle => by rw [Scanner.perform_idle, idle]

/-- The main thread has changed its stage as well. -/
theorem Heeded.of_lists (h : c.Heeded) {s : Scanner FileEntry} (left : List Nat → List Nat)
    (before : c.unflagged = left c.scanner.stoppable)
    (flagged : ∀ left, c.scanner.core.Flagged left → s.core.Flagged left)
    (lists : s.lists = c.scanner.lists) : s.core.Flagged (left s.stoppable) := by
  have stoppable : s.stoppable = c.scanner.stoppable := congrArg Prod.fst lists
  rw [stoppable, ← before]
  exact flagged _ h.flagged

/-- A step of a stop. -/
theorem Heeded.stops {exit : Exit} {progress : Stopping} {cause : Option Failure}
    (h : (c.go (.stopping exit progress cause)).Heeded) (orderly : c.scanner.core.Orderly) :
    (c.scanner.stopStep exit.kind progress).2.1.core.Flagged
      (unstopped (c.scanner.stopStep exit.kind progress).2.1.stoppable exit
        (c.scanner.stopStep exit.kind progress).1 cause) := by
  have flagged : c.scanner.core.Flagged (unstopped c.scanner.stoppable exit progress cause) :=
    h.flagged
  have stoppable : (c.scanner.stopStep exit.kind progress).2.1.stoppable = c.scanner.stoppable :=
    congrArg Prod.fst (c.scanner.stopStep_lists exit.kind progress)
  rw [stoppable]
  cases exit with
  | handling | leaving => exact Scanner.stopStep_flagged orderly flagged
  | closing => exact flagged.moves orderly (c.scanner.stopStep_moves _ progress)

theorem Heeded.proceeds {c' : Census} (h : c.Heeded) (orderly : c.scanner.core.Orderly)
    (turn : Proceeds p c c') : c'.Heeded := by
  have flagged := h.flagged
  cases turn with
  | rests _ _ => exact h
  | submits c root _ submission _ _ =>
      exact ⟨Scanner.submitStep_flagged p.surroundings root submission flagged, nofun⟩
  | groups c =>
      refine ⟨h.of_lists id rfl ?_ (c.scanner.startGroup_lists c.accepted.length), nofun⟩
      exact fun _ flagged => flagged.of_jobs (c.scanner.startGroup_jobs c.accepted.length)
  | registers c n _ group =>
      refine ⟨h.of_lists id rfl ?_ (c.scanner.addCallback_lists n (.countDown group)), nofun⟩
      exact fun _ flagged => flagged.registers (c.scanner.addCallback_registers n _)
  | tells c call _ _ _ =>
      refine ⟨h.of_lists id rfl ?_ (c.scanner.perform_lists call), nofun⟩
      exact fun _ flagged => flagged.of_jobs (c.scanner.perform_performs call).same.1
  | blames c f =>
      rcases Exit.onFailure_cases f with exit | exit
      · rw [exit]
        exact ⟨flagged, nofun⟩
      · rw [exit]
        exact ⟨flagged, nofun⟩
  | handled _ _ _ | left _ _ _ => exact ⟨Core.Flagged.mono flagged nofun, nofun⟩
  | stops c _ _ _ _ _ | dismisses c _ _ _ _ _ => exact ⟨h.stops orderly, nofun⟩
  | informs c call _ exit progress cause =>
      have lists := c.scanner.perform_lists call
      refine ⟨h.of_lists (fun all => unstopped all exit progress cause) rfl ?_ lists, nofun⟩
      exact fun _ flagged => flagged.of_jobs (c.scanner.perform_performs call).same.1
  | joins _ _ idle => exact ⟨flagged, fun _ => idle⟩
  | submitted _ _ | accepts _ _ _ _ | refuses _ _ _ _ | registered _ _ | told _ _ _
  | signalled _ _ _ _ _ | exhausts _ _ | takes _ _ _ _ | prints _ _ _ _ | appends _ _ _ _ _ _ _
  | fails _ _ _ _ | closes _ | summarises _ | closed _ _ _ | dismissed _ _ _ _ =>
      exact ⟨flagged, nofun⟩

end Census
end FileCensus
