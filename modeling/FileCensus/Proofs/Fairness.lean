import FileCensus.Proofs.Toil
import Mathlib.Data.Prod.Lex
import Mathlib.Order.WellFounded

/-!
A census comes to its end in whatever order the two threads have their turns, as long as each has
one again and again. What it still has to do is measured in three parts, of which an earlier one
counts for more: the submissions and callbacks that the main thread has still to see to, the work
that the worker has still to do, and how soon the main thread comes to a stop by itself. A turn of
the main thread that does not wait makes less of it; a turn of the worker never makes more.
-/

namespace FileCensus

/-- How many steps a request to cancel still takes. -/
def Cancelling.rank : Cancelling → Nat
  | .asking => 6
  | .flagging => 5
  | .withdrawing => 4
  | .checking => 3
  | .reporting => 2
  | .answered _ => 1

theorem Cancelling.rank_pos (request : Cancelling) : 0 < request.rank := by
  cases request <;> exact Nat.succ_pos _

/-- How soon a stop is over, by the number of jobs that it goes through. -/
def Stopping.rank (jobs : Nat) : Stopping → Nat
  | .marking => 10 * jobs + 5
  | .looking all left _ => 8 * all.length + 2 * left.length + 4
  | .confirming _ all left _ => 8 * all.length + 2 * left.length + 5
  | .choosing left _ => 8 * left.length + 3
  | .cancelling _ request left _ => 8 * left.length + 3 + request.rank
  | .halting _ => 2
  | .withdrawing _ => 1
  | .over _ => 0

theorem Handle.cancelStep_rank {κ : Type} (request : Cancelling) (h : Handle κ) :
    (∃ b, (h.cancelStep request).1 = .answered b) ∨
      (h.cancelStep request).1.rank < request.rank := by
  cases request with
  | asking | checking =>
      simp only [cancelStep]
      split
      · exact .inr (by simp [Cancelling.rank])
      · simp [Cancelling.rank]
  | flagging => exact .inr (Nat.lt_succ_self _)
  | withdrawing =>
      simp only [cancelStep]
      split
      · exact .inl ⟨_, rfl⟩
      · exact .inr (Nat.lt_succ_self _)
  | reporting | answered _ => exact .inl ⟨_, rfl⟩

namespace Scanner

variable {ε : Type} (s : Scanner ε)

theorem cancelStep_rank (n : Nat) (request : Cancelling) :
    (∃ b, (s.cancelStep n request).1 = .answered b) ∨
      (s.cancelStep n request).1.rank < request.rank := by
  unfold cancelStep
  split
  · exact .inl ⟨_, rfl⟩
  · next j _ => exact j.handle.cancelStep_rank request

/-- A stop comes nearer to its end with each step, unless it withdraws a job. -/
theorem stopStep_rank (kind : StopKind) {phase : Stopping} (going : ∀ idle, phase ≠ .over idle) :
    (s.stopStep kind phase).1.rank s.stoppable.length < phase.rank s.stoppable.length ∨
      (s.stopStep kind phase).2.1.waiting.length < s.waiting.length ∧
        (s.stopStep kind phase).1 = phase := by
  cases phase with
  | marking =>
      refine .inl ?_
      cases kind <;> simp only [stopStep, Stopping.rank] <;> omega
  | looking all left idle =>
      refine .inl ?_
      cases left with
      | nil => simp [stopStep, Stopping.rank]
      | cons n left =>
          simp only [stopStep]
          split <;> simp only [Stopping.rank, List.length_cons] <;> omega
  | confirming n all left idle =>
      refine .inl ?_
      simp [stopStep, Stopping.rank]
  | choosing left idle =>
      refine .inl ?_
      cases left with
      | nil => simp [stopStep, Stopping.rank]
      | cons n left =>
          simp only [stopStep, Stopping.rank, List.length_cons, Cancelling.rank]
          omega
  | cancelling n request left idle =>
      refine .inl ?_
      simp only [stopStep]
      split
      · have pos := request.rank_pos
        simp only [Stopping.rank]
        omega
      · next request' s' calls other step =>
        rcases s.cancelStep_rank n request with ⟨b, answered⟩ | less
        · rw [step] at answered
          exact absurd answered (other b)
        · rw [step] at less
          exact Nat.add_lt_add_left less _
  | halting idle =>
      refine .inl ?_
      simp only [stopStep]
      split <;> simp [Stopping.rank]
  | withdrawing idle =>
      simp only [stopStep]
      split
      · exact .inl (by simp [Stopping.rank])
      · next more =>
        refine .inr ⟨?_, rfl⟩
        cases waiting : s.waiting with
        | nil => simp [waiting] at more
        | cons n rest =>
            simp only [withdraw, waiting]
            split
            · exact Nat.lt_succ_self _
            · exact Nat.lt_succ_self _
  | «over» idle => exact absurd rfl (going idle)

theorem cancelStep_channel (n : Nat) (request : Cancelling) :
    (s.cancelStep n request).2.1.channel = s.channel := by
  unfold cancelStep
  split <;> rfl

theorem withdraw_channel : s.withdraw.1.channel = s.channel := by
  unfold withdraw
  split
  · rfl
  · simp only
    split <;> rfl

theorem Winds.channel {s : Scanner ε} {r : Scanner ε × List Call} (winds : s.Winds r) :
    r.1.channel = s.channel := by
  cases winds with
  | marks _ _ => rfl
  | cancels n request => exact s.cancelStep_channel n request
  | withdraws => exact s.withdraw_channel

theorem stopStep_channel (kind : StopKind) (phase : Stopping) :
    (s.stopStep kind phase).2.1.channel = s.channel :=
  (s.stopStep_winds kind phase).channel

end Scanner

namespace Submission

variable {ε : Type}

/-- One as long as the job is not there. -/
def due : Submission ε → Nat
  | .accepted _ => 0
  | _ => 1

def rank : Submission ε → Nat
  | .accepted _ => 4
  | .asking => 3
  | .preparing => 2
  | .entering _ => 1
  | .refused _ => 0

end Submission

namespace Census

/-- How many submissions and callbacks the main thread has still to see to: a root counts for its
job and for the callback of that. -/
def Stage.errands (accepted : Nat) : Stage → Nat
  | .submitting left submission => 2 * left.length + accepted + 2 + submission.due
  | .grouping => accepted + 1
  | .registering left _ | .telling _ left _ => left.length
  | _ => 0

/-- What comes after a stop, other stops included. -/
def Exit.rank (jobs : Nat) : Exit → Nat
  | .closing => 2
  | .leaving => 20 * jobs + 14
  | .handling => 40 * jobs + 26

theorem Exit.onFailure_rank (f : Failure) (jobs : Nat) :
    (Exit.onFailure f).rank jobs ≤ 40 * jobs + 26 := by
  rcases Exit.onFailure_cases f with exit | exit
  · rw [exit, Exit.rank]
  · rw [exit, Exit.rank]
    omega

/-- How soon the main thread comes to a stop when no entry comes any more. -/
def Stage.rank (jobs : Nat) : Stage → Nat
  | .submitting _ submission => submission.rank
  | .grouping => 0
  | .telling _ _ _ => 60 * jobs + 41
  | .registering _ _ => 60 * jobs + 40
  | .taking => 60 * jobs + 41
  | .writing _ => 60 * jobs + 40
  | .waiting => 60 * jobs + 39
  | .closing _ => 60 * jobs + 38
  | .summarising => 60 * jobs + 37
  | .stopping exit progress _ => 2 * progress.rank jobs + exit.rank jobs
  | .dismissing _ exit progress _ => 2 * progress.rank jobs + exit.rank jobs + 1
  | .joining _ => 1
  | .ended _ => 0

def errands (c : Census) : Nat :=
    c.stage.errands c.accepted.length

def toil (fs : FileSystem) (c : Census) : Nat :=
    c.core.toil fs + toilOf c.stage.calls

/-- A signal makes the main thread go round once more. -/
def rank (c : Census) : Nat :=
    3 * c.scanner.channel.latch.elim 0 (·.pending) + c.stage.rank c.scanner.stoppable.length

/-- What a census has still to do. -/
def measure (fs : FileSystem) (c : Census) : Nat ×ₗ Nat ×ₗ Nat :=
    toLex (c.errands, toLex (c.toil fs, c.rank))

variable {p : Plan} {c c' : Census} {fs : FileSystem}

theorem measure_lt_of_errands (less : c'.errands < c.errands) : c'.measure fs < c.measure fs :=
  Prod.Lex.toLex_lt_toLex.mpr (.inl less)

theorem measure_lt_of_toil (errands : c'.errands ≤ c.errands) (less : c'.toil fs < c.toil fs) :
    c'.measure fs < c.measure fs := by
  rcases Nat.lt_or_eq_of_le errands with fewer | same
  · exact measure_lt_of_errands fewer
  · exact Prod.Lex.toLex_lt_toLex.mpr (.inr ⟨same, Prod.Lex.toLex_lt_toLex.mpr (.inl less)⟩)

theorem measure_lt_of_rank (errands : c'.errands ≤ c.errands) (toil : c'.toil fs ≤ c.toil fs)
    (less : c'.rank < c.rank) : c'.measure fs < c.measure fs := by
  rcases Nat.lt_or_eq_of_le toil with easier | same
  · exact measure_lt_of_toil errands easier
  · rcases Nat.lt_or_eq_of_le errands with fewer | same'
    · exact measure_lt_of_errands fewer
    · exact Prod.Lex.toLex_lt_toLex.mpr
        (.inr ⟨same', Prod.Lex.toLex_lt_toLex.mpr (.inr ⟨same, less⟩)⟩)

/-- The main thread goes to another stage and does nothing else that counts. -/
theorem measure_go {before after : Stage}
    (errands : after.errands c.accepted.length ≤ before.errands c.accepted.length)
    (calls : after.calls = [])
    (less : ∀ jobs, after.rank jobs < before.rank jobs) :
    (c.go after).measure fs < (c.go before).measure fs := by
  refine measure_lt_of_rank errands ?_ (Nat.add_lt_add_left (less _) _)
  simp only [toil, go, core, calls, toilOf_nil]
  exact Nat.le_add_right _ _

theorem submitStep_measure (root : Path) {left : List Path} {submission : Submission FileEntry}
    (unanswered : ∀ n, submission ≠ .accepted n) (willing : ∀ f, submission ≠ .refused f) :
    ({ c with scanner := (c.scanner.submitStep p.surroundings root submission).2 }.go
      (.submitting left (c.scanner.submitStep p.surroundings root submission).1)).measure fs <
        (c.go (.submitting left submission)).measure fs := by
  have goes {after : Submission FileEntry} (scanner : Scanner FileEntry)
      (core : scanner.core = c.scanner.core)
      (due : after.due ≤ submission.due) (less : after.rank < submission.rank) :
      ({ c with scanner := scanner }.go (.submitting left after)).measure fs <
        (c.go (.submitting left submission)).measure fs := by
    have channel : scanner.channel = c.scanner.channel := congrArg Core.channel core
    refine measure_lt_of_rank (Nat.add_le_add_left due _) ?_ ?_
    · simp only [toil, go, Census.core, core]
      exact Nat.le_refl _
    · simp only [rank, go, channel, Stage.rank]
      omega
  cases submission with
  | accepted n => exact absurd rfl (unanswered n)
  | refused f => exact absurd rfl (willing f)
  | asking =>
      simp only [Scanner.submitStep]
      split <;> exact goes c.scanner rfl (Nat.le_refl 1) (by simp [Submission.rank])
  | preparing =>
      cases plan : c.scanner.plan p.surroundings root with
      | error f =>
          simp only [Scanner.submitStep, Scanner.prepare, plan, bind, Except.bind]
          exact goes c.scanner rfl (Nat.le_refl 1) (by simp [Submission.rank])
      | ok q =>
          simp only [Scanner.submitStep, Scanner.prepare, plan, bind, Except.bind]
          exact goes _ rfl (Nat.le_refl 1) (by simp [Submission.rank])
  | entering q =>
      simp only [Scanner.submitStep]
      split
      · exact goes c.scanner rfl (Nat.le_refl 1) (by simp [Submission.rank])
      · split
        · exact goes c.scanner rfl (Nat.le_refl 1) (by simp [Submission.rank])
        · exact measure_lt_of_errands (Nat.lt_succ_self _)

/-- The main thread runs the first of some callbacks. -/
theorem tell_measure {call : Call} {rest : List Call} {before after : Stage}
    (calls : before.calls = call :: rest) (more : after.calls = (c.scanner.perform call).2 ++ rest)
    (errands : after.errands c.accepted.length ≤ before.errands c.accepted.length) :
    ({ c with scanner := (c.scanner.perform call).1 }.go after).measure fs <
      (c.go before).measure fs := by
  refine measure_lt_of_toil errands ?_
  have less := (c.scanner.perform_performs call).toil fs
  simp only [toil, go, core, calls, more, toilOf_append] at less ⊢
  simp only [toilOf, List.map_cons, Callback.toils_cons] at less ⊢
  omega

theorem stopStep_measure (wf : fs.WellFormed)
    (grounded : ∀ (n : Nat) j, c.scanner.jobs[n]? = some j → j.Grounded fs) {exit : Exit}
    {progress : Stopping} {cause : Option Failure} {after : Stage}
    (going : ∀ idle, progress ≠ .over idle) (errands : after.errands c.accepted.length = 0)
    (calls : after.calls = (c.scanner.stopStep exit.kind progress).2.2)
    (le : ∀ jobs, after.rank jobs ≤ 2 * (c.scanner.stopStep exit.kind progress).1.rank jobs +
      exit.rank jobs + 1) :
    ({ c with scanner := (c.scanner.stopStep exit.kind progress).2.1 }.go after).measure fs <
      (c.go (.stopping exit progress cause)).measure fs := by
  have move := c.scanner.stopStep_moves exit.kind progress
  rcases move.toil_cases wf grounded with easier | ⟨easy, waiting, -⟩
  · refine measure_lt_of_toil (Nat.le_of_eq errands) ?_
    simp only [toil, go, core, calls]
    exact easier
  · refine measure_lt_of_rank (Nat.le_of_eq errands) ?_ ?_
    · simp only [toil, go, core, calls]
      exact easy
    · have stoppable : (c.scanner.stopStep exit.kind progress).2.1.stoppable = c.scanner.stoppable :=
        congrArg Prod.fst (c.scanner.stopStep_lists exit.kind progress)
      have nearer := (c.scanner.stopStep_rank exit.kind going).resolve_right fun withdrawn => by
        have same : (c.scanner.stopStep exit.kind progress).2.1.waiting = c.scanner.waiting := waiting
        rw [same] at withdrawn
        exact Nat.lt_irrefl _ withdrawn.1
      have bound := le c.scanner.stoppable.length
      have before : (Stage.stopping exit progress cause).rank c.scanner.stoppable.length =
          2 * progress.rank c.scanner.stoppable.length + exit.rank c.scanner.stoppable.length := rfl
      simp only [rank, go, c.scanner.stopStep_channel, stoppable, before]
      omega

/-- A turn of the main thread that does not wait leaves it less to do. -/
theorem Proceeds.measure_lt (turn : Proceeds p c c') (wf : fs.WellFormed)
    (grounded : ∀ (n : Nat) j, c.scanner.jobs[n]? = some j → j.Grounded fs)
    (going : c.isEnded = false) (free : c.isWaiting = false) : c'.measure fs < c.measure fs := by
  cases turn with
  | rests c still => simp [going, free] at still
  | submitted c submission =>
      refine measure_lt_of_errands ?_
      simp only [errands, go, Stage.errands]
      omega
  | accepts c root rest n =>
      refine measure_lt_of_rank ?_ (Nat.le_refl _) (Nat.lt_succ_self _)
      simp only [errands, go, Stage.errands, Submission.due, List.length_append, List.length_cons,
        List.length_nil]
      omega
  | refuses c root rest f =>
      refine measure_lt_of_errands ?_
      simp only [errands, go, Stage.errands]
      omega
  | submits c root rest submission unanswered willing =>
      exact submitStep_measure root unanswered willing
  | groups _ | registers _ _ _ _ => exact measure_lt_of_errands (Nat.lt_succ_self _)
  | told c left group =>
      exact measure_go (Nat.le_refl _) rfl fun _ => by simp [Stage.rank]
  | tells c call rest left group => exact tell_measure rfl rfl (Nat.le_refl _)
  | signalled c l n latch pending =>
      refine measure_lt_of_rank (Nat.le_refl _) (Nat.le_refl _) ?_
      simp only [rank, go, latch, pending, Stage.rank, Option.elim_some]
      omega
  | takes c e rest items =>
      refine measure_lt_of_rank (Nat.le_refl _) (Nat.le_refl _) ?_
      simp only [rank, go, Stage.rank]
      omega
  | blames c f =>
      refine measure_go (c := c) (Nat.zero_le _) rfl fun jobs => ?_
      have least := Exit.onFailure_rank f jobs
      simp only [Stage.rank, Stopping.rank]
      omega
  | registered c _ | exhausts c _ | prints c _ _ _ | appends c _ _ _ _ _ _ | fails c _ _ _
  | closes c | summarises c | handled c _ _ | left c _ _ | closed c _ _ | dismissed c _ _ _
  | joins c _ _ =>
      refine measure_go (c := c) (Nat.zero_le _) rfl fun _ => ?_
      simp only [Stage.rank, Stopping.rank, Exit.rank]
      omega
  | stops c exit progress cause quietly quiet =>
      exact stopStep_measure wf grounded quietly rfl quiet.symm fun _ => Nat.le_succ _
  | dismisses c exit progress cause quietly _ =>
      exact stopStep_measure wf grounded quietly rfl rfl fun _ => Nat.le_refl _
  | informs c call rest exit progress cause => exact tell_measure rfl rfl (Nat.zero_le _)

/-- A worker that is not idle gets on as well, unless it tries in vain to put an entry; it does so
only on a full queue, and the main thread cannot tell. -/
theorem workStep_measure (wf : fs.WellFormed)
    (grounded : ∀ (n : Nat) j, c.scanner.jobs[n]? = some j → j.Grounded fs)
    (busy : c.scanner.isIdle = false) :
    c.workStep.measure fs < c.measure fs ∨
      c.workStep.measure fs ≤ c.measure fs ∧ c.workStep.isWaiting = c.isWaiting ∧
        (c.scanner.isBlocked = false →
          c.workStep.scanner.wavering < c.scanner.wavering) := by
  rcases Scanner.workStep_toil wf grounded busy with easier | tries
  · refine .inl (measure_lt_of_toil (Nat.le_refl _) ?_)
    exact Nat.add_lt_add_right easier _
  · refine .inr ⟨?_, ?_, tries.wavering⟩
    · have easy : c.workStep.toil fs ≤ c.toil fs :=
        Nat.add_le_add_right (Scanner.workStep_toil_le wf grounded) _
      have same : c.workStep.rank = c.rank := by
        have stoppable : c.scanner.workStep.stoppable = c.scanner.stoppable :=
          congrArg Prod.fst c.scanner.workStep_lists
        simp only [rank, workStep, tries.channel, stoppable]
      rcases Nat.lt_or_eq_of_le easy with easier | equal
      · exact le_of_lt (measure_lt_of_toil (Nat.le_refl _) easier)
      · refine le_of_eq ?_
        rw [measure, equal, same]
        rfl
    · simp only [isWaiting, workStep, tries.channel, tries.idle]

/-- What holds of a census at every moment of a run with nobody else around. -/
structure Runs (p : Plan) (s : Settings) (fs : FileSystem) (c : Census) : Prop where
  kept : ∃ seals, c.Kept p (fun _ => 0) seals
  heeded : c.Heeded
  ledger : c.Ledger p s fs

variable {s : Settings}

theorem runs_start (p : Plan) (s : Settings) (fs : FileSystem) {capacity : Option Nat}
    (room : capacity ≠ some 0) (writer : Option Json.ArrayWriter) :
    (start { Scanner.fresh (.fresh capacity (some .fresh)) with settings := s } p.roots
      writer).Runs p s fs where
  kept := ⟨0, (Drain.kept_start p capacity s writer).census⟩
  heeded := (Drain.kept_start p capacity s writer).heeded
  ledger := ledger_start p s fs room _ writer

namespace Runs

theorem grounded (h : c.Runs p s fs) : ∀ (n : Nat) j, c.scanner.jobs[n]? = some j → j.Grounded fs :=
  h.ledger.booked.grounded

theorem orderly (h : c.Runs p s fs) : c.scanner.core.Orderly := by
  obtain ⟨seals, kept⟩ := h.kept
  obtain ⟨got, sound, -⟩ := kept.sound
  exact sound.orderly

theorem step (h : c.Runs p s fs) (wf : fs.WellFormed) (reads : p.surroundings.probe.Reads fs)
    (t : Turn) : (c.step p t).Runs p s fs := by
  obtain ⟨seals, kept⟩ := h.kept
  cases t with
  | main =>
      have turn := c.proceeds p
      exact ⟨⟨_, kept.proceeds turn⟩, h.heeded.proceeds h.orderly turn,
        h.ledger.proceeds wf kept reads turn⟩
  | worker => exact ⟨⟨_, kept.workStep⟩, h.heeded.workStep h.orderly, h.ledger.workStep wf kept⟩

/-- As long as the main thread waits, the worker can go on. -/
theorem busy (h : c.Runs p s fs) (going : c.isEnded = false) (waits : c.isWaiting = true) :
    c.scanner.isIdle = false ∧ c.scanner.isBlocked = false := by
  obtain ⟨seals, kept⟩ := h.kept
  constructor
  · by_contra idle
    have ended := (kept.ended_of_idle (by simpa using idle) (fun _ => rfl) (.inr waits)).1
    rw [going] at ended
    cases ended
  · exact kept.unblocked_of_rests h.heeded (.inr waits) h.ledger.room

end Runs

/-- What is still to be done, and at last how long the worker hesitates. -/
def progress (fs : FileSystem) (c : Census) : (Nat ×ₗ Nat ×ₗ Nat) ×ₗ Nat :=
    toLex (c.measure fs, c.scanner.wavering)

theorem progress_lt_of_measure (less : c'.measure fs < c.measure fs) :
    c'.progress fs < c.progress fs :=
  Prod.Lex.toLex_lt_toLex.mpr (.inl less)

/-- What is enough for a census to come to its end: every turn keeps it, the walks are of this tree,
and the worker can go on as long as the main thread waits. -/
structure Lively (p : Plan) (fs : FileSystem) (P : Census → Prop) : Prop where
  step : ∀ {c}, P c → ∀ t, P (c.step p t)
  grounded : ∀ {c : Census}, P c → ∀ (n : Nat) j, c.scanner.jobs[n]? = some j → j.Grounded fs
  busy : ∀ {c : Census}, P c → c.isEnded = false → c.isWaiting = true →
    c.scanner.isIdle = false ∧ c.scanner.isBlocked = false

variable {P : Census → Prop}

theorem Lively.workStep_progress (l : Lively p fs P) (h : P c) (wf : fs.WellFormed)
    (going : c.isEnded = false) (waits : c.isWaiting = true) :
    c.workStep.progress fs < c.progress fs := by
  obtain ⟨busy, unblocked⟩ := l.busy h going waits
  rcases workStep_measure wf (l.grounded h) busy with less | ⟨le, -, wavers⟩
  · exact progress_lt_of_measure less
  · rcases lt_or_eq_of_le le with less | same
    · exact progress_lt_of_measure less
    · exact Prod.Lex.toLex_lt_toLex.mpr (.inr ⟨same, wavers unblocked⟩)

/-- Nothing comes of a turn of a main thread that has to wait. -/
theorem Proceeds.eq_of_waiting (turn : Proceeds p c c') (waits : c.isWaiting = true) : c' = c := by
  cases turn with
  | rests _ _ => rfl
  | signalled c l n latch pending => simp [isWaiting, go, latch, Latch.blocks, pending] at waits
  | exhausts c exhausted =>
      simp only [isWaiting, go, Option.any_eq_true] at waits
      obtain ⟨l, latch, blocks⟩ := waits
      have sealed := exhausted l latch
      simp only [Latch.blocks, Latch.isExhausted, Bool.and_eq_true, Bool.not_eq_true'] at blocks sealed
      cases sealed.1.symm.trans blocks.2
  | takes c e rest items => simp [isWaiting, go, items] at waits
  | joins c cause idle => simp [isWaiting, go, idle] at waits
  | _ => cases waits

theorem Proceeds.eq_of_ended (turn : Proceeds p c c') (ended : c.isEnded = true) : c' = c := by
  cases turn with
  | rests _ _ => rfl
  | _ => cases ended

theorem step_of_ended (ended : c.isEnded = true) (t : Turn) : (c.step p t).isEnded = true := by
  cases t with
  | worker => exact ended
  | main =>
      rw [Census.step, (c.proceeds p).eq_of_ended ended]
      exact ended

/-- Each thread has a turn again and again. -/
def IsFair (turns : Nat → Turn) : Prop :=
    ∀ t n, ∃ m, n ≤ m ∧ turns m = t

/-- A census after so many turns of an endless sequence. -/
def after (p : Plan) (turns : Nat → Turn) (c : Census) (n : Nat) : Census :=
    c.follow p ((List.range n).map turns)

theorem after_succ (p : Plan) (turns : Nat → Turn) (c : Census) (n : Nat) :
    c.after p turns (n + 1) = (c.after p turns n).step p (turns n) := by
  rw [after, List.range_succ, List.map_append, follow, List.foldl_append]
  rfl

variable {turns : Nat → Turn}

theorem after_of_ended {n m : Nat} (ended : (c.after p turns n).isEnded = true) (le : n ≤ m) :
    (c.after p turns m).isEnded = true := by
  induction le with
  | refl => exact ended
  | step _ ih =>
      rw [after_succ]
      exact step_of_ended ih _

/-- While the main thread waits, its turns pass without effect. -/
theorem after_of_waiting {n d : Nat} (waits : (c.after p turns n).isWaiting = true)
    (idle : ∀ k, n ≤ k → k < n + d → turns k = .main) :
    c.after p turns (n + d) = c.after p turns n := by
  induction d with
  | zero => rfl
  | succ d ih =>
      have same := ih fun k le less => idle k le (Nat.lt_succ_of_lt less)
      rw [← Nat.add_assoc, after_succ, same, idle (n + d) (Nat.le_add_right _ _) (Nat.lt_succ_self _)]
      exact (proceeds p _).eq_of_waiting waits

namespace Lively

theorem follow (l : Lively p fs P) (h : P c) (turns : List Turn) : P (c.follow p turns) := by
  induction turns generalizing c with
  | nil => exact h
  | cons t turns ih => exact ih (l.step h t)

/-- A main thread that does not wait still does not when its next turn comes. -/
theorem measure_lt_of_free (l : Lively p fs P) (h : P c) (wf : fs.WellFormed) {d n : Nat}
    (next : turns (n + d) = .main) (going : (c.after p turns n).isEnded = false)
    (free : (c.after p turns n).isWaiting = false) :
    ∃ m, n ≤ m ∧ (c.after p turns m).measure fs < (c.after p turns n).measure fs := by
  have step := after_succ p turns c n
  have grounded := l.grounded (l.follow h ((List.range n).map turns))
  induction d generalizing n with
  | zero =>
      rw [Nat.add_zero] at next
      refine ⟨n + 1, Nat.le_succ n, ?_⟩
      rw [step, next]
      exact (proceeds p _).measure_lt wf grounded going free
  | succ d ih =>
      have later : turns (n + 1 + d) = .main := by rwa [Nat.add_assoc, Nat.add_comm 1 d]
      cases turn : turns n with
      | main =>
          refine ⟨n + 1, Nat.le_succ n, ?_⟩
          rw [step, turn]
          exact (proceeds p _).measure_lt wf grounded going free
      | worker =>
          rw [turn] at step
          cases idle : (c.after p turns n).scanner.isIdle with
          | true =>
              have same : c.after p turns (n + 1) = c.after p turns n := by
                rw [step, Census.step, workStep, Scanner.workStep_of_idle idle]
              have rest := ih later (by rw [same, going]) (by rw [same, free])
                (after_succ p turns c (n + 1)) (l.grounded (l.follow h _))
              obtain ⟨m, le, less⟩ := rest
              exact ⟨m, Nat.le_of_succ_le le, same ▸ less⟩
          | false =>
              rcases workStep_measure wf grounded idle with less | ⟨le, same, -⟩
              · exact ⟨n + 1, Nat.le_succ n, by rw [step]; exact less⟩
              · have rest := ih later (by rw [step]; exact going) (by rw [step]; exact same.trans free)
                  (after_succ p turns c (n + 1)) (l.grounded (l.follow h _))
                obtain ⟨m, le', less⟩ := rest
                refine ⟨m, Nat.le_of_succ_le le', lt_of_lt_of_le less ?_⟩
                rw [step]
                exact le

theorem progress_lt_of_waiting (l : Lively p fs P) (h : P c) (wf : fs.WellFormed)
    (fair : IsFair turns) {n : Nat} (going : (c.after p turns n).isEnded = false)
    (waits : (c.after p turns n).isWaiting = true) :
    ∃ m, n ≤ m ∧ (c.after p turns m).progress fs < (c.after p turns n).progress fs := by
  -- the first turn of the worker from here on
  have exists_ : ∃ d, turns (n + d) = .worker := by
    obtain ⟨m, le, turn⟩ := fair .worker n
    exact ⟨m - n, by rwa [Nat.add_sub_cancel' le]⟩
  have first := Nat.find_spec exists_
  have idle : ∀ k, n ≤ k → k < n + Nat.find exists_ → turns k = .main := by
    intro k le less
    have early := Nat.find_min exists_ (m := k - n) (by omega)
    rw [Nat.add_sub_cancel' le] at early
    cases turn : turns k with
    | main => rfl
    | worker => exact absurd turn early
  have same := after_of_waiting waits idle
  refine ⟨n + Nat.find exists_ + 1, by omega, ?_⟩
  rw [after_succ, same, first]
  exact l.workStep_progress (l.follow h _) wf going waits

/-- A census ends in every order of turns that is fair. -/
theorem ends_of_fair (l : Lively p fs P) (h : P c) (wf : fs.WellFormed) (fair : IsFair turns) :
    ∃ n, ∀ m, n ≤ m → (c.after p turns m).isEnded = true := by
  suffices fromAny : ∀ n, ∃ m, (c.after p turns m).isEnded = true from
    (fromAny 0).imp fun n ended m le => after_of_ended ended le
  intro n
  -- on what is still to be done
  induction left : (c.after p turns n).progress fs using WellFoundedLT.induction generalizing n with
  | _ k ih =>
      subst left
      cases going : (c.after p turns n).isEnded with
      | true => exact ⟨n, going⟩
      | false =>
          cases waits : (c.after p turns n).isWaiting with
          | true =>
              obtain ⟨m, -, less⟩ := l.progress_lt_of_waiting h wf fair going waits
              exact ih _ less m rfl
          | false =>
              obtain ⟨m, le, turn⟩ := fair .main n
              have next : turns (n + (m - n)) = .main := by rwa [Nat.add_sub_cancel' le]
              obtain ⟨m', -, less⟩ := l.measure_lt_of_free h wf next going waits
              exact ih _ (progress_lt_of_measure less) m' rfl

end Lively

theorem run_eq_follow (p : Plan) (turns : Nat) (c : Census) : ∃ ts, c.run p turns = c.follow p ts := by
  induction turns generalizing c with
  | zero => exact ⟨[], rfl⟩
  | succ turns ih =>
      unfold run
      split
      · exact ⟨[], rfl⟩
      · obtain ⟨ts, same⟩ := ih (c.step p (if c.isWaiting then .worker else .main))
        exact ⟨_ :: ts, same⟩

/-- So does the order in which the worker has its turns only when the main thread waits. -/
theorem Lively.run_ends (l : Lively p fs P) (h : P c) (wf : fs.WellFormed) :
    ∃ n, ∀ m, n ≤ m → (c.run p m).isEnded = true := by
  induction left : c.progress fs using WellFoundedLT.induction generalizing c with
  | _ k ih =>
      subst left
      cases going : c.isEnded with
      | true =>
          refine ⟨0, fun m _ => ?_⟩
          cases m with
          | zero => exact going
          | succ m => rw [run, if_pos going, going]
      | false =>
          have less : (c.step p (if c.isWaiting then .worker else .main)).progress fs <
              c.progress fs := by
            cases waits : c.isWaiting with
            | true => exact l.workStep_progress h wf going waits
            | false =>
                have turn := c.proceeds p
                exact progress_lt_of_measure (turn.measure_lt wf (l.grounded h) going waits)
          obtain ⟨n, ends⟩ := ih _ less (l.step h _) rfl
          refine ⟨n + 1, fun m le => ?_⟩
          obtain ⟨m, rfl⟩ : ∃ m', m = m' + 1 := ⟨m - 1, by omega⟩
          rw [run, going, if_neg Bool.false_ne_true]
          exact ends m (Nat.le_of_succ_le_succ le)

namespace Runs

theorem lively (p : Plan) (s : Settings) (wf : fs.WellFormed)
    (reads : p.surroundings.probe.Reads fs) : Lively p fs (Runs p s fs) where
  step h := h.step wf reads
  grounded h := h.grounded
  busy h := h.busy

theorem ends_of_fair (h : c.Runs p s fs) (wf : fs.WellFormed)
    (reads : p.surroundings.probe.Reads fs) (fair : IsFair turns) :
    ∃ n, ∀ m, n ≤ m → (c.after p turns m).isEnded = true :=
  (lively p s wf reads).ends_of_fair h wf fair

theorem run_ends (h : c.Runs p s fs) (wf : fs.WellFormed)
    (reads : p.surroundings.probe.Reads fs) :
    ∃ n, ∀ m, n ≤ m → (c.run p m).isEnded = true :=
  (lively p s wf reads).run_ends h wf

end Runs

end Census
end FileCensus
