import FileCensus.Proofs.Ownership
import FileCensus.Proofs.Stopping

/-!
No job gets away from its scanner. Every job that is not done is on the lists that a stop and a wait
go through, and a closed scanner is given no more jobs; so a wait that answers yes has seen the end
of all that were there when it began, and a stop that is to take effect at once tells each job to
stop and withdraws those that were never taken up. Whether a job that was told to stop comes to an
end is not decided here.
-/

namespace FileCensus

variable {ε : Type}

/-- These jobs, and the one that is to be cancelled as long as it may still wait. -/
def Cancelling.unmet (n : Nat) (left : List Nat) : Cancelling → List Nat
  | .asking | .flagging | .withdrawing => n :: left
  | .checking | .reporting | .answered _ => left

/-- The jobs that a stop which is to take effect at once has not tried to withdraw yet. -/
def Stopping.unmet (stoppable : List Nat) : Stopping → List Nat
  | .marking => stoppable
  | .looking all _ _ | .confirming _ all _ _ => all
  | .choosing left _ => left
  | .cancelling n request left _ => request.unmet n left
  | .halting _ | .withdrawing _ | .over _ => []

namespace Core

variable {c c' : Core ε} {left : List Nat} {n : Nat}

/-- No job but these waits to be taken up. -/
def Met (c : Core ε) (left : List Nat) : Prop :=
    ∀ n (j : Job ε), c.jobs[n]? = some j → n ∉ left → j.handle.future.stage ≠ .pending

theorem Met.ages (h : c.Met left) (ages : c.Ages c') (length : c'.jobs.length = c.jobs.length) :
    c'.Met left := by
  intro n j' job' other
  have less := (List.getElem?_eq_some_iff.mp job').1
  obtain ⟨j, job, -, onward⟩ := ages.before (length ▸ less) job'
  exact onward.left (h n j job other)

theorem Flagged.ages (h : c.Flagged left) (ages : c.Ages c')
    (length : c'.jobs.length = c.jobs.length) : c'.Flagged left := by
  intro n j' job' other
  have less := (List.getElem?_eq_some_iff.mp job').1
  obtain ⟨j, job, later, -⟩ := ages.before (length ▸ less) job'
  cases h n j job other with
  | inl done => exact Or.inl (later.done done).1
  | inr flagged => exact Or.inr (later.flagged flagged)

theorem Met.drop (h : c.Met (n :: left))
    (this : ∀ j, c.jobs[n]? = some j → j.handle.future.stage ≠ .pending) : c.Met left := by
  intro m j job other
  by_cases same : m = n
  · subst same
    exact this j job
  · exact h m j job (by simp [same, other])

theorem Roll.met (h : c.Roll c.jobs.length left) : c.Met left := by
  intro n j job other pending
  have less := (List.getElem?_eq_some_iff.mp job).1
  apply other
  apply h.whole n j less job
  simp [Handle.isDone, Future.isDone, pending]

theorem Roll.flagged (h : c.Roll c.jobs.length left) : c.Flagged left := by
  intro n j job other
  have less := (List.getElem?_eq_some_iff.mp job).1
  refine Or.inl ?_
  by_contra undone
  exact other (h.whole n j less job (by simpa using undone))

end Core

namespace Scanner

variable {s : Scanner ε} {left : List Nat}

theorem cancelStep_met {n : Nat} {request : Cancelling} (orderly : s.core.Orderly)
    (h : s.core.Met (request.unmet n left)) :
    (s.cancelStep n request).2.1.core.Met ((s.cancelStep n request).1.unmet n left) := by
  have move := s.cancelStep_moves n request
  have kept := h.ages (move.ages orderly) move.length
  cases job : s.jobs[n]? with
  | none =>
      simp only [cancelStep, job] at kept ⊢
      cases request with
      | asking | flagging | withdrawing =>
          refine kept.drop fun j found => ?_
          cases job.symm.trans found
      | checking | reporting | answered _ => exact kept
  | some j =>
      simp only [cancelStep, job] at kept ⊢
      cases request with
      | asking =>
          cases done : j.handle.isDone with
          | false =>
              simp only [Handle.cancelStep, done, Bool.false_eq_true, if_false] at kept ⊢
              exact kept
          | true =>
              simp only [Handle.cancelStep, done, if_true, s.setHandle_self job] at kept ⊢
              refine kept.drop fun j' found pending => ?_
              cases job.symm.trans found
              simp [Handle.isDone, Future.isDone, pending] at done
      | flagging => exact kept
      | withdrawing =>
          -- Granted or not: a job that has been asked to withdraw does not wait any more.
          have dropped : Core.Met
              (s.setHandle n { j.handle with future := j.handle.future.cancel.2.1 }).core left := by
            refine kept.drop fun j' found => ?_
            simp only [Handle.cancelStep, s.setHandle_of_job job] at found
            rcases getElem?_set_cases found with ⟨-, rfl⟩ | ⟨other, -⟩
            · cases stage : j.handle.future.stage <;> simp [Future.cancel, stage]
            · exact absurd rfl other
          simp only [Handle.cancelStep]
          split <;> exact dropped
      | checking =>
          simp only [Handle.cancelStep] at kept ⊢
          split <;> exact kept
      | reporting | answered _ => exact kept

theorem stopStep_met {phase : Stopping} (orderly : s.core.Orderly)
    (h : s.core.Met (phase.unmet s.stoppable)) :
    (s.stopStep .immediate phase).2.1.core.Met
      ((s.stopStep .immediate phase).1.unmet s.stoppable) := by
  have move := s.stopStep_moves .immediate phase
  have kept := h.ages (move.ages orderly) move.length
  cases phase with
  | marking | confirming _ _ _ _ | halting _ => exact kept
  | looking all left idle =>
      cases left with
      | nil => exact kept
      | cons n left =>
          simp only [stopStep]
          split <;> exact kept
  | choosing left idle => cases left <;> exact kept
  | cancelling n request left idle =>
      have met := cancelStep_met orderly h
      simp only [stopStep]
      split
      · next answer => rwa [answer] at met
      · next answer => rwa [answer] at met
  | withdrawing idle =>
      simp only [stopStep] at kept ⊢
      cases empty : s.waiting.isEmpty with
      | true | false =>
          simp only [empty] at kept ⊢
          exact kept
  | _ => exact kept

end Scanner

theorem Stopping.left_of_marked {phase : Stopping} (past : phase ≠ .marking) (l l' : List Nat) :
    phase.left l = phase.left l' := by
  cases phase with
  | marking => exact absurd rfl past
  | _ => rfl

theorem Stopping.unmet_of_marked {phase : Stopping} (past : phase ≠ .marking) (l l' : List Nat) :
    phase.unmet l = phase.unmet l' := by
  cases phase with
  | marking => exact absurd rfl past
  | _ => rfl

/-- What a stop that is to take effect at once has reached. -/
structure Stopping.Reaches (c : Core ε) (stoppable : List Nat) (phase : Stopping) : Prop where
  flagged : c.Flagged (phase.left stoppable)
  met : c.Met (phase.unmet stoppable)

namespace Stopping.Reaches

variable {c c' : Core ε} {stoppable : List Nat} {phase : Stopping}

theorem ages (h : phase.Reaches c stoppable) (ages : c.Ages c')
    (length : c'.jobs.length = c.jobs.length) : phase.Reaches c' stoppable :=
  ⟨h.flagged.ages ages length, h.met.ages ages length⟩

theorem of_marked (h : phase.Reaches c stoppable) (past : phase ≠ .marking) (l : List Nat) :
    phase.Reaches c l := by
  constructor
  · rw [left_of_marked past l stoppable]
    exact h.flagged
  · rw [unmet_of_marked past l stoppable]
    exact h.met

theorem stopStep {s : Scanner ε} (h : phase.Reaches s.core s.stoppable)
    (orderly : s.core.Orderly) :
    (s.stopStep .immediate phase).1.Reaches (s.stopStep .immediate phase).2.1.core s.stoppable :=
  ⟨s.stopStep_flagged orderly h.flagged, Scanner.stopStep_met orderly h.met⟩

end Stopping.Reaches

namespace Reception

variable {w : Surroundings ε} {x y : Reception ε}

/-- Every stop that is to take effect at once has reached all jobs but those that it has still to
come to. -/
def Told (x : Reception ε) : Prop :=
    ∀ q ∈ x.traffic.stops, q.kind = .immediate → q.phase ≠ .marking →
      q.phase.Reaches x.scanner.core []

theorem Told.of_ages (h : x.Told) (ages : x.scanner.core.Ages y.scanner.core)
    (length : y.scanner.jobs.length = x.scanner.jobs.length)
    (stops : y.traffic.stops = x.traffic.stops) : y.Told := by
  intro q listed kind past
  rw [stops] at listed
  exact (h q listed kind past).ages ages length

theorem Told.winds (h : x.Told) (orderly : x.scanner.core.Orderly) (listed : x.Listed) {i : Nat}
    {q : StopRequest} (found : x.traffic.stops[i]? = some q)
    (free : q.phase = .marking → x.inside = none) :
    Told { x with traffic := { x.traffic with
      scanner := (x.scanner.stopStep q.kind q.phase).2.1
      stops := x.traffic.stops.set i ⟨q.kind, (x.scanner.stopStep q.kind q.phase).1, []⟩ } } := by
  have move := x.scanner.stopStep_moves q.kind q.phase
  intro q' hq' kind past
  rcases List.mem_or_eq_of_mem_set hq' with old | rfl
  · exact (h q' old kind past).ages (move.ages orderly) move.length
  · have kind : q.kind = .immediate := kind
    simp only [kind] at past ⊢
    have before : q.phase.Reaches x.scanner.core x.scanner.stoppable := by
      -- Only now does the list of the scanner count; it is whole since nobody holds the lock.
      by_cases marking : q.phase = .marking
      · have stoppable := count_of_free (free marking) ▸ listed.stoppable
        rw [marking]
        exact ⟨stoppable.flagged, stoppable.met⟩
      · exact (h q (List.mem_of_getElem? found) kind marking).of_marked marking _
    exact (before.stopStep orderly).of_marked past []

theorem Told.moves (h : x.Told) (orderly : x.scanner.core.Orderly) (listed : x.Listed)
    (closing : x.Closing) (move : Moves w x y) : y.Told := by
  cases move with
  | rests | scans | admits _ _ _ | awaits _ | looks => exact h
  | works ages length _ _ stops => exact h.of_ages ages length stops
  | answers _ _ _ jobs _ => exact h.of_ages (.of_jobs jobs) (congrArg List.length jobs) rfl
  | winds found free => exact h.winds orderly listed found free
  | enters inside =>
      intro q hq _ past
      rw [goOn_stops] at hq
      have closed := closing.marked q hq past
      rw [closing.opened_of_inside inside] at closed
      cases closed
  | calls =>
      intro q hq kind past
      rcases List.mem_append.mp hq with old | new
      · exact h q old kind past
      · exact absurd (List.mem_singleton.mp new ▸ rfl) past

/-- What every turn keeps. -/
structure Kept (w : Surroundings ε) (x : Reception ε) : Prop where
  regular : x.traffic.Regular
  listed : x.Listed
  closing : x.Closing
  owned : x.Owned w
  told : x.Told

theorem Kept.step (h : x.Kept w) (t : Turn) : (x.step w t).Kept w := by
  have move := step_moves w h.regular t
  have orderly := h.regular.orderly
  exact ⟨step_regular w h.regular t, h.listed.moves h.regular move, h.closing.moves move,
    h.owned.moves h.closing move, h.told.moves orderly h.listed h.closing move⟩

theorem Kept.follow (h : x.Kept w) (turns : List Turn) : (x.follow w turns).Kept w := by
  induction turns generalizing x with
  | nil => exact h
  | cons t turns ih => exact ih (h.step t)

theorem closing_fresh (capacity : Option Nat) (latched : Bool) :
    (fresh capacity latched : Reception ε).Closing := by
  have opened : (fresh capacity latched : Reception ε).scanner.isClosed = false := rfl
  have going : (fresh capacity latched : Reception ε).scanner.isStopped = false := rfl
  constructor
  · intro stopped
    rw [going] at stopped
    cases stopped
  · intro q listed
    cases listed
  · exact fun _ => opened

theorem owned_fresh (w : Surroundings ε) (capacity : Option Nat) (latched : Bool) :
    (fresh capacity latched : Reception ε).Owned w := by
  have free : (fresh capacity latched : Reception ε).inside = none := rfl
  have nobody : ∀ i n, ¬(fresh capacity latched : Reception ε).Owns i n := by
    intro i n owner
    obtain ⟨root, found⟩ := (owns_of_free free).mp owner
    cases found
  constructor
  · intro i e inside
    rw [free] at inside
    cases inside
  · intro n less
    cases less
  · exact fun i n owner => absurd owner (nobody i n)
  · exact fun i _ n owner => absurd owner (nobody i n)
  · intro i root f found
    cases found

theorem kept_fresh (w : Surroundings ε) (capacity : Option Nat) (latched : Bool) :
    (fresh capacity latched : Reception ε).Kept w where
  regular := Traffic.regular_fresh capacity latched
  listed := listed_of_free rfl (Core.roll_nil _) (Core.roll_nil _)
  closing := closing_fresh capacity latched
  owned := owned_fresh w capacity latched
  told _ listed := nomatch listed

theorem Kept.ages (h : x.Kept w) (turns : List Turn) :
    x.scanner.core.Ages (x.follow w turns).scanner.core := by
  induction turns generalizing x with
  | nil => exact .of_jobs rfl
  | cons t turns ih => exact ((step_moves w h.regular t).ages h.regular).trans (ih (h.step t))

/-- A scanner stays closed, and no job comes to it any more. -/
theorem Moves.closed (move : Moves w x y) (closing : x.Closing)
    (closed : x.scanner.isClosed = true) :
    y.scanner.isClosed = true ∧ y.scanner.jobs.length = x.scanner.jobs.length := by
  cases move with
  | rests | scans | admits _ _ _ | calls | awaits _ | looks => exact ⟨closed, rfl⟩
  | works _ length desk _ _ => exact ⟨(congrArg Desk.isClosed desk).trans closed, length⟩
  | answers _ _ _ jobs desk =>
      exact ⟨(congrArg Desk.isClosed desk).trans closed, congrArg List.length jobs⟩
  | enters inside =>
      rw [closing.opened_of_inside inside] at closed
      cases closed
  | @winds i q found free =>
      have desk := congrArg Desk.isClosed (x.scanner.stopStep_desk q.kind q.phase)
      refine ⟨desk.trans ?_, (x.scanner.stopStep_moves q.kind q.phase).length⟩
      simp only [closed, Bool.true_or]

theorem Kept.closed_follow (h : x.Kept w) (closed : x.scanner.isClosed = true)
    (turns : List Turn) :
    (x.follow w turns).scanner.jobs.length = x.scanner.jobs.length := by
  induction turns generalizing x with
  | nil => rfl
  | cons t turns ih =>
      obtain ⟨still, length⟩ := (step_moves w h.regular t).closed h.closing closed
      exact (ih (h.step t) still).trans length

end Reception

/-- A wait has its eye on all of the first so many jobs that are not done. -/
def Waiting.Covers (c : Core ε) (count : Nat) : Waiting → Prop
  | .waiting jobs => ∀ n (j : Job ε), n < count → c.jobs[n]? = some j →
      j.handle.isDone = false → n ∈ jobs
  | .answered all => all = true → ∀ n (j : Job ε), n < count → c.jobs[n]? = some j →
      j.handle.isDone = true

theorem Job.isDone_of_isOver {j : Job ε} (met : j.isOver = true) : j.handle.isDone = true := by
  cases stage : j.handle.future.stage with
  | pending | running | cancelled => simp [isOver, stage] at met
  | cancelledNoted | finished _ => simp [Handle.isDone, Future.isDone, stage]

namespace Waiting.Covers

variable {c c' : Core ε} {s : Scanner ε} {count : Nat} {a : Waiting}

theorem ages (h : a.Covers c count) (ages : c.Ages c') (old : count ≤ c.jobs.length) :
    a.Covers c' count := by
  cases a with
  | waiting jobs =>
      intro n j' less job' undone
      obtain ⟨j, job, later, -⟩ := ages.before (Nat.lt_of_lt_of_le less old) job'
      exact h n j less job (later.undone undone)
  | answered all =>
      intro yes n j' less job'
      obtain ⟨j, job, later, -⟩ := ages.before (Nat.lt_of_lt_of_le less old) job'
      exact (later.done (h yes n j less job)).1

theorem look (h : a.Covers s.core count) (late : Bool) : (a.look s late).Covers s.core count := by
  cases a with
  | answered all => exact h
  | waiting jobs =>
      simp only [Waiting.look]
      split
      · next ended =>
        intro _ n j less job
        by_contra undone
        have listed := h n j less job (by simpa using undone)
        have met := List.all_eq_true.mp ended n listed
        have job : s.jobs[n]? = some j := job
        simp only [Scanner.isOver, job, Option.any_some] at met
        exact undone (Job.isDone_of_isOver met)
      · split
        · exact nofun
        · exact h

end Waiting.Covers

namespace Reception

variable {w : Surroundings ε} {x y : Reception ε}

theorem goOn_waits (i : Nat) (e : Admission ε) : (x.goOn i e).waits = x.waits := by
  simp only [goOn]
  split <;> rfl

theorem Moves.covers (move : Moves w x y) (regular : x.traffic.Regular) {i count : Nat}
    {a : Waiting} (found : x.waits[i]? = some a) (covers : a.Covers x.scanner.core count)
    (old : count ≤ x.scanner.jobs.length) :
    ∃ b, y.waits[i]? = some b ∧ b.Covers y.scanner.core count := by
  have later := covers.ages (move.ages regular) old
  cases move with
  | rests | works _ _ _ _ _ | scans | answers _ _ _ _ _ | admits _ _ _ | calls | winds _ _ =>
      exact ⟨a, found, later⟩
  | enters _ => exact ⟨a, (goOn_waits _ _).symm ▸ found, later⟩
  | awaits _ =>
      have less := (List.getElem?_eq_some_iff.mp found).1
      exact ⟨a, (List.getElem?_append_left less).trans found, later⟩
  | @looks k late =>
      by_cases same : k = i
      · subst same
        exact ⟨a.look x.scanner late, by simp [found], covers.look late⟩
      · exact ⟨a, by simp [same, found], later⟩

theorem Kept.covers (h : x.Kept w) {i count : Nat} {a : Waiting} (found : x.waits[i]? = some a)
    (covers : a.Covers x.scanner.core count) (old : count ≤ x.scanner.jobs.length)
    (turns : List Turn) :
    ∃ b, (x.follow w turns).waits[i]? = some b ∧
      b.Covers (x.follow w turns).scanner.core count := by
  induction turns generalizing x a with
  | nil => exact ⟨a, found, covers⟩
  | cons t turns ih =>
      have move := step_moves w h.regular t
      obtain ⟨b, found', covers'⟩ := move.covers h.regular found covers old
      have more := (move.ages h.regular).length
      exact ih (h.step t) found' covers' (Nat.le_trans old more)

/-- A wait that answers yes has seen the end of all jobs that were there when it began. -/
theorem Kept.awaited (h : x.Kept w) (free : x.inside = none) (turns : List Turn)
    (yes : ((x.step w .await).follow w turns).waits[x.waits.length]? = some (.answered true))
    {n : Nat} (old : n < x.scanner.jobs.length) :
    ((x.step w .await).follow w turns).scanner.isDone n = true := by
  have step : x.step w .await = { x with waits := x.waits ++ [.waiting x.scanner.snapshot] } := by
    simp [Reception.step, free]
  have found : (x.step w .await).waits[x.waits.length]? = some (.waiting x.scanner.snapshot) := by
    rw [step]
    exact List.getElem?_concat_length
  have covers : (Waiting.waiting x.scanner.snapshot).Covers (x.step w .await).scanner.core
      x.scanner.jobs.length := by
    have listed := h.listed.awaited.whole
    rw [count_of_free free] at listed
    rw [step]
    exact listed
  have kept := h.step (w := w) .await
  have length : x.scanner.jobs.length ≤ (x.step w .await).scanner.jobs.length := by rw [step]; rfl
  obtain ⟨b, found', covers'⟩ := kept.covers found covers length turns
  cases yes.symm.trans found'
  have less : n < (x.step w .await).scanner.core.jobs.length := Nat.lt_of_lt_of_le old length
  obtain ⟨j', job', -⟩ := kept.ages turns n _ (List.getElem?_eq_getElem less)
  have done := covers' rfl n j' old job'
  exact (Scanner.isDone_of_job _ job').trans done

/-- What a scanner has in its hands at every moment, whoever submits, cancels, waits and stops. A
submission has several steps, and while it holds the lock its job may not be on the lists yet. -/
structure Custody (w : Surroundings ε) (x : Reception ε) : Prop where
  listed : ∀ n (j : Job ε), x.scanner.jobs[n]? = some j → j.handle.isDone = false →
    x.entering? ≠ some n → n ∈ x.scanner.stoppable ∧ n ∈ x.scanner.awaited
  ordered : x.scanner.stoppable.Pairwise (· < ·) ∧ x.scanner.awaited.Pairwise (· < ·)
  entering : ∀ n, x.entering? = some n → x.scanner.jobs.length = n + 1
  owned : ∀ n, n < x.scanner.jobs.length → ∃! i, x.Owns i n
  running : ∀ i p, x.inside = some (i, .scheduling p) → x.scanner.isStopped = false
  refused : ∀ (i : Nat) root f, x.traffic.submissions[i]? = some (root, .refused f) →
    (f = .closed ∨ w.supportsMarks root = .error f) ∧ ∀ n, ¬x.Owns i n
  closed : x.scanner.isClosed = true → ∀ turns : List Turn,
    (x.follow w turns).scanner.jobs.length = x.scanner.jobs.length
  awaited : x.inside = none → ∀ turns : List Turn,
    ((x.step w .await).follow w turns).waits[x.waits.length]? = some (.answered true) →
    ∀ n, n < x.scanner.jobs.length → ((x.step w .await).follow w turns).scanner.isDone n = true
  stopped : ∀ q ∈ x.traffic.stops, ∀ idle, q.kind = .immediate → q.phase = .over idle →
    ∀ (turns : List Turn) (n : Nat) (j' : Job ε), (x.follow w turns).scanner.jobs[n]? = some j' →
      (j'.handle.isDone = true ∨ j'.handle.token.isCancelled = true) ∧
      ∃ j, x.scanner.jobs[n]? = some j ∧
        (j'.handle.future.stage.isStarted = true → j.handle.future.stage.isStarted = true)

theorem Kept.stopped (h : x.Kept w) {q : StopRequest} {idle : List Nat}
    (listed : q ∈ x.traffic.stops) (kind : q.kind = .immediate) (phase : q.phase = .over idle)
    (turns : List Turn) {n : Nat} {j' : Job ε}
    (job' : (x.follow w turns).scanner.jobs[n]? = some j') :
    (j'.handle.isDone = true ∨ j'.handle.token.isCancelled = true) ∧
    ∃ j, x.scanner.jobs[n]? = some j ∧
      (j'.handle.future.stage.isStarted = true → j.handle.future.stage.isStarted = true) := by
  have past : q.phase ≠ .marking := by simp [phase]
  have reaches := h.told q listed kind past
  rw [phase] at reaches
  have length := h.closed_follow (h.closing.marked q listed past) turns
  have less := (List.getElem?_eq_some_iff.mp job').1
  obtain ⟨j, job, later, onward⟩ := (h.ages turns).before (length ▸ less) job'
  refine ⟨?_, j, job, ?_⟩
  · cases reaches.flagged n j job List.not_mem_nil with
    | inl done => exact Or.inl (later.done done).1
    | inr flagged => exact Or.inr (later.flagged flagged)
  · intro started
    rw [← onward.isStarted_eq (reaches.met n j job List.not_mem_nil)]
    exact started

theorem Kept.custody (h : x.Kept w) : x.Custody w := by
  constructor
  · intro n j job undone other
    have less := (List.getElem?_eq_some_iff.mp job).1
    have entered : n < x.count := by
      cases entering : x.entering? with
      | none => simpa [count, entering] using less
      | some m =>
          have last := h.listed.last m entering
          have different : n ≠ m := by
            rintro rfl
            exact other entering
          simp only [count, entering, Option.getD_some]
          omega
    exact ⟨h.listed.stoppable.whole n j entered job undone,
      h.listed.awaited.whole n j entered job undone⟩
  · exact ⟨h.listed.stoppable.sorted, h.listed.awaited.sorted⟩
  · exact h.listed.last
  · intro n less
    obtain ⟨i, owner⟩ := h.owned.owner n less
    exact ⟨i, owner, fun k owner' => h.owned.unique k i n owner' owner⟩
  · exact fun i p inside => h.closing.going inside
  · exact fun i root f refused =>
      ⟨h.owned.refused i root f refused, h.owned.not_owns_of_refused refused⟩
  · exact fun closed turns => h.closed_follow closed turns
  · exact fun free turns yes n old => h.awaited free turns yes old
  · exact fun q listed idle kind phase turns n j' job' => h.stopped listed kind phase turns job'

/-- No job gets away from a scanner. -/
theorem follow_custody (w : Surroundings ε) (capacity : Option Nat) (latched : Bool)
    (turns : List Turn) : ((fresh capacity latched).follow w turns).Custody w :=
  ((kept_fresh w capacity latched).follow turns).custody

end Reception
end FileCensus
