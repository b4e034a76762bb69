import FileCensus.Proofs.Stages
import FileCensus.Proofs.Traffic

/-!
A scanner with its lock. A submission that has found the scanner open a second time keeps the lock
while it has the worker given its job, goes through both lists one job at a time and enters the job
on them. The worker, requests to cancel and most steps of a stop do not ask for the lock, so jobs
may start and be done in between. Whoever changes settings, makes filters, closes the scanner or
begins to wait does ask, and while the lock is held nothing comes of it. Who gets the lock next is
left open.
-/

namespace FileCensus

variable {ε : Type}

/-- How far a submission that holds the lock has come. -/
inductive Admission (ε : Type) where
  | scheduling (plan : Plan ε)
  /-- Drops from the list of a stop the jobs that are done, with those that are still to be looked
  at and those that stay. -/
  | sifting (job : Nat) (left kept : List Nat)
  /-- Does the same for the list of a wait. -/
  | resifting (job : Nat) (left kept : List Nat)

/-- The job that the worker has been given, and that may not be on the lists. -/
def Admission.job? : Admission ε → Option Nat
  | .scheduling _ => none
  | .sifting n _ _ | .resifting n _ _ => some n

namespace Scanner

def schedule (s : Scanner ε) (p : Plan ε) : Scanner ε :=
    { s with jobs := s.jobs ++ [.fresh p], waiting := s.waiting ++ [s.jobs.length] }

/-- Keeps a job unless it is done. -/
def sift (s : Scanner ε) (n : Nat) (kept : List Nat) : List Nat :=
    if s.isDone n then kept else kept ++ [n]

/-- One step of a submission that holds the lock; the last one gives what has become of it. -/
def enterStep (s : Scanner ε) : Admission ε → (Admission ε ⊕ Submission ε) × Scanner ε
  | .scheduling p =>
      if s.isStopped then (.inr (.refused stopped), s)
      else (.inl (.sifting s.jobs.length s.stoppable []), s.schedule p)
  | .sifting n (m :: left) kept => (.inl (.sifting n left (s.sift m kept)), s)
  | .sifting n [] kept => (.inl (.resifting n s.awaited []), { s with stoppable := kept })
  | .resifting n (m :: left) kept => (.inl (.resifting n left (s.sift m kept)), s)
  | .resifting n [] kept =>
      (.inr (.accepted n), { s with stoppable := s.stoppable ++ [n], awaited := kept ++ [n] })

/-- Goes on with a submission that holds the lock, while nobody else does anything. -/
def enterWithin (s : Scanner ε) : (steps : Nat) → Admission ε → Submission ε × Scanner ε
  | 0, _ => (.preparing, s)
  | steps + 1, e =>
      match s.enterStep e with
      | (.inl e, s) => s.enterWithin steps e
      | (.inr phase, s) => (phase, s)

variable (s : Scanner ε)

theorem sift_append (n : Nat) (kept left : List Nat) :
    s.sift n kept ++ left.filter (!s.isDone ·) = kept ++ (n :: left).filter (!s.isDone ·) := by
  cases done : s.isDone n <;> simp [sift, done]

theorem enterWithin_resifting (n : Nat) (left kept : List Nat) :
    s.enterWithin (left.length + 1) (.resifting n left kept) = (.accepted n, { s with
      stoppable := s.stoppable ++ [n]
      awaited := kept ++ left.filter (!s.isDone ·) ++ [n] }) := by
  induction left generalizing kept with
  | nil => simp [enterWithin, enterStep]
  | cons m left ih =>
      rw [← s.sift_append]
      exact ih (s.sift m kept)

theorem enterWithin_sifting (n : Nat) (left kept : List Nat) :
    s.enterWithin (left.length + (s.awaited.length + 2)) (.sifting n left kept) =
      (.accepted n, { s with
        stoppable := kept ++ left.filter (!s.isDone ·) ++ [n]
        awaited := s.awaited.filter (!s.isDone ·) ++ [n] }) := by
  induction left generalizing kept with
  | nil =>
      have rest := enterWithin_resifting { s with stoppable := kept } n s.awaited []
      simp only [List.nil_append] at rest
      simp only [List.filter_nil, List.append_nil, List.length_nil, Nat.zero_add]
      exact rest
  | cons m left ih =>
      rw [← s.sift_append, List.length_cons, Nat.add_right_comm]
      exact ih (s.sift m kept)

theorem isDone_of_job {n : Nat} {j : Job ε} (job : s.jobs[n]? = some j) :
    s.isDone n = j.handle.isDone := by
  simp only [isDone, job, Option.any_some]

theorem isDone_schedule {n : Nat} (old : n < s.jobs.length) (p : Plan ε) :
    (s.schedule p).isDone n = s.isDone n := by
  simp only [isDone, schedule, List.getElem?_append_left old]

theorem filter_schedule {l : List Nat} (old : ∀ n ∈ l, n < s.jobs.length) (p : Plan ε) :
    l.filter (!(s.schedule p).isDone ·) = l.filter (!s.isDone ·) := by
  apply List.filter_congr
  intro n listed
  rw [s.isDone_schedule (old n listed)]

/-- A submission that is left alone with the lock comes to what its last step does at once. -/
theorem enterWithin_scheduling (w : Surroundings ε) (root : Path) (p : Plan ε)
    (opened : s.isClosed = false) (stoppable : ∀ n ∈ s.stoppable, n < s.jobs.length)
    (awaited : ∀ n ∈ s.awaited, n < s.jobs.length) :
    s.enterWithin (s.stoppable.length + (s.awaited.length + 2) + 1) (.scheduling p) =
      s.submitStep w root (.entering p) := by
  cases stopped : s.isStopped with
  | true => simp [enterWithin, enterStep, submitStep, opened, stopped]
  | false =>
      have rest := (s.schedule p).enterWithin_sifting s.jobs.length s.stoppable []
      have lists := s.filter_schedule awaited p
      rw [s.filter_schedule stoppable, List.nil_append] at rest
      simp only [enterWithin, enterStep, submitStep, opened, stopped, Bool.false_eq_true, if_false]
      refine rest.trans ?_
      simp only [schedule] at lists ⊢
      rw [lists]
      rfl

end Scanner

/-- A wait for jobs, or what it has come to. -/
inductive Waiting where
  | waiting (jobs : List Nat)
  | answered (all : Bool)

/-- A wait looks whether its jobs are over; when its time is over it gives up. -/
def Waiting.look (s : Scanner ε) (late : Bool) : Waiting → Waiting
  | .waiting jobs =>
      if s.areOver jobs then .answered true
      else if late then .answered false
      else .waiting jobs
  | .answered all => .answered all

/-- A scanner with all that goes on around it, the submission that holds its lock, and waits. -/
structure Reception (ε : Type) where
  traffic : Traffic ε
  inside : Option (Nat × Admission ε)
  waits : List Waiting

inductive Reception.Turn where
  /-- A turn that need not know of the lock. -/
  | outside (t : Traffic.Turn)
  /-- The submission that holds the lock goes on. -/
  | enter
  | await
  | look (i : Nat) (late : Bool)

namespace Traffic

/-- Whether a turn asks for the lock. -/
def asksLock (x : Traffic ε) : Turn → Bool
  | .submit i =>
      match x.submissions[i]? with
      | some (_, .preparing) | some (_, .entering _) => true
      | _ => false
  | .wind i =>
      match x.stops[i]? with
      | some ⟨_, .marking, []⟩ => true
      | _ => false
  | .set _ => true
  | _ => false

/-- The submission that a turn lets in. -/
def admits? (x : Traffic ε) : Turn → Option (Nat × Admission ε)
  | .submit i =>
      match x.submissions[i]? with
      | some (_, .entering p) => if x.scanner.isClosed then none else some (i, .scheduling p)
      | _ => none
  | _ => none

end Traffic

namespace Reception

def fresh (capacity : Option Nat) (latched : Bool) : Reception ε :=
    ⟨.fresh capacity latched, none, []⟩

def scanner (x : Reception ε) : Scanner ε :=
    x.traffic.scanner

def withScanner (x : Reception ε) (s : Scanner ε) : Reception ε :=
    { x with traffic := { x.traffic with scanner := s } }

/-- The submission that holds the lock takes one step. -/
def goOn (x : Reception ε) (i : Nat) (e : Admission ε) : Reception ε :=
    match x.scanner.enterStep e with
    | (.inl e, s) => { x.withScanner s with inside := some (i, e) }
    | (.inr phase, s) =>
        let submissions := x.traffic.submissions.modify i fun q => (q.1, phase)
        { x with
          traffic := { x.traffic with scanner := s, submissions := submissions }
          inside := none }

def step (w : Surroundings ε) (x : Reception ε) : Turn → Reception ε
  | .outside t =>
      if x.inside.isSome && x.traffic.asksLock t then x
      else match x.traffic.admits? t with
        | some entry => { x with inside := some entry }
        | none => { x with traffic := x.traffic.step w t }
  | .enter =>
      match x.inside with
      | none => x
      | some (i, e) => x.goOn i e
  | .await =>
      if x.inside.isSome then x
      else { x with waits := x.waits ++ [.waiting x.scanner.snapshot] }
  | .look i late => { x with waits := x.waits.modify i (Waiting.look x.scanner late) }

def follow (w : Surroundings ε) (turns : List Turn) (x : Reception ε) : Reception ε :=
    turns.foldl (fun x t => x.step w t) x

theorem follow_append (w : Surroundings ε) (before after : List Turn) (x : Reception ε) :
    x.follow w (before ++ after) = (x.follow w before).follow w after :=
  List.foldl_append

end Reception

/-- A job that is not done was not done before. -/
theorem Job.Later.undone {j j' : Job ε} (later : j.Later j') (undone : j'.handle.isDone = false) :
    j.handle.isDone = false := by
  cases done : j.handle.isDone with
  | false => rfl
  | true =>
      rw [(later.done done).1] at undone
      cases undone

namespace Core

variable {c c' c'' : Core ε} {calls : List Call}

/-- No job is lost, and each has only gone on. -/
def Ages (c c' : Core ε) : Prop :=
    ∀ (n : Nat) (j : Job ε), c.jobs[n]? = some j → ∃ j', c'.jobs[n]? = some j' ∧
      j.Later j' ∧ j.handle.future.stage.Onward j'.handle.future.stage

theorem Ages.of_jobs (same : c'.jobs = c.jobs) : c.Ages c' :=
  fun _ j job => ⟨j, by rw [same, job], .refl j, .stays⟩

theorem Ages.trans (h : c.Ages c') (g : c'.Ages c'') : c.Ages c'' := by
  intro n j job
  obtain ⟨j', job', later, onward⟩ := h n j job
  obtain ⟨j'', job'', later', onward'⟩ := g n j' job'
  exact ⟨j'', job'', later.trans later', onward.trans onward'⟩

theorem Ages.length (h : c.Ages c') : c.jobs.length ≤ c'.jobs.length := by
  by_contra more
  have less : c'.jobs.length < c.jobs.length := by omega
  obtain ⟨j', job', -⟩ := h _ _ (List.getElem?_eq_getElem less)
  exact absurd (List.getElem?_eq_some_iff.mp job').1 (Nat.lt_irrefl _)

theorem Moves.ages (move : c.Moves c' calls) (orderly : c.Orderly) : c.Ages c' := by
  intro n j job
  obtain ⟨j', job', later⟩ := move.later orderly job
  obtain ⟨j'', job'', onward⟩ := move.onward job
  cases job'.symm.trans job''
  exact ⟨j', job', later, onward⟩

theorem ages_entered (c : Core ε) (p : Plan ε) : c.Ages (c.entered p) := by
  intro n j job
  have old := (List.getElem?_eq_some_iff.mp job).1
  exact ⟨j, by rw [entered_jobs, List.getElem?_append_left old, job], .refl j, .stays⟩

/-- A job that was already there has come to what it is. -/
theorem Ages.before (h : c.Ages c') {n : Nat} {j' : Job ε} (old : n < c.jobs.length)
    (job' : c'.jobs[n]? = some j') : ∃ j, c.jobs[n]? = some j ∧
      j.Later j' ∧ j.handle.future.stage.Onward j'.handle.future.stage := by
  obtain ⟨a, found, later⟩ := h n _ (List.getElem?_eq_getElem old)
  cases found.symm.trans job'
  exact ⟨_, List.getElem?_eq_getElem old, later⟩

end Core

/-- What a submission may have come to, without the lock. -/
structure Submission.Next (w : Surroundings ε) (root : Path) (a b : Submission ε) : Prop where
  accepted : ∀ n, b = .accepted n ↔ a = .accepted n
  refused : ∀ f, b = .refused f → a = .refused f ∨ f = .closed ∨ w.supportsMarks root = .error f

theorem Submission.Next.refl (w : Surroundings ε) (root : Path) (a : Submission ε) :
    Next w root a a :=
  ⟨fun _ => Iff.rfl, fun _ => Or.inl⟩

theorem Scanner.plan_error {w : Surroundings ε} {s : Scanner ε} {root : Path} {f : Failure}
    (failed : s.plan w root = .error f) : w.supportsMarks root = .error f := by
  cases hidden : s.settings.ignoreHidden with
  | false => simp [Scanner.plan, Settings.filterSet, hidden, bind, Except.bind] at failed
  | true =>
      cases marks : w.supportsMarks root with
      | ok _ => simp [Scanner.plan, Settings.filterSet, hidden, marks, bind, Except.bind] at failed
      | error g =>
          simp only [Scanner.plan, Settings.filterSet, hidden, marks, bind, Except.bind,
            if_true, Except.error.injEq] at failed
          rw [failed]

namespace Reception

variable {w : Surroundings ε} {x : Reception ε}

/-- The outcomes of a turn. -/
inductive Moves (w : Surroundings ε) (x : Reception ε) : Reception ε → Prop where
  | rests : Moves w x x
  /-- Somebody moves who does not come to the desk. -/
  | works {y : Traffic ε} (ages : x.scanner.core.Ages y.scanner.core)
      (length : y.scanner.jobs.length = x.scanner.jobs.length)
      (desk : y.scanner.desk = x.scanner.desk) (submissions : y.submissions = x.traffic.submissions)
      (stops : y.stops = x.traffic.stops) : Moves w x { x with traffic := y }
  | scans {root} : Moves w x { x with traffic := { x.traffic with
      submissions := x.traffic.submissions ++ [(root, .asking)] } }
  | answers {i root a b} {s : Scanner ε} (found : x.traffic.submissions[i]? = some (root, a))
      (free : ∀ p, a = .entering p → x.inside = none) (next : Submission.Next w root a b)
      (jobs : s.jobs = x.scanner.jobs) (desk : s.desk = x.scanner.desk) :
      Moves w x { x with traffic := { x.traffic with
        scanner := s
        submissions := x.traffic.submissions.set i (root, b) } }
  | admits {i root p} (free : x.inside = none) (opened : x.scanner.isClosed = false)
      (found : x.traffic.submissions[i]? = some (root, .entering p)) :
      Moves w x { x with inside := some (i, .scheduling p) }
  | enters {i e} (inside : x.inside = some (i, e)) : Moves w x (x.goOn i e)
  | calls {kind} : Moves w x { x with traffic := { x.traffic with
      stops := x.traffic.stops ++ [⟨kind, .marking, []⟩] } }
  | winds {i q} (found : x.traffic.stops[i]? = some q)
      (free : q.phase = .marking → x.inside = none) :
      Moves w x { x with traffic := { x.traffic with
        scanner := (x.scanner.stopStep q.kind q.phase).2.1
        stops := x.traffic.stops.set i ⟨q.kind, (x.scanner.stopStep q.kind q.phase).1, []⟩ } }
  | awaits (free : x.inside = none) :
      Moves w x { x with waits := x.waits ++ [.waiting x.scanner.snapshot] }
  | looks {i late} : Moves w x { x with waits := x.waits.modify i (Waiting.look x.scanner late) }

theorem submit_moves {i : Nat} (free : x.inside = none ∨ x.traffic.asksLock (.submit i) = false) :
    Moves w x (match x.traffic.admits? (.submit i) with
      | some entry => { x with inside := some entry }
      | none => { x with traffic := x.traffic.step w (.submit i) }) := by
  cases found : x.traffic.submissions[i]? with
  | none =>
      simp only [Traffic.admits?, Traffic.step, found]
      exact .rests
  | some q =>
      obtain ⟨root, phase⟩ := q
      simp only [Traffic.asksLock, found] at free
      simp only [Traffic.admits?, Traffic.step, found]
      cases phase with
      | asking =>
          refine .answers found (by simp) ⟨fun n => ?_, fun f refused => ?_⟩ rfl rfl
          · simp only [Scanner.submitStep]
            split <;> simp
          · simp only [Scanner.submitStep] at refused
            split at refused <;> cases refused
            exact Or.inr (Or.inl rfl)
      | preparing =>
          cases plan : x.scanner.plan w root with
          | error f =>
              have failed := Scanner.plan_error plan
              simp only [scanner] at plan
              simp only [Scanner.submitStep, Scanner.prepare, plan, bind, Except.bind]
              refine .answers found (by simp) ⟨by simp, fun g refused => ?_⟩ rfl rfl
              cases refused
              exact Or.inr (Or.inr failed)
          | ok p =>
              simp only [scanner] at plan
              simp only [Scanner.submitStep, Scanner.prepare, plan, bind, Except.bind]
              exact .answers found (by simp) ⟨by simp, by simp⟩ rfl rfl
      | entering p =>
          have free : x.inside = none := by simpa using free
          cases closed : x.traffic.scanner.isClosed with
          | false =>
              simp only [Bool.false_eq_true, if_false]
              exact .admits free closed found
          | true =>
              simp only [if_true, Scanner.submitStep, closed]
              refine .answers found (fun _ _ => free) ⟨by simp, fun f refused => ?_⟩ rfl rfl
              cases refused
              exact Or.inr (Or.inl rfl)
      | accepted _ | refused _ => exact .answers found (by simp) (.refl w root _) rfl rfl

theorem wind_moves (h : x.traffic.Regular) {i : Nat}
    (free : x.inside = none ∨ x.traffic.asksLock (.wind i) = false) :
    Moves w x { x with traffic := x.traffic.step w (.wind i) } := by
  cases found : x.traffic.stops[i]? with
  | none =>
      simp only [Traffic.step, found]
      exact .rests
  | some q =>
      obtain ⟨kind, phase, calls⟩ := q
      have none : calls = [] := h.stops _ (List.mem_of_getElem? found)
      subst none
      have quiet := (h.moves (x.traffic.scanner.stopStep_moves kind phase)).1
      simp only [Traffic.step, found, StopRequest.step, quiet]
      refine .winds found fun marking => ?_
      simp only at marking
      subst marking
      simpa [Traffic.asksLock, found] using free

theorem step_moves (w : Surroundings ε) (h : x.traffic.Regular) (t : Turn) :
    Moves w x (x.step w t) := by
  cases t with
  | enter =>
      simp only [step]
      split
      · exact .rests
      · next inside => exact .enters inside
  | await =>
      simp only [step]
      split
      · exact .rests
      · next free => exact .awaits (by simpa using free)
  | look i late => exact .looks
  | outside t =>
      simp only [step]
      split
      · exact .rests
      · next free =>
        have free : x.inside = none ∨ x.traffic.asksLock t = false := by
          cases inside : x.inside with
          | none => exact Or.inl rfl
          | some _ => simpa [inside] using free
        cases t with
        | submit i => exact submit_moves free
        | wind i => exact wind_moves h free
        | scan root => exact .scans
        | stop kind => exact .calls
        | cancel job => exact .works (.of_jobs rfl) rfl rfl rfl rfl
        | set settings => exact .works (.of_jobs rfl) rfl rfl rfl rfl
        | work =>
            have desk := x.traffic.scanner.workStep_desk
            rcases x.traffic.scanner.workStep_cases with ⟨-, move⟩ | tell
            · exact .works (move.ages h.orderly) move.length desk rfl rfl
            · exact (h.quiet.not_tells tell).elim
        | goOn i =>
            simp only [Traffic.admits?, Traffic.step]
            split
            · exact .rests
            · next q found =>
              have none := h.cancels q (List.mem_of_getElem? found)
              have move := x.traffic.scanner.cancelStep_moves q.job q.phase
              have desk := x.traffic.scanner.cancelStep_desk q.job q.phase
              simp only [CancelRequest.step, none]
              exact .works (move.ages h.orderly) move.length desk rfl rfl
        | wait =>
            simp only [Traffic.admits?, Traffic.step]
            split
            · exact .rests
            · exact .works (.of_jobs rfl) rfl rfl rfl rfl
        | get =>
            simp only [Traffic.admits?, Traffic.step]
            split
            · exact .rests
            · exact .works (.of_jobs rfl) rfl rfl rfl rfl

theorem enterStep_core (s : Scanner ε) (e : Admission ε) :
    (s.enterStep e).2.core = s.core ∨ ∃ p, (s.enterStep e).2.core = s.core.entered p := by
  cases e with
  | scheduling p =>
      simp only [Scanner.enterStep]
      split
      · exact Or.inl rfl
      · exact Or.inr ⟨p, rfl⟩
  | sifting n left kept | resifting n left kept => cases left <;> exact Or.inl rfl

theorem goOn_scanner (i : Nat) (e : Admission ε) :
    (x.goOn i e).scanner = (x.scanner.enterStep e).2 := by
  simp only [goOn]
  split
  · next step => rw [step]; rfl
  · next step => rw [step]; rfl

theorem goOn_stops (i : Nat) (e : Admission ε) : (x.goOn i e).traffic.stops = x.traffic.stops := by
  simp only [goOn]
  split <;> rfl

theorem goOn_regular (h : x.traffic.Regular) (i : Nat) (e : Admission ε) :
    (x.goOn i e).traffic.Regular := by
  have goes : Traffic.Goes x.traffic { x.traffic with scanner := (x.scanner.enterStep e).2 } := by
    rcases enterStep_core x.scanner e with same | ⟨p, entered⟩
    · exact h.same same
    · exact h.enters entered
  simp only [goOn]
  split
  · next step =>
    rw [step] at goes
    exact goes.regular
  · next step =>
    rw [step] at goes
    exact (goes.withSubmissions _).regular

theorem step_regular (w : Surroundings ε) (h : x.traffic.Regular) (t : Turn) :
    (x.step w t).traffic.Regular := by
  cases t with
  | outside t =>
      simp only [step]
      split
      · exact h
      · split
        · exact h
        · exact (h.step w t).regular
  | enter =>
      simp only [step]
      split
      · exact h
      · exact goOn_regular h _ _
  | await =>
      simp only [step]
      split <;> exact h
  | look i late => exact h

theorem Moves.ages {y : Reception ε} (move : Moves w x y) (regular : x.traffic.Regular) :
    x.scanner.core.Ages y.scanner.core := by
  cases move with
  | rests | scans | admits _ _ _ | calls | awaits _ | looks => exact .of_jobs rfl
  | works ages _ _ _ _ => exact ages
  | answers _ _ _ jobs _ => exact .of_jobs jobs
  | @enters i e inside =>
      rw [goOn_scanner]
      rcases enterStep_core x.scanner e with same | ⟨p, entered⟩
      · exact .of_jobs (congrArg Core.jobs same)
      · rw [entered]
        exact x.scanner.core.ages_entered p
  | @winds i q _ _ => exact (x.scanner.stopStep_moves q.kind q.phase).ages regular.orderly

end Reception
end FileCensus
