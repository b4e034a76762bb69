import FileCensus.Proofs.ArrayWriting
import FileCensus.Proofs.Fairness

/-!
A census in which nothing goes wrong but walks: every root is taken on, no write is refused, and so
no job is cancelled. Its scanner stops gently, and by then every job has come to its own end. What
has been written is on the array, if there is one.
-/

namespace FileCensus

variable {ε : Type}

namespace FileSystem

variable {fs : FileSystem} {path : Path} {last : Bool} {r : Refusal}

/-- A path whose names hold no NUL is refused only for a fault of the system. -/
theorem locate_fault (sound : path.names.any (·.contains '\x00') = false)
    (h : fs.locate last path = .error r) : ∃ fault, r = .fault fault := by
  simp only [locate, sound, Bool.false_eq_true, if_false] at h
  split at h
  · cases h
    exact ⟨_, rfl⟩
  · split at h
    · cases h
    · cases h
      exact ⟨_, rfl⟩

theorem status_fault (sound : path.names.any (·.contains '\x00') = false)
    (h : fs.status last path = .error r) : ∃ fault, r = .fault fault := by
  cases found : fs.find last path with
  | error r' =>
      have same : r' = r := by
        simp only [status, found, bind, Except.bind] at h
        exact Except.error.inj h
      simp only [find] at found
      split at found
      · cases found
      · cases found
        exact ⟨_, same.symm⟩
      · next failed =>
        cases found
        exact same ▸ locate_fault sound failed
  | ok place =>
      simp only [status, found, bind, Except.bind] at h
      split at h
      · cases h
      · cases h
        exact ⟨_, rfl⟩

theorem supportsMarks_ok (sound : path.names.any (·.contains '\x00') = false) :
    ∃ marks, Matcher.supportsMarks fs.noAttributes path = .ok marks := by
  simp only [Matcher.supportsMarks, noAttributes]
  cases status : fs.status false path with
  | ok s => exact ⟨_, rfl⟩
  | error r =>
      obtain ⟨fault, rfl⟩ := status_fault sound status
      exact ⟨false, rfl⟩

end FileSystem

/-- Filters are made for every root about which the file system can be asked. -/
theorem Settings.plan_ok {s : Settings} {w : Surroundings ε} {root : Path} {marks : Bool}
    (asked : w.supportsMarks root = .ok marks) : ∃ q, s.plan w root = .ok q := by
  simp only [plan, filterSet]
  cases s.ignoreHidden with
  | true => exact ⟨_, by simp only [asked, if_true]; rfl⟩
  | false => exact ⟨_, rfl⟩

/-- Nobody has cancelled the job. -/
structure Job.IsCalm (j : Job ε) : Prop where
  token : j.handle.token.isCancelled = false
  future : j.handle.future.isCancelled = false

namespace Core

variable {c c' : Core ε}

/-- Nobody has cancelled a job. -/
def Calm (c : Core ε) : Prop :=
    ∀ (n : Nat) j, c.jobs[n]? = some j → j.IsCalm

theorem Calm.of_jobs (h : c.Calm) (jobs : c'.jobs = c.jobs) : c'.Calm := by
  rw [Calm, jobs]
  exact h

theorem Calm.registers (h : c.Calm) {n : Nat} {k : Callback} {calls : List Call}
    (add : c.Registers n k c' calls) : c'.Calm := by
  cases add with
  | lost _ | answers _ _ => exact h
  | joins job _ => exact forall_set h ⟨(h _ _ job).token, (h _ _ job).future⟩

theorem Calm.enters (h : c.Calm) (q : Plan ε) : (c.entered q).Calm :=
  forall_append h ⟨rfl, rfl⟩

end Core

namespace Scanner

variable {s : Scanner ε}

theorem takeUp_calm (h : s.core.Calm) : s.takeUp.core.Calm := by
  cases waiting : s.waiting with
  | nil =>
      simp only [takeUp, waiting]
      exact h
  | cons n rest =>
      cases job : s.jobs[n]? with
      | none =>
          simp only [takeUp, waiting, job]
          exact h
      | some j =>
          have calm := h n j job
          cases stage : j.handle.future.stage with
          | pending =>
              simp only [takeUp, waiting, job, Future.start, stage, if_true,
                setHandle_of_job { s with waiting := rest } job]
              exact Core.forall_set (c := s.core) h ⟨calm.token, rfl⟩
          | running | finished _ =>
              simp only [takeUp, waiting, job, Future.start, stage]
              exact h
          | cancelled | cancelledNoted =>
              have future := calm.future
              simp [Future.isCancelled, stage] at future

theorem proceed_calm {n : Nat} (h : s.core.Calm) : (s.proceed n).core.Calm := by
  cases job : s.jobs[n]? with
  | none =>
      simp only [proceed, job]
      exact h
  | some j =>
      have calm := h n j job
      cases outcome : j.walk.outcome? with
      | none =>
          simp only [proceed, job, outcome]
          exact Core.forall_set (c := s.core) h ⟨calm.token, calm.future⟩
      | some o =>
          cases settled : j.handle.future.settle o with
          | error f =>
              simp only [proceed, job, outcome, settled]
              exact h
          | ok r =>
              simp only [proceed, job, outcome, settled, s.setHandle_of_job job]
              have future : r.1.isCancelled = false := by
                simp only [Future.settle] at settled
                split at settled
                · cases settled
                · cases settled
                  rfl
              exact Core.forall_set (c := s.core) h ⟨calm.token, future⟩

theorem workStep_calm (h : s.core.Calm) : s.workStep.core.Calm := by
  unfold workStep
  split
  · exact takeUp_calm h
  · exact proceed_calm h
  · exact h
  · next n k rest _ => exact h.of_jobs (s.perform_performs (n, k)).jobs

end Scanner

namespace Census

/-- A stop that lets jobs go on and withdraws none. -/
def Stage.stopsGently : Exit → Stopping → Bool
  | .closing, .marking | .closing, .halting _ | .closing, .over _ => true
  | _, _ => false

/-- Whether the main thread is where it comes without a failure. -/
def Stage.isCalm : Stage → Bool
  | .submitting _ (.refused _) | .dismissing .. => false
  | .closing cause | .joining cause | .ended cause => cause.isNone
  | .stopping exit progress cause => cause.isNone && stopsGently exit progress
  | _ => true

/-- Nothing has gone wrong yet but walks. -/
structure Calm (c : Census) : Prop where
  stage : c.stage.isCalm = true
  admits : c.stage.isSubmitting = true →
    c.scanner.isClosed = false ∧ c.scanner.isStopped = false
  jobs : c.core.Calm

variable {p : Plan} {c : Census} {s : Settings} {fs : FileSystem}

theorem Calm.blameless (h : c.Calm) : c.stage.cause = none := by
  have calm := h.stage
  cases stage : c.stage with
  | closing cause | joining cause | ended cause =>
      rw [stage] at calm
      exact Option.isNone_iff_eq_none.mp calm
  | stopping exit progress cause =>
      rw [stage] at calm
      exact Option.isNone_iff_eq_none.mp (Bool.and_eq_true_iff.mp calm).1
  | dismissing _ _ _ _ =>
      rw [stage] at calm
      cases calm
  | _ => rfl

theorem calm_of_same {c' : Census} (h : c.Calm) (jobs : c'.core.jobs = c.core.jobs)
    (calm : c'.stage.isCalm = true) (other : c'.stage.isSubmitting = false) : c'.Calm where
  stage := calm
  admits submitting := by
    rw [other] at submitting
    cases submitting
  jobs := h.jobs.of_jobs jobs

theorem Calm.workStep (h : c.Calm) : c.workStep.Calm where
  stage := h.stage
  admits submitting := by
    have desk := c.scanner.workStep_desk
    have admits := h.admits submitting
    exact ⟨(congrArg Desk.isClosed desk).trans admits.1, (congrArg Desk.isStopped desk).trans admits.2⟩
  jobs := Scanner.workStep_calm h.jobs

/-- Whether the array can still be written. -/
def Stage.isOpen : Stage → Bool
  | .summarising | .stopping .. | .dismissing .. | .joining _ | .ended _ => false
  | _ => true

/-- A turn of the main thread writes the entry that it has taken, or nothing. -/
structure Outputs (c c' : Census) : Prop where
  array : c'.writer.isSome = c.writer.isSome
  writes : c'.writes = c.writes ∨ ∃ e, c.stage = .writing e ∧ c'.writes = e :: c.writes

theorem Proceeds.outputs {c' : Census} (turn : Proceeds p c c') : c.Outputs c' := by
  cases turn with
  | prints c e _ _ => exact ⟨rfl, .inr ⟨e, rfl, rfl⟩⟩
  | appends c e _ _ _ writer _ =>
      exact ⟨(congrArg Option.isSome writer).symm, .inr ⟨e, rfl, rfl⟩⟩
  | closes _ | blames _ _ => exact ⟨Option.isSome_map, .inl rfl⟩
  | _ => exact ⟨rfl, .inl rfl⟩

/-- The array, if there is one, holds what was written; it is closed once the main thread takes no
more entries. -/
def Recorded (c : Census) : Prop :=
    ∀ w, c.writer = some w →
      if c.stage.isOpen then w.Holds (c.written.map (·.fields))
      else w.IsSealed (c.written.map (·.fields))

theorem Recorded.workStep (h : c.Recorded) : c.workStep.Recorded :=
  h

theorem Recorded.appends {e : FileEntry} {w w' : Json.ArrayWriter}
    (h : (c.go (.writing e)).Recorded) (writer : c.writer = some w)
    (wrote : w.write e.fields = .ok w') :
    Recorded ({ c with writes := e :: c.writes, writer := some w' }.go .waiting) := by
  intro w'' some
  cases some
  have holds : w.Holds (c.written.map (·.fields)) := h w writer
  obtain ⟨_, wrote', next⟩ := holds.write e.isPrintable
  cases wrote.symm.trans wrote'
  simp only [go, Stage.isOpen, if_true, written, List.reverse_cons, List.map_append]
  exact next

/-- The main thread closes the array, whether or not there is a failure. -/
theorem Recorded.closes {cause : Option Failure} {after : Stage}
    (h : (c.go (.closing cause)).Recorded) (shut : after.isOpen = false) :
    Recorded ({ c with writer := c.writer.map Json.ArrayWriter.close }.go after) := by
  intro w' some
  obtain ⟨w, writer, rfl⟩ := Option.map_eq_some_iff.mp some
  have holds : w.Holds (c.written.map (·.fields)) := h w writer
  simp only [go, shut, Bool.false_eq_true, if_false]
  exact holds.close

theorem Recorded.proceeds {c' : Census} (h : c.Recorded)
    (admitted : ∀ left f, c.stage ≠ .submitting left (.refused f)) (turn : Proceeds p c c') :
    c'.Recorded := by
  cases turn with
  | refuses c root rest f => exact absurd rfl (admitted (root :: rest) f)
  | prints c e _ none =>
      intro w some
      cases none.symm.trans some
  | appends c e w w' _ writer wrote => exact h.appends writer wrote
  | closes c | blames c _ => exact h.closes rfl
  | _ => exact h

theorem Calm.admitted (h : c.Calm) (left : List Path) (f : Failure) :
    c.stage ≠ .submitting left (.refused f) := by
  intro stage
  have calm := h.stage
  rw [stage] at calm
  cases calm

/-- A submission that goes on is neither refused nor too late. -/
theorem Calm.submits (h : c.Calm) {root : Path} {rest : List Path}
    {submission : Submission FileEntry} (stage : c.stage = .submitting (root :: rest) submission)
    (unanswered : ∀ n, submission ≠ .accepted n)
    (plan : ∃ q, c.scanner.plan p.surroundings root = .ok q) :
    ({ c with scanner := (c.scanner.submitStep p.surroundings root submission).2 }.go
      (.submitting (root :: rest)
        (c.scanner.submitStep p.surroundings root submission).1)).Calm := by
  obtain ⟨open_, running⟩ := h.admits (by rw [stage]; rfl)
  cases submission with
  | accepted n => exact absurd rfl (unanswered n)
  | refused f => exact absurd stage (h.admitted _ f)
  | asking =>
      simp only [Scanner.submitStep, open_, Bool.false_eq_true, if_false]
      exact ⟨rfl, fun _ => ⟨open_, running⟩, h.jobs⟩
  | preparing =>
      obtain ⟨q, plan⟩ := plan
      simp only [Scanner.submitStep, Scanner.prepare, plan, bind, Except.bind]
      exact ⟨rfl, fun _ => ⟨open_, running⟩, h.jobs⟩
  | entering q =>
      simp only [Scanner.submitStep, open_, running, Bool.false_eq_true, if_false]
      exact ⟨rfl, fun _ => ⟨open_, running⟩, h.jobs.enters q⟩

/-- A stop without a failure sets off no callbacks. -/
theorem Calm.stops {exit : Exit} {progress : Stopping} {cause : Option Failure}
    (h : (c.go (.stopping exit progress cause)).Calm) (going : ∀ idle, progress ≠ .over idle) :
    (c.scanner.stopStep exit.kind progress).2.2 = [] ∧
      Calm ({ c with scanner := (c.scanner.stopStep exit.kind progress).2.1 }.go
        (.stopping exit (c.scanner.stopStep exit.kind progress).1 cause)) := by
  obtain ⟨blameless, gentle⟩ := Bool.and_eq_true_iff.mp h.stage
  cases exit with
  | handling | leaving => cases gentle
  | closing =>
      cases progress with
      | marking | halting _ =>
          refine ⟨rfl, calm_of_same h rfl ?_ rfl⟩
          exact Bool.and_eq_true_iff.mpr ⟨blameless, rfl⟩
      | «over» idle => exact absurd rfl (going idle)
      | looking _ _ _ | confirming _ _ _ _ | choosing _ _ | cancelling _ _ _ _
      | withdrawing _ => cases gentle

theorem Calm.proceeds {c' : Census} (h : c.Calm) (ledger : c.Ledger p s fs)
    (recorded : c.Recorded) (plans : ∀ root ∈ p.roots, ∃ q, s.plan p.surroundings root = .ok q)
    (willing : ∀ e, c.stage = .writing e → p.refusal c.writes.length = none)
    (turn : Proceeds p c c') : c'.Calm := by
  have calm := h.stage
  cases turn with
  | rests _ _ => exact h
  | accepts c root rest n => exact ⟨rfl, fun _ => h.admits rfl, h.jobs⟩
  | refuses c root rest f => cases calm
  | submits c root rest submission unanswered _ =>
      refine h.submits rfl unanswered ?_
      rw [Scanner.plan_eq, ledger.settings]
      refine plans root (List.mem_of_mem_drop (i := c.accepted.length) ?_)
      have left : root :: rest = p.roots.drop c.accepted.length := ledger.left _ _ rfl
      rw [← left]
      exact List.mem_cons_self
  | groups c => exact calm_of_same h (c.scanner.startGroup_jobs _) rfl rfl
  | registers c n left group =>
      refine ⟨rfl, nofun, ?_⟩
      exact h.jobs.registers (c.scanner.addCallback_registers n (.countDown group))
  | tells c call rest left group =>
      exact calm_of_same h (c.scanner.perform_performs call).jobs rfl rfl
  | fails c e f fault =>
      rcases fault with refused | ⟨w, writer, failed⟩
      · cases (willing e rfl).symm.trans refused
      · have holds : w.Holds (c.written.map (·.fields)) := recorded w writer
        obtain ⟨w', wrote, -⟩ := holds.write e.isPrintable
        cases failed.symm.trans wrote
  | blames c f => cases calm
  | handled c _ cause | left c _ cause => cases (Bool.and_eq_true_iff.mp calm).2
  | closed c idle cause => exact calm_of_same h rfl (Bool.and_eq_true_iff.mp calm).1 rfl
  | stops c exit progress cause going _ => exact (h.stops going).2
  | dismisses c exit progress cause going loud => exact absurd (h.stops going).1 loud
  | dismissed c exit progress cause => cases calm
  | informs c call rest exit progress cause => cases calm
  | joins c cause idle => exact calm_of_same h rfl calm rfl
  | _ => exact calm_of_same h rfl rfl rfl

end Census

end FileCensus
