import FileCensus.Proofs.Front
import FileCensus.Proofs.Release

/-!
What becomes of a census when a write is refused, or when its output cannot be opened in the first
place. The main thread blames the failure, writes nothing any more and leaves the scanner; before it
waits for the worker every job is done or has been told to stop. What was written before is the front
of what the roots give, and the array, if there is one, is closed with it.
-/

namespace FileCensus

namespace Census

variable {p : Plan} {c : Census} {s : Settings} {fs : FileSystem} {f : Failure}

/-- Whether the scanner has been closed on the way out of it. -/
def Stage.hasClosed : Stage → Bool
  | .stopping exit progress cause | .dismissing _ exit progress cause =>
      (exit = .closing && cause.isSome) || progress ≠ .marking
  | .joining _ | .ended _ => true
  | _ => false

/-- Whether the main thread has a failure to blame and the stops on account of it are behind. -/
def Stage.isReleased : Stage → Bool
  | .stopping .closing _ cause | .dismissing _ .closing _ cause | .joining cause
  | .ended cause => cause.isSome
  | _ => false

def Shut (c : Census) : Prop :=
    c.stage.hasClosed = true → c.scanner.isClosed = true

theorem Shut.workStep (h : c.Shut) : c.workStep.Shut := fun past =>
  (congrArg Desk.isClosed c.scanner.workStep_desk).trans (h past)

theorem Shut.stops {exit : Exit} {progress : Stopping} {cause : Option Failure}
    (h : (c.go (.stopping exit progress cause)).Shut) :
    (c.scanner.stopStep exit.kind progress).2.1.isClosed = true := by
  refine (congrArg Desk.isClosed (c.scanner.stopStep_desk exit.kind progress)).trans ?_
  cases progress with
  | marking => exact Bool.or_true _
  | _ => exact Bool.or_eq_true_iff.mpr (.inl (h (by simp [go, Stage.hasClosed])))

/-- The scanner is closed by the first step of a stop, and for good. -/
theorem Shut.proceeds {c' : Census} (h : c.Shut) (turn : Proceeds p c c') : c'.Shut := by
  cases turn with
  | rests _ _ => exact h
  | blames c f =>
      intro past
      rcases Exit.onFailure_cases f with exit | exit
      · simp [go, exit, Stage.hasClosed] at past
      · simp [go, exit, Stage.hasClosed] at past
  | handled c _ _ | left c _ _ | closed c _ _ | joins c _ _ =>
      exact fun _ => h (by simp [go, Stage.hasClosed])
  | stops c _ _ _ _ _ | dismisses c _ _ _ _ _ => exact fun _ => h.stops
  | dismissed c _ _ _ => exact h
  | informs c call _ _ _ _ =>
      intro past
      exact (congrArg Desk.isClosed (c.scanner.perform_desk call)).trans (h past)
  | _ =>
      intro past
      cases past

theorem Shut.released (h : c.Shut) (heeded : c.Heeded) (orderly : c.scanner.core.Orderly)
    (past : c.stage.isReleased = true) : c.scanner.IsReleased := by
  have flagged := heeded.flagged
  have closed : c.scanner.isClosed = true := by
    refine h ?_
    cases stage : c.stage with
    | stopping exit progress cause | dismissing _ exit progress cause =>
        rw [stage] at past
        cases exit with
        | handling | leaving => cases past
        | closing => exact Bool.or_eq_true_iff.mpr (.inl past)
    | joining _ | ended _ => rfl
    | _ =>
        rw [stage] at past
        cases past
  have none : c.unflagged = [] := by
    cases stage : c.stage with
    | stopping exit progress cause | dismissing _ exit progress cause =>
        rw [stage] at past
        cases exit with
        | handling | leaving => cases past
        | closing => simp only [unflagged, stage, unstopped, show cause.isSome = true from past, if_true]
    | joining cause | ended cause =>
        rw [stage] at past
        simp only [unflagged, stage, show cause.isSome = true from past, if_true]
    | _ =>
        rw [stage] at past
        cases past
  exact Scanner.isReleased_of_flagged orderly closed (none ▸ flagged)

/-- A main thread that has a failure to blame blames it to the end. -/
theorem Proceeds.cause {c' : Census} (turn : Proceeds p c c') (cause : c.stage.cause = some f) :
    c'.stage.cause = some f := by
  cases turn with
  | rests _ _ | blames _ _ | handled _ _ _ | left _ _ _ | closed _ _ _ | stops _ _ _ _ _ _
  | dismisses _ _ _ _ _ _ | dismissed _ _ _ _ | informs _ _ _ _ _ _ | joins _ _ _ => exact cause
  | _ => cases cause

theorem Proceeds.writes {c' : Census} (turn : Proceeds p c c')
    (other : ∀ e, c.stage ≠ .writing e) : c'.writes = c.writes := by
  refine turn.outputs.writes.resolve_right ?_
  rintro ⟨e, stage, -⟩
  exact other e stage

/-- A run in which the write after `k` others is refused. Up to then all goes well; from then on the
failure is blamed, and what is written stays as it is. -/
inductive Fails (p : Plan) (s : Settings) (fs : FileSystem) (whole : List FileEntry) (k : Nat)
    (f : Failure) (c : Census) : Prop where
  | coming (clean : c.Clean p s fs) (few : c.written.length ≤ k)
  | blamed (runs : c.Runs p s fs) (recorded : c.Recorded) (cause : c.stage.cause = some f)
      (written : c.written = whole.take k) (more : k < whole.length)

variable {shares : List Share} {k : Nat}

theorem Clean.fails (h : c.Clean p s fs) (wf : fs.WellFormed)
    (reads : p.surroundings.probe.Reads fs)
    (plans : ∀ root ∈ p.roots, ∃ q, s.plan p.surroundings root = .ok q)
    (given : List.Forall₂ (IsShare s p.surroundings) p.roots shares)
    (willing : ∀ j < k, p.refusal j = none) (refused : p.refusal k = some f)
    (few : c.written.length ≤ k) :
    (c.mainStep p).Fails p s fs (Share.concat shares) k f := by
  have length : c.written.length = c.writes.length := List.length_reverse
  by_cases writing : ∃ e, c.stage = .writing e
  · obtain ⟨e, stage⟩ := writing
    rcases Nat.lt_or_eq_of_le few with fewer | full
    · -- the write is not refused yet
      refine .coming (h.mainStep wf reads plans fun _ _ => willing _ (length ▸ fewer)) ?_
      rcases (c.proceeds p).outputs.writes with same | ⟨e, -, wrote⟩
      · rw [written, same]
        exact few
      · rw [written, wrote, List.length_reverse, List.length_cons]
        exact length ▸ fewer
    · have front := h.front given
      have taken : c.taken = c.written ++ [e] := by simp only [Census.taken, stage]
      rw [taken] at front
      have step : c.mainStep p = c.go (.closing (some f)) := by
        simp only [Census.mainStep, stage, write, ← length, full, refused]
      have more : k < (Share.concat shares).length := by
        have le := front.length_le
        rw [List.length_append, full] at le
        exact le
      have early := (List.prefix_append _ _).trans front
      have recorded := h.recorded.proceeds h.calm.admitted (c.proceeds p)
      refine .blamed (h.runs.step wf reads .main) recorded ?_ ?_ more
      · rw [step]
        rfl
      · rw [step]
        exact full ▸ List.prefix_iff_eq_take.mp early
  · have other : ∀ e, c.stage ≠ .writing e := fun e stage => writing ⟨e, stage⟩
    refine .coming (h.mainStep wf reads plans fun e stage => absurd stage (other e)) ?_
    rw [written, (c.proceeds p).writes other]
    exact few

theorem Fails.step (h : c.Fails p s fs (Share.concat shares) k f) (wf : fs.WellFormed)
    (reads : p.surroundings.probe.Reads fs)
    (plans : ∀ root ∈ p.roots, ∃ q, s.plan p.surroundings root = .ok q)
    (given : List.Forall₂ (IsShare s p.surroundings) p.roots shares)
    (willing : ∀ j < k, p.refusal j = none) (refused : p.refusal k = some f) (t : Turn) :
    (c.step p t).Fails p s fs (Share.concat shares) k f := by
  cases h with
  | coming clean few =>
      cases t with
      | main => exact clean.fails wf reads plans given willing refused few
      | worker => exact .coming (clean.workStep wf reads) few
  | blamed runs recorded cause written more =>
      cases t with
      | worker => exact .blamed (runs.step wf reads .worker) recorded.workStep cause written more
      | main =>
          have other : ∀ e, c.stage ≠ .writing e := by
            intro e stage
            rw [stage] at cause
            cases cause
          have admitted : ∀ left g, c.stage ≠ .submitting left (.refused g) := by
            intro left g stage
            rw [stage] at cause
            cases cause
          have turn := c.proceeds p
          refine .blamed (runs.step wf reads .main) (recorded.proceeds admitted turn)
            (turn.cause cause) ?_ more
          rw [Census.written, Census.step, turn.writes other]
          exact written

theorem Fails.follow (h : c.Fails p s fs (Share.concat shares) k f) (wf : fs.WellFormed)
    (reads : p.surroundings.probe.Reads fs)
    (plans : ∀ root ∈ p.roots, ∃ q, s.plan p.surroundings root = .ok q)
    (given : List.Forall₂ (IsShare s p.surroundings) p.roots shares)
    (willing : ∀ j < k, p.refusal j = none) (refused : p.refusal k = some f) (turns : List Turn) :
    (c.follow p turns).Fails p s fs (Share.concat shares) k f := by
  induction turns generalizing c with
  | nil => exact h
  | cons t turns ih => exact ih (h.step wf reads plans given willing refused t)

theorem Fails.runs {whole : List FileEntry} (h : c.Fails p s fs whole k f) : c.Runs p s fs := by
  cases h with
  | coming clean _ => exact clean.runs
  | blamed runs _ _ _ _ => exact runs

theorem Fails.front (h : c.Fails p s fs (Share.concat shares) k f)
    (given : List.Forall₂ (IsShare s p.surroundings) p.roots shares) :
    c.written <+: (Share.concat shares).take k := by
  cases h with
  | blamed _ _ _ written _ => exact written ▸ List.prefix_rfl
  | coming clean few =>
      have early : c.written <+: c.taken := by
        cases stage : c.stage with
        | writing e =>
            simp only [taken, stage]
            exact List.prefix_append _ _
        | _ =>
            simp only [taken, stage]
            exact List.prefix_rfl
      exact List.prefix_take_iff.mpr ⟨early.trans (clean.front given), few⟩

/-- A failure is blamed only after the writes before it. -/
theorem Fails.of_cause {whole : List FileEntry} (h : c.Fails p s fs whole k f) {g : Failure}
    (cause : c.stage.cause = some g) : g = f ∧ c.written = whole.take k := by
  cases h with
  | coming clean _ =>
      rw [clean.calm.blameless] at cause
      cases cause
  | blamed _ _ blamed written _ =>
      cases blamed.symm.trans cause
      exact ⟨rfl, written⟩

theorem Shut.follow (h : c.Shut) (turns : List Turn) : (c.follow p turns).Shut := by
  induction turns generalizing c with
  | nil => exact h
  | cons t turns ih =>
      cases t with
      | main => exact ih (h.proceeds (c.proceeds p))
      | worker => exact ih h.workStep

theorem shut_start (scanner : Scanner FileEntry) (roots : List Path)
    (writer : Option Json.ArrayWriter) : (start scanner roots writer).Shut :=
  fun past => by cases past

/-! A scanner that is left before it has been given a job. -/

theorem stopStep_idles {scanner : Scanner FileEntry} (idle : scanner.isIdle = true)
    (kind : StopKind) (phase : Stopping) : (scanner.stopStep kind phase).2.1.isIdle = true := by
  have winds := scanner.stopStep_winds kind phase
  generalize (scanner.stopStep kind phase).2 = r at winds ⊢
  cases winds with
  | marks _ _ => exact idle
  | cancels n request => exact (scanner.cancelStep_idle n request).trans idle
  | withdraws =>
      have empty : scanner.waiting = [] := List.isEmpty_iff.mp (Bool.and_eq_true_iff.mp idle).2
      rw [Scanner.withdraw, empty]
      exact idle

/-- There is nothing to do but to leave. -/
structure Vacant (f : Failure) (c : Census) : Prop where
  jobs : c.scanner.jobs = []
  idle : c.scanner.isIdle = true
  cause : c.stage.cause = some f

theorem Vacant.proceeds {c' : Census} (h : c.Vacant f) (turn : Proceeds p c c') :
    c'.Vacant f := by
  cases turn with
  | rests _ _ => exact h
  | stops c exit progress _ _ _ | dismisses c exit progress _ _ _ =>
      have length := (c.scanner.stopStep_moves exit.kind progress).length
      exact ⟨List.eq_nil_of_length_eq_zero (length.trans (congrArg List.length h.jobs)),
        stopStep_idles h.idle exit.kind progress, h.cause⟩
  | informs c call _ _ _ _ =>
      exact ⟨(c.scanner.perform_performs call).jobs.trans h.jobs,
        (c.scanner.perform_idle call).trans h.idle, h.cause⟩
  | blames _ _ | handled _ _ _ | left _ _ _ | closed _ _ _ | dismissed _ _ _ _ | joins _ _ _ =>
      exact ⟨h.jobs, h.idle, h.cause⟩
  | _ => cases h.cause

theorem Vacant.step (h : c.Vacant f) (t : Turn) : (c.step p t).Vacant f := by
  cases t with
  | main => exact h.proceeds (c.proceeds p)
  | worker =>
      have same : c.workStep = c := by rw [Census.workStep, Scanner.workStep_of_idle h.idle]
      rw [Census.step, same]
      exact h

theorem Vacant.orderly (h : c.Vacant f) : c.scanner.core.Orderly := by
  have idle := h.idle
  simp only [Scanner.isIdle, Bool.and_eq_true, decide_eq_true_eq, List.isEmpty_iff] at idle
  exact Core.orderly_of_empty h.jobs idle.2 idle.1

theorem Vacant.heeded (h : c.Vacant f) : c.Heeded :=
  ⟨Core.flagged_of_empty h.jobs _, fun _ => h.idle⟩

theorem lively_vacant (p : Plan) (fs : FileSystem) (f : Failure) : Lively p fs (Vacant f) where
  step h t := h.step t
  grounded h n j job := by
    rw [h.jobs] at job
    cases job
  busy {c} h going waits := by
    have cause := h.cause
    cases stage : c.stage with
    | joining _ => simp [isWaiting, stage, h.idle] at waits
    | ended _ => simp [isEnded, stage] at going
    | closing _ | stopping _ _ _ | dismissing _ _ _ _ => simp [isWaiting, stage] at waits
    | _ =>
        rw [stage] at cause
        cases cause

theorem vacant_abandoned (capacity : Option Nat) (settings : Settings) (f : Failure) :
    (abandoned { Scanner.fresh (.fresh capacity (some .fresh)) with settings := settings }
      f).Vacant f :=
  ⟨rfl, rfl, rfl⟩

theorem shut_abandoned (scanner : Scanner FileEntry) (f : Failure) : (abandoned scanner f).Shut :=
  fun past => by cases past

end Census
end FileCensus
