import FileCensus.Proofs.Custody

/-!
What a stop that is to take effect at once reports: the jobs that it found neither running nor done.
It looks first and cancels later, so the worker may take up such a job in between; it is then told
to stop, but it may have put entries by that time. A job that the worker does not take up in between
never starts. Nothing is said of how far a job that was taken up gets.
-/

namespace FileCensus

variable {ε : Type}

namespace Stopping

/-- The jobs that a stop has found neither running nor done. -/
def idle : Stopping → List Nat
  | .marking => []
  | .looking _ _ idle | .confirming _ _ _ idle | .choosing _ idle | .cancelling _ _ _ idle
  | .halting idle | .withdrawing idle | .over idle => idle

/-- The job that a stop has found not to run, when it has not looked yet whether it is done. -/
def doubted? : Stopping → Option Nat
  | .confirming n _ _ _ => some n
  | _ => none

end Stopping

/-- A change of its handle does not start a job. -/
theorem Handle.Change.unstarted {κ : Type} {h h' : Handle κ} {ran : List κ}
    (change : h.Change h' ran) (unstarted : h.future.stage.isStarted = false) :
    h'.future.stage.isStarted = false := by
  rcases change.stage with same | ⟨-, after⟩ | ⟨-, after⟩
  · rw [same, unstarted]
  · rw [after]
    rfl
  · rw [after]
    rfl

namespace Core

variable {c c' : Core ε} {calls : List Call}

/-- No job starts. -/
def Idles (c c' : Core ε) : Prop :=
    ∀ (n : Nat) (j j' : Job ε), c.jobs[n]? = some j → c'.jobs[n]? = some j' →
      j.handle.future.stage.isStarted = false → j'.handle.future.stage.isStarted = false

theorem Idles.of_jobs (same : c'.jobs = c.jobs) : c.Idles c' := by
  intro n j j' job job' unstarted
  rw [same] at job'
  cases job.symm.trans job'
  exact unstarted

theorem idles_entered (c : Core ε) (p : Plan ε) : c.Idles (c.entered p) := by
  intro n j j' job job' unstarted
  rw [entered_jobs, List.getElem?_append_left (List.getElem?_eq_some_iff.mp job).1] at job'
  cases job.symm.trans job'
  exact unstarted

theorem idles_set {m : Nat} {a b : Job ε} (found : c.jobs[m]? = some a)
    (kept : a.handle.future.stage.isStarted = false → b.handle.future.stage.isStarted = false)
    (jobs : c'.jobs = c.jobs.set m b) : c.Idles c' := by
  intro n j j' job job' unstarted
  rw [jobs] at job'
  rcases getElem?_set_cases job' with ⟨rfl, rfl⟩ | ⟨-, same⟩
  · cases job.symm.trans found
    exact kept unstarted
  · cases job.symm.trans same
    exact unstarted

/-- As long as the worker stays where it is, no job starts. -/
theorem Moves.idles (move : c.Moves c' calls) (worker : c'.worker = c.worker) : c.Idles c' := by
  cases move with
  | rests | strays _ _ | halts _ _ | frees _ => exact .of_jobs rfl
  | handles found change | drops _ found change _ => exact idles_set found change.unstarted rfl
  | walks _ found _ =>
      refine idles_set found ?_ rfl
      exact id
  | starts free _ _ _ =>
      rw [free] at worker
      cases worker
  | settles runs _ _ _ =>
      rw [runs] at worker
      cases worker

end Core

namespace Scanner

variable (s : Scanner ε)

theorem cancelStep_worker (n : Nat) (request : Cancelling) :
    (s.cancelStep n request).2.1.worker = s.worker := by
  simp only [cancelStep]
  split <;> rfl

theorem withdraw_worker : s.withdraw.1.worker = s.worker := by
  simp only [withdraw]
  split
  · rfl
  · split <;> rfl

theorem Winds.worker {s : Scanner ε} {r : Scanner ε × List Call} (winds : s.Winds r) :
    r.1.worker = s.worker := by
  cases winds with
  | marks _ _ => rfl
  | cancels n request => exact s.cancelStep_worker n request
  | withdraws => exact s.withdraw_worker

theorem stopStep_worker (kind : StopKind) (phase : Stopping) :
    (s.stopStep kind phase).2.1.worker = s.worker :=
  (s.stopStep_winds kind phase).worker

/-- A stop finds a job idle when it is not done, after it was found not to run. -/
theorem stopStep_idle {kind : StopKind} {phase : Stopping} {n : Nat}
    (found : n ∈ (s.stopStep kind phase).1.idle) :
    n ∈ phase.idle ∨ phase.doubted? = some n ∧ s.isDone n = false := by
  cases phase with
  | marking => cases kind <;> cases found
  | looking all left idle =>
      cases left with
      | nil => exact Or.inl found
      | cons m left =>
          simp only [stopStep] at found
          split at found <;> exact Or.inl found
  | confirming m all left idle =>
      cases done : s.isDone m with
      | true =>
          simp only [stopStep, done, if_true] at found
          exact Or.inl found
      | false =>
          simp only [stopStep, done, Bool.false_eq_true, if_false] at found
          rcases List.mem_append.mp found with old | new
          · exact Or.inl old
          · cases List.mem_singleton.mp new
            exact Or.inr ⟨rfl, done⟩
  | choosing left idle => cases left <;> exact Or.inl found
  | cancelling m request left idle =>
      simp only [stopStep] at found
      split at found <;> exact Or.inl found
  | halting idle =>
      simp only [stopStep] at found
      split at found <;> exact Or.inl found
  | withdrawing idle =>
      simp only [stopStep] at found
      split at found <;> exact Or.inl found
  | _ => exact Or.inl found

theorem stopStep_doubted {kind : StopKind} {phase : Stopping} {n : Nat}
    (found : (s.stopStep kind phase).1.doubted? = some n) : s.isRunning n = false := by
  cases phase with
  | marking => cases kind <;> cases found
  | looking all left idle =>
      cases left with
      | nil => cases found
      | cons m left =>
          cases running : s.isRunning m with
          | true =>
              simp only [stopStep, running, if_true] at found
              cases found
          | false =>
              simp only [stopStep, running, Bool.false_eq_true, if_false] at found
              cases found
              exact running
  | confirming m all left idle => cases found
  | choosing left idle => cases left <;> cases found
  | cancelling m request left idle =>
      simp only [stopStep] at found
      split at found <;> cases found
  | halting idle =>
      simp only [stopStep] at found
      split at found <;> cases found
  | withdrawing idle =>
      simp only [stopStep] at found
      split at found <;> cases found
  | _ => cases found

end Scanner

theorem Traffic.step_idles (w : Surroundings ε) {x : Traffic ε} {t : Traffic.Turn}
    (other : t ≠ .work) : x.scanner.core.Idles (x.step w t).scanner.core := by
  cases t with
  | work => exact absurd rfl other
  | scan _ | cancel _ | stop _ | set _ => exact .of_jobs rfl
  | submit i =>
      simp only [Traffic.step]
      split
      · exact .of_jobs rfl
      · next root phase _ =>
        rcases x.scanner.submitStep_cases w root phase with ⟨same, -⟩ | ⟨p, entered, -⟩
        · exact .of_jobs (congrArg Core.jobs same)
        · rw [entered]
          exact x.scanner.core.idles_entered p
  | goOn i =>
      simp only [Traffic.step, CancelRequest.step]
      split
      · exact .of_jobs rfl
      · next q _ =>
        split
        · next call _ _ => exact .of_jobs (x.scanner.perform_performs call).same.1
        · exact (x.scanner.cancelStep_moves q.job q.phase).idles (x.scanner.cancelStep_worker _ _)
  | wind i =>
      simp only [Traffic.step, StopRequest.step]
      split
      · exact .of_jobs rfl
      · next q _ =>
        split
        · next call _ _ => exact .of_jobs (x.scanner.perform_performs call).same.1
        · exact (x.scanner.stopStep_moves q.kind q.phase).idles (x.scanner.stopStep_worker _ _)
  | wait | get =>
      simp only [Traffic.step]
      split <;> exact .of_jobs rfl

/-- What has become of the jobs that a stop found not to run: those that have started since then
have been overtaken. -/
structure Explained (overtaken : Nat → Prop) (c : Core ε) (phase : Stopping) : Prop where
  idle : ∀ n ∈ phase.idle, ∀ j : Job ε, c.jobs[n]? = some j →
    j.handle.future.stage.isStarted = true → overtaken n
  doubted : ∀ n, phase.doubted? = some n → ∀ j : Job ε, c.jobs[n]? = some j →
    j.handle.future.stage.isStarted = true → overtaken n ∨ j.handle.isDone = true

namespace Explained

variable {overtaken overtaken' : Nat → Prop} {c : Core ε} {phase : Stopping}

theorem mono (h : Explained overtaken c phase) (sub : ∀ n, overtaken n → overtaken' n) :
    Explained overtaken' c phase where
  idle n idle j job started := sub n (h.idle n idle j job started)
  doubted n doubted j job started := (h.doubted n doubted j job started).imp_left (sub n)

theorem marking (overtaken : Nat → Prop) (c : Core ε) : Explained overtaken c .marking :=
  ⟨nofun, nofun⟩

/-- A stop reports what it has found not to be done, after it was found not to run. -/
theorem stopStep {s : Scanner ε} (h : Explained overtaken s.core phase)
    (orderly : s.core.Orderly) (kind : StopKind) :
    Explained overtaken (s.stopStep kind phase).2.1.core (s.stopStep kind phase).1 := by
  have move := s.stopStep_moves kind phase
  have idles := move.idles (s.stopStep_worker kind phase)
  have before : ∀ (n : Nat) (j' : Job ε), (s.stopStep kind phase).2.1.core.jobs[n]? = some j' →
      j'.handle.future.stage.isStarted = true → ∃ j, s.core.jobs[n]? = some j ∧
        j.handle.future.stage.isStarted = true ∧ j.Later j' := by
    intro n j' job' started
    obtain ⟨j, job, later⟩ := move.earlier orderly job'
    refine ⟨j, job, ?_, later⟩
    by_contra unstarted
    have still := idles n j j' job job' (by simpa using unstarted)
    rw [started] at still
    cases still
  constructor
  · intro n idle j' job' started
    obtain ⟨j, job, started, -⟩ := before n j' job' started
    rcases s.stopStep_idle idle with old | ⟨doubted, undone⟩
    · exact h.idle n old j job started
    · refine (h.doubted n doubted j job started).resolve_right fun done => ?_
      rw [s.isDone_of_job job, done] at undone
      cases undone
  · intro n doubted j' job' started
    obtain ⟨j, job, started, later⟩ := before n j' job' started
    have halted := s.stopStep_doubted doubted
    have job : s.jobs[n]? = some j := job
    refine Or.inr (later.done ?_).1
    cases stage : j.handle.future.stage with
    | finished _ => simp [Handle.isDone, Future.isDone, stage]
    | running => simp [Scanner.isRunning, job, Handle.isRunning, Future.isRunning, stage] at halted
    | pending | cancelled | cancelledNoted => simp [stage, Stage.isStarted] at started

end Explained

namespace Reception

variable {w : Surroundings ε} {x y : Reception ε} {n : Nat}

/-- Nobody but the worker starts a job. -/
theorem step_idles (w : Surroundings ε) {x : Reception ε} {t : Turn} (other : t ≠ .outside .work) :
    x.scanner.core.Idles (x.step w t).scanner.core := by
  cases t with
  | look i late => exact .of_jobs rfl
  | await =>
      simp only [step]
      split <;> exact .of_jobs rfl
  | enter =>
      simp only [step]
      split
      · exact .of_jobs rfl
      · next i e _ =>
        rw [goOn_scanner]
        rcases enterStep_core x.scanner e with same | ⟨p, entered⟩
        · exact .of_jobs (congrArg Core.jobs same)
        · rw [entered]
          exact x.scanner.core.idles_entered p
  | outside t =>
      have other : t ≠ .work := fun same => other (by rw [same])
      simp only [step]
      split
      · exact .of_jobs rfl
      · split
        · exact .of_jobs rfl
        · exact Traffic.step_idles w other

/-- The worker can take up a job that a stop has found not to run and has not tried to withdraw. -/
def Exposes (x : Reception ε) (i n : Nat) : Prop :=
    ∃ q j, x.traffic.stops[i]? = some q ∧ (n ∈ q.phase.idle ∨ q.phase.doubted? = some n) ∧
      n ∈ q.phase.unmet [] ∧ x.scanner.jobs[n]? = some j ∧ j.handle.future.stage = .pending

/-- In one turn of a run the worker has taken up a job that a stop left exposed. -/
def Overtaken (w : Surroundings ε) (x : Reception ε) (turns : List Turn) (i n : Nat) : Prop :=
    ∃ before after j, turns = before ++ .outside .work :: after ∧
      (x.follow w before).Exposes i n ∧
      ((x.follow w before).step w (.outside .work)).scanner.jobs[n]? = some j ∧
      j.handle.future.stage.isStarted = true

theorem Overtaken.snoc {turns : List Turn} {i : Nat} (h : Overtaken w x turns i n) (t : Turn) :
    Overtaken w x (turns ++ [t]) i n := by
  obtain ⟨before, after, j, rfl, taken⟩ := h
  exact ⟨before, after ++ [t], j, by simp, taken⟩

/-- A job that was overtaken has started. -/
theorem Overtaken.started {turns : List Turn} {i : Nat} (h : Overtaken w x turns i n)
    (kept : x.Kept w) {j : Job ε} (job : (x.follow w turns).scanner.jobs[n]? = some j) :
    j.handle.future.stage.isStarted = true := by
  obtain ⟨before, after, a, rfl, -, found, started⟩ := h
  have kept' := (kept.follow before).step (.outside .work)
  obtain ⟨b, found', -, onward⟩ := kept'.ages after n a found
  rw [follow_append] at job
  cases job.symm.trans found'
  exact onward.started started

theorem not_marking_of_named {phase : Stopping}
    (named : n ∈ phase.idle ∨ phase.doubted? = some n) : phase ≠ .marking := by
  rintro rfl
  cases named with
  | inl idle => cases idle
  | inr doubted => cases doubted

/-- A job that has just started was exposed to the worker. -/
theorem Kept.exposes (h : x.Kept w) {t : Turn} {i : Nat} {q : StopRequest}
    (found : x.traffic.stops[i]? = some q) (kind : q.kind = .immediate)
    (named : n ∈ q.phase.idle ∨ q.phase.doubted? = some n) {j j' : Job ε}
    (job : x.scanner.jobs[n]? = some j) (job' : (x.step w t).scanner.jobs[n]? = some j')
    (unstarted : j.handle.future.stage.isStarted = false)
    (started : j'.handle.future.stage.isStarted = true) : t = .outside .work ∧ x.Exposes i n := by
  constructor
  · by_contra other
    have still := step_idles w other n j j' job job' unstarted
    rw [started] at still
    cases still
  · have pending : j.handle.future.stage = .pending := by
      by_contra past
      obtain ⟨a, found', -, onward⟩ := (step_moves w h.regular t).ages h.regular n j job
      cases job'.symm.trans found'
      rw [onward.isStarted_eq past, unstarted] at started
      cases started
    have reaches := h.told q (List.mem_of_getElem? found) kind (not_marking_of_named named)
    have unmet : n ∈ q.phase.unmet [] := by
      by_contra met
      exact reaches.met n j job met pending
    exact ⟨q, j, found, named, unmet, job, pending⟩

/-- A job that a stop has found not to run is exposed to the worker until it starts. -/
theorem Kept.started (h : x.Kept w) (t : Turn) {i : Nat} {q : StopRequest}
    (found : x.traffic.stops[i]? = some q) (kind : q.kind = .immediate)
    (named : n ∈ q.phase.idle ∨ q.phase.doubted? = some n) {j' : Job ε}
    (job' : (x.step w t).scanner.jobs[n]? = some j')
    (started : j'.handle.future.stage.isStarted = true) :
    (t = .outside .work ∧ x.Exposes i n) ∨ ∃ j, x.scanner.jobs[n]? = some j ∧
      j.handle.future.stage.isStarted = true ∧ j.Later j' := by
  have move := step_moves w h.regular t
  have listed := List.mem_of_getElem? found
  have closed := h.closing.marked q listed (not_marking_of_named named)
  have length := (move.closed h.closing closed).2
  have less := (List.getElem?_eq_some_iff.mp job').1
  obtain ⟨j, job, later, -⟩ := (move.ages h.regular).before (length ▸ less) job'
  cases before : j.handle.future.stage.isStarted with
  | true => exact Or.inr ⟨j, job, before, later⟩
  | false => exact Or.inl (h.exposes found kind named job job' before started)

/-- A stop that rests has to explain what the worker has done meanwhile. -/
theorem Kept.rests {overtaken : Nat → Prop} (h : x.Kept w) (t : Turn) {i : Nat} {q : StopRequest}
    (found : x.traffic.stops[i]? = some q) (kind : q.kind = .immediate)
    (explained : Explained overtaken x.scanner.core q.phase)
    (exposed : t = .outside .work → ∀ n (j : Job ε), x.Exposes i n →
      (x.step w t).scanner.jobs[n]? = some j → j.handle.future.stage.isStarted = true →
      overtaken n) :
    Explained overtaken (x.step w t).scanner.core q.phase := by
  constructor
  · intro n idle j' job' started
    rcases h.started t found kind (Or.inl idle) job' started with now | ⟨j, job, before, -⟩
    · exact exposed now.1 n j' now.2 job' started
    · exact explained.idle n idle j job before
  · intro n doubted j' job' started
    rcases h.started t found kind (Or.inr doubted) job' started with now | ⟨j, job, before, later⟩
    · exact Or.inl (exposed now.1 n j' now.2 job' started)
    · exact (explained.doubted n doubted j job before).imp_right fun done => (later.done done).1

/-- Where a stop is after a turn. -/
theorem Moves.stops (move : Moves w x y) {i : Nat} {q' : StopRequest}
    (found : y.traffic.stops[i]? = some q') :
    x.traffic.stops[i]? = some q' ∨ q'.phase = .marking ∨
      ∃ q, x.traffic.stops[i]? = some q ∧ q'.kind = q.kind ∧
        q'.phase = (x.scanner.stopStep q.kind q.phase).1 ∧
        y.scanner = (x.scanner.stopStep q.kind q.phase).2.1 := by
  cases move with
  | rests | scans | answers _ _ _ _ _ | admits _ _ _ | awaits _ | looks => exact Or.inl found
  | works _ _ _ _ stops => exact Or.inl (stops ▸ found)
  | enters _ => exact Or.inl (goOn_stops _ _ ▸ found)
  | calls =>
      rcases getElem?_snoc_cases found with ⟨-, old⟩ | ⟨-, new⟩
      · exact Or.inl old
      · exact Or.inr (Or.inl (new ▸ rfl))
  | @winds k q found' free =>
      rcases getElem?_set_cases found with ⟨rfl, rfl⟩ | ⟨-, old⟩
      · exact Or.inr (Or.inr ⟨q, found', rfl, rfl, rfl⟩)
      · exact Or.inl old

theorem follow_explained (w : Surroundings ε) (capacity : Option Nat) (latched : Bool)
    (turns : List Turn) (i : Nat) (q : StopRequest)
    (found : ((fresh capacity latched).follow w turns).traffic.stops[i]? = some q)
    (kind : q.kind = .immediate) :
    Explained (Overtaken w (fresh capacity latched) turns i)
      ((fresh capacity latched).follow w turns).scanner.core q.phase := by
  -- From the end of the run: a job that the last turn starts was exposed by what came before.
  induction turns using List.reverseRecOn generalizing q with
  | nil => cases found
  | append_singleton turns t ih =>
      have kept := (kept_fresh w capacity latched).follow turns
      rw [follow_append] at found ⊢
      have move := step_moves w kept.regular t
      rcases move.stops found with same | marking | ⟨q₀, before, kind', phase, scanner⟩
      · have explained := (ih q same kind).mono fun n overtaken => overtaken.snoc t
        refine kept.rests t same kind explained ?_
        rintro rfl n j exposed job started
        exact ⟨turns, [], j, rfl, exposed, job, started⟩
      · rw [marking]
        exact .marking _ _
      · have explained := (ih q₀ before (kind'.symm.trans kind)).mono fun n overtaken =>
          overtaken.snoc t
        have next := explained.stopStep kept.regular.orderly q₀.kind
        rw [← phase, ← scanner] at next
        exact next

/-- What can be relied on when a stop that was to take effect at once has returned its report. A job
in it has started exactly if it was overtaken, and was told to stop then; any other never starts. -/
structure Candid (w : Surroundings ε) (x : Reception ε) (turns : List Turn) : Prop where
  started : ∀ (i : Nat) (q : StopRequest) idle, (x.follow w turns).traffic.stops[i]? = some q →
    q.kind = .immediate → q.phase = .over idle → ∀ n ∈ idle, ∀ j : Job ε,
    (x.follow w turns).scanner.jobs[n]? = some j →
    (j.handle.future.stage.isStarted = true ↔ Overtaken w x turns i n) ∧
      (j.handle.isDone = true ∨ j.handle.token.isCancelled = true)
  never : ∀ (i : Nat) (q : StopRequest) idle, (x.follow w turns).traffic.stops[i]? = some q →
    q.kind = .immediate → q.phase = .over idle → ∀ n ∈ idle, ¬Overtaken w x turns i n →
    ∀ (later : List Turn) (j : Job ε),
    ((x.follow w turns).follow w later).scanner.jobs[n]? = some j →
    j.handle.isCancelled = true ∧ j.walk = .fresh j.plan.root

theorem Handle.isCancelled_of_unstarted {κ : Type} {h : Handle κ} (past : h.future.stage ≠ .pending)
    (unstarted : h.future.stage.isStarted = false) : h.isCancelled = true := by
  cases stage : h.future.stage with
  | pending => exact absurd stage past
  | running | finished _ => simp [stage, Stage.isStarted] at unstarted
  | cancelled | cancelledNoted => simp [Handle.isCancelled, stage]

theorem follow_candid (w : Surroundings ε) (capacity : Option Nat) (latched : Bool)
    (turns : List Turn) : Candid w (fresh capacity latched) turns := by
  have kept := (kept_fresh w capacity latched).follow turns
  constructor
  · intro i q idle found kind phase n reported j job
    have explained := follow_explained w capacity latched turns i q found kind
    have listed := List.mem_of_getElem? found
    rw [phase] at explained
    refine ⟨⟨explained.idle n reported j job, fun overtaken => ?_⟩,
      (kept.stopped listed kind phase [] job).1⟩
    exact overtaken.started (kept_fresh w capacity latched) job
  · intro i q idle found kind phase n reported spared later j' job'
    have explained := follow_explained w capacity latched turns i q found kind
    have listed := List.mem_of_getElem? found
    have past : q.phase ≠ .marking := by simp [phase]
    have reaches := kept.told q listed kind past
    rw [phase] at explained reaches
    obtain ⟨-, j, job, only⟩ := kept.stopped listed kind phase later job'
    have unstarted : j'.handle.future.stage.isStarted = false := by
      by_contra started
      exact spared (explained.idle n reported j job (only (by simpa using started)))
    have length := kept.closed_follow (kept.closing.marked q listed past) later
    have less := (List.getElem?_eq_some_iff.mp job').1
    obtain ⟨a, found', -, onward⟩ := (kept.ages later).before (length ▸ less) job'
    have met := onward.left (reaches.met n a found' List.not_mem_nil)
    have orderly := (kept.follow later).regular.orderly
    exact ⟨Handle.isCancelled_of_unstarted met unstarted,
      (orderly.placed n j' job').untouched unstarted⟩

/-- Surroundings in which every path leads to a file. -/
def plain : Surroundings Unit where
  probe := ⟨fun _ => .ok ⟨.file, 0, 0, []⟩, fun _ => .ok [], fun _ _ => .ok none, fun _ => .ok none⟩
  make _ := .ok ()
  monitor := none
  supportsMarks _ := .ok false
  now := 0

/-- A root is submitted, a stop looks at its job, the worker runs the job and the stop goes on. -/
def overtaking : List Turn :=
    .outside (.set ⟨[], [], false, false, false, none⟩) :: .outside (.scan ⟨.here, ["a"]⟩) ::
      List.replicate 3 (.outside (.submit 0)) ++ List.replicate 3 .enter ++
      .outside (.stop .immediate) :: List.replicate 4 (.outside (.wind 0)) ++
      List.replicate 14 (.outside .work) ++ List.replicate 7 (.outside (.wind 0))

/-- It is not so that no job in a report ever starts, nor that none of them puts an entry. -/
theorem reported_jobs_may_start : ¬∀ (w : Surroundings Unit) (capacity : Option Nat)
    (latched : Bool) (turns : List Turn) (i : Nat) (q : StopRequest) (idle : List Nat),
    ((fresh capacity latched).follow w turns).traffic.stops[i]? = some q →
    q.kind = .immediate → q.phase = .over idle → ∀ n ∈ idle, ∀ j,
    ((fresh capacity latched).follow w turns).scanner.jobs[n]? = some j →
    j.handle.future.stage.isStarted = false ∧ j.walk.put = [] := by
  intro claim
  have stops : ((fresh none false).follow plain overtaking).traffic.stops.map
      (fun q => (q.kind, q.phase)) = [(.immediate, .over [0])] := by decide +kernel
  have jobs : ((fresh none false).follow plain overtaking).scanner.jobs.map
      (fun j => (j.handle.future.stage.isStarted, j.walk.put)) = [(true, [()])] := by decide +kernel
  obtain ⟨q, only, stop⟩ := List.map_eq_singleton_iff.mp stops
  obtain ⟨j, alone, ran⟩ := List.map_eq_singleton_iff.mp jobs
  obtain ⟨kind, phase⟩ := Prod.mk.inj stop
  obtain ⟨started, -⟩ := Prod.mk.inj ran
  have found : ((fresh none false).follow plain overtaking).traffic.stops[0]? = some q := by
    rw [only]
    rfl
  have job : ((fresh none false).follow plain overtaking).scanner.jobs[0]? = some j := by
    rw [alone]
    rfl
  have unstarted := (claim plain none false overtaking 0 q [0] found kind phase 0 (by simp) j job).1
  rw [started] at unstarted
  cases unstarted

end Reception
end FileCensus
