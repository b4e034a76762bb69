import FileCensus.Proofs.Calm
import FileCensus.Proofs.Shares

/-!
What a census in which nothing goes wrong has come to when its main thread takes no more entries:
every root has given its share, what was written are the entries of all shares, and the summary, from
when it is made, says so.
-/

namespace FileCensus

variable {ε : Type}

/-- A job that is done is not changed any more, as far as a report of it goes. -/
theorem Job.Later.report {j j' : Job ε} (later : j.Later j') {o : Outcome}
    (finished : j.handle.future.stage = .finished o) : j'.report = j.report := by
  have done : j.handle.isDone = true := by simp [Handle.isDone, Future.isDone, finished]
  rw [Job.report_concluded finished, Job.report_concluded (later.finished o finished), later.plan,
    (later.done done).2]

theorem Job.IsCalm.finished {j : Job ε} (calm : j.IsCalm) (done : j.handle.isDone = true) :
    ∃ o, j.handle.future.stage = .finished o := by
  have future := calm.future
  cases stage : j.handle.future.stage with
  | finished o => exact ⟨o, rfl⟩
  | pending | running => simp [Handle.isDone, Future.isDone, stage] at done
  | cancelled | cancelledNoted => simp [Future.isCancelled, stage] at future

namespace Core

variable {c c' : Core ε}

/-- Every job has come to an end by itself. -/
def Concluded (c : Core ε) : Prop :=
    ∀ (n : Nat) j, c.jobs[n]? = some j → ∃ o, j.handle.future.stage = .finished o

theorem Concluded.later (h : c.Concluded) (orderly : c.Orderly) (serves : c.Serves c') :
    ∀ (n : Nat) j, c.jobs[n]? = some j → ∃ j', c'.jobs[n]? = some j' ∧ j.Later j' := by
  intro n j job
  cases serves with
  | same jobs => exact ⟨j, by rw [jobs, job], .refl j⟩
  | moves move => exact move.later orderly job
  | registers add =>
      cases add with
      | lost _ | answers _ _ => exact ⟨j, job, .refl j⟩
      | joins job' undone =>
          obtain ⟨o, finished⟩ := h _ _ job'
          simp [Future.isDone, finished] at undone

theorem Serves.length (serves : c.Serves c') : c'.jobs.length = c.jobs.length := by
  have plans := congrArg List.length serves.plans
  simpa [Core.plans] using plans

theorem Concluded.reports (h : c.Concluded) (orderly : c.Orderly) (serves : c.Serves c') :
    c'.jobs.map (·.report) = c.jobs.map (·.report) := by
  refine List.ext_getElem? fun n => ?_
  rw [List.getElem?_map, List.getElem?_map]
  cases job : c.jobs[n]? with
  | none =>
      have few := List.getElem?_eq_none_iff.mp job
      rw [List.getElem?_eq_none (serves.length ▸ few)]
  | some j =>
      obtain ⟨o, finished⟩ := h n j job
      obtain ⟨j', job', later⟩ := h.later orderly serves n j job
      rw [job', Option.map_some, Option.map_some, later.report finished]

end Core

namespace Census

/-- Whether the summary has been made, if it was to be made. -/
def Stage.isReported : Stage → Bool
  | .stopping .. | .dismissing .. | .joining _ | .ended _ => true
  | _ => false

theorem Stage.isReported_of_isEnded {c : Census} (ended : c.isEnded = true) :
    c.stage.isReported = true := by
  rw [stage_of_isEnded ended]
  rfl

/-- From when it is made, the summary counts what was written and reports on every job. -/
def Summarised (c : Census) : Prop :=
    c.stage.isReported = true →
      c.summary = some ⟨c.written.length, c.scanner.jobs.map (·.report)⟩

/-- What a run keeps in which nothing goes wrong but walks. -/
structure Clean (p : Plan) (s : Settings) (fs : FileSystem) (c : Census) : Prop where
  runs : c.Runs p s fs
  calm : c.Calm
  recorded : c.Recorded
  summarised : c.Summarised

variable {p : Plan} {c : Census} {s : Settings} {fs : FileSystem}

/-- No job is left when the main thread takes no more entries, and nothing is on the queue. -/
structure Drained (c : Census) : Prop where
  concluded : c.core.Concluded
  written : c.written = c.scanner.jobs.flatMap (·.walk.put)
  queued : c.scanner.queued = c.written.length

theorem Runs.drained (h : c.Runs p s fs) (calm : c.core.Calm) (through : c.stage.isThrough = true) :
    c.Drained := by
  obtain ⟨seals, kept⟩ := h.kept
  obtain ⟨got, sound, taken⟩ := kept.sound
  have exhausted := kept.through through
  have sealed := sound.sealed_of_exhausted exhausted
  obtain ⟨due, faultless⟩ := Stage.of_through through
  rw [due] at sound
  have written : c.written = c.scanner.jobs.flatMap (·.walk.put) := by
    rw [← taken_of_through through, ← taken faultless, (sound.drained exhausted).2, Core.walks,
      List.map_map]
    rfl
  refine ⟨fun n j job => (calm n j job).finished (sound.done_of_sealed sealed job), written, ?_⟩
  have counted : (c.core.walks.map fun w => Walk.uncounted w.phase).sum = 0 :=
    sound.orderly.sum_phases Walk.uncounted rfl (fun _ => rfl)
      fun n j runs job => absurd runs (sound.not_running sealed)
  have total := sound.accounted.total
  rw [counted, Nat.add_zero, List.map_congr_left sound.accounted.queued] at total
  rw [written, List.length_flatMap]
  refine total.trans ?_
  rw [Core.walks, List.map_map]
  rfl

theorem filterMap_range {α β : Type} (l : List α) (f : α → β) :
    (List.range l.length).filterMap (fun n => (l[n]?).map f) = l.map f := by
  induction l using List.reverseRecOn with
  | nil => rfl
  | append_singleton l a ih =>
      have old : (List.range l.length).filterMap (fun n => ((l ++ [a])[n]?).map f) = l.map f := by
        rw [← ih]
        refine List.filterMap_congr fun n mem => ?_
        rw [List.getElem?_append_left (List.mem_range.mp mem)]
      rw [List.length_append, List.length_singleton, List.range_succ, List.filterMap_append, old]
      simp

theorem Clean.summarise (h : (c.go .summarising).Clean p s fs) :
    Summarised ({ c with summary := c.summarise.summary }.go (.stopping .closing .marking none)) := by
  intro _
  obtain ⟨seals, kept⟩ := h.runs.kept
  have drained := h.runs.drained h.calm.jobs rfl
  have queued : c.scanner.queued = c.written.length := drained.queued
  have numbered : c.accepted = List.range c.scanner.jobs.length :=
    (List.append_nil _).symm.trans kept.numbered
  change some _ = _
  rw [numbered, filterMap_range, queued]
  rfl

theorem Clean.through (h : c.Clean p s fs) (reported : c.stage.isReported = true) :
    c.stage.isThrough = true := by
  have calm := h.calm.stage
  cases stage : c.stage with
  | stopping exit progress cause =>
      rw [stage] at calm
      exact (Bool.and_eq_true_iff.mp calm).1
  | joining cause | ended cause =>
      rw [stage] at calm
      exact calm
  | dismissing _ _ _ _ =>
      rw [stage] at calm
      cases calm
  | _ =>
      rw [stage] at reported
      cases reported

theorem Clean.drained (h : c.Clean p s fs) (reported : c.stage.isReported = true) : c.Drained :=
  h.runs.drained h.calm.jobs (h.through reported)

/-- What has been summed up stays as it is. -/
theorem Clean.stays (h : c.Clean p s fs) (reported : c.stage.isReported = true) {c' : Census}
    (serves : c.core.Serves c'.core) (summary : c'.summary = c.summary)
    (writes : c'.writes = c.writes) : c'.Summarised := by
  intro _
  have drained := h.drained reported
  have reports : c'.scanner.jobs.map (·.report) = c.scanner.jobs.map (·.report) :=
    drained.concluded.reports h.runs.orderly serves
  rw [summary, written, writes, reports]
  exact h.summarised reported

/-- Only the summary has the main thread leave the scanner, unless there is a failure. -/
theorem Clean.summarises {c' : Census} (h : c.Clean p s fs) (turn : Proceeds p c c') :
    c'.Summarised := by
  have calm := h.calm
  cases turn with
  | rests _ _ => exact h.summarised
  | summarises c => exact h.summarise
  | handled c _ _ | left c _ _ | closed c _ _ | joins c _ _ =>
      exact h.stays rfl (.same rfl) rfl rfl
  | stops c exit progress cause _ _ =>
      exact h.stays rfl (.moves (c.scanner.stopStep_moves exit.kind progress)) rfl rfl
  | dismisses c exit progress cause going loud => exact absurd (calm.stops going).1 loud
  | refuses c _ _ _ | blames c _ | dismissed c _ _ _ | informs c _ _ _ _ _ => cases calm.stage
  | _ =>
      intro reported
      cases reported

theorem Clean.mainStep (h : c.Clean p s fs) (wf : fs.WellFormed)
    (reads : p.surroundings.probe.Reads fs)
    (plans : ∀ root ∈ p.roots, ∃ q, s.plan p.surroundings root = .ok q)
    (willing : ∀ e, c.stage = .writing e → p.refusal c.writes.length = none) :
    (c.mainStep p).Clean p s fs where
  runs := h.runs.step wf reads .main
  calm := h.calm.proceeds h.runs.ledger h.recorded plans willing (c.proceeds p)
  recorded := h.recorded.proceeds h.calm.admitted (c.proceeds p)
  summarised := h.summarises (c.proceeds p)

theorem Clean.workStep (h : c.Clean p s fs) (wf : fs.WellFormed)
    (reads : p.surroundings.probe.Reads fs) : c.workStep.Clean p s fs where
  runs := h.runs.step wf reads .worker
  calm := h.calm.workStep
  recorded := h.recorded.workStep
  summarised reported := h.stays reported c.scanner.workStep_serves rfl rfl reported

theorem Clean.follow (h : c.Clean p s fs) (wf : fs.WellFormed)
    (reads : p.surroundings.probe.Reads fs)
    (plans : ∀ root ∈ p.roots, ∃ q, s.plan p.surroundings root = .ok q)
    (willing : ∀ k, p.refusal k = none) (turns : List Turn) :
    (c.follow p turns).Clean p s fs := by
  induction turns generalizing c with
  | nil => exact h
  | cons t turns ih =>
      cases t with
      | main => exact ih (h.mainStep wf reads plans fun _ _ => willing _)
      | worker => exact ih (h.workStep wf reads)

theorem clean_start (p : Plan) (s : Settings) (fs : FileSystem) {capacity : Option Nat}
    (room : capacity ≠ some 0) {writer : Option Json.ArrayWriter}
    (fresh : ∀ w, writer = some w → w = .start) :
    (start { Scanner.fresh (.fresh capacity (some .fresh)) with settings := s } p.roots
      writer).Clean p s fs where
  runs := runs_start p s fs room writer
  calm := ⟨rfl, fun _ => ⟨rfl, rfl⟩, fun n j job => by cases job⟩
  recorded w some := by
    cases fresh w some
    exact Json.ArrayWriter.holds_start
  summarised reported := by cases reported

/-- The jobs are those of the roots, one for each. -/
theorem Runs.length_eq (h : c.Runs p s fs) (through : c.stage.isThrough = true) :
    c.scanner.jobs.length = p.roots.length := by
  obtain ⟨seals, kept⟩ := h.kept
  obtain ⟨got, sound, -⟩ := kept.sound
  have sealed := sound.sealed_of_exhausted (kept.through through)
  have numbered := congrArg List.length kept.numbered
  have fits := kept.fits
  have none_entered : c.stage.entered = [] := by
    cases stage : c.stage <;> simp [stage, Stage.isThrough, Stage.entered] at through ⊢
  rw [none_entered, List.append_nil, List.length_range] at numbered
  have few : ¬p.roots.length < c.scanner.jobs.length := by
    intro more
    have plan : c.core.plans[p.roots.length]? = some (c.scanner.jobs[p.roots.length]).plan := by
      rw [Core.plans, List.getElem?_map]
      exact congrArg _ (List.getElem?_eq_getElem more)
    obtain ⟨root, missing, -⟩ := h.ledger.booked.plans _ _ plan
    simp at missing
  have all : ¬c.accepted.length < p.roots.length := by
    intro fewer
    have grouped := sound.counted
    cases stage : c.stage with
    | closing _ | summarising =>
        rw [Fits, stage] at fits
        exact Nat.ne_of_lt fewer fits
    | stopping _ _ _ | dismissing _ _ _ _ | joining _ | ended _ =>
        have ungrouped : c.group p = none := by simp only [group, stage, fewer, if_true]
        rw [ungrouped] at grouped
        have unsealed := Core.Ungrouped.unsealed grouped
        omega
    | submitting _ _ | grouping | registering _ _ | telling _ _ _ | waiting | taking | writing _ =>
        rw [stage] at through
        cases through
  omega

/-- A job that has come to its own end has given the share of its root. -/
theorem Runs.share (h : c.Runs p s fs) (calm : c.core.Calm) {n : Nat} {j : Job FileEntry}
    (job : c.scanner.jobs[n]? = some j) (done : j.handle.isDone = true) :
    ∃ root, p.roots[n]? = some root ∧
      IsShare s p.surroundings root ⟨j.walk.put, j.report⟩ := by
  obtain ⟨o, finished⟩ := (calm n j job).finished done
  have ended : j.walk.phase = .ended o := (h.orderly.placed n j job).finished o finished
  have plans : c.core.plans[n]? = some j.plan := by
    rw [Core.plans, List.getElem?_map, show c.core.jobs[n]? = some j from job]
    rfl
  obtain ⟨root, found, plan⟩ := h.ledger.booked.plans n _ plans
  have apart := h.ledger.booked.separate n j job
  rw [(calm n j job).token] at apart
  have share := IsShare.walked plan (Plan.comesTo_of_apart apart ended) (Walk.settled_of_ended ended)
  rw [Walk.settled_put, ← Job.report_concluded finished] at share
  exact ⟨root, found, share⟩

/-- Every root has given its share once the main thread takes no more entries. -/
theorem Clean.shares (h : c.Clean p s fs) (through : c.stage.isThrough = true)
    {shares : List Share} (given : List.Forall₂ (IsShare s p.surroundings) p.roots shares) :
    c.scanner.jobs.map (fun j => Share.mk j.walk.put j.report) = shares := by
  have drained := h.runs.drained h.calm.jobs through
  have all : List.Forall₂ (IsShare s p.surroundings) p.roots
      (c.scanner.jobs.map fun j => Share.mk j.walk.put j.report) := by
    rw [List.forall₂_map_right_iff, List.forall₂_iff_get]
    refine ⟨(h.runs.length_eq through).symm, fun n few few' => ?_⟩
    have job : c.scanner.jobs[n]? = some c.scanner.jobs[n] := List.getElem?_eq_getElem few'
    obtain ⟨o, finished⟩ := drained.concluded n _ job
    have done : c.scanner.jobs[n].handle.isDone = true := by
      simp [Handle.isDone, Future.isDone, finished]
    obtain ⟨root, found, share⟩ := h.runs.share h.calm.jobs job done
    cases found.symm.trans (List.getElem?_eq_getElem few)
    exact share
  have unique : Relator.RightUnique (IsShare s p.surroundings) := fun _ _ _ => IsShare.unique
  exact unique.forall₂ all given

/-- So what was written is what the roots give one after the other, and the summary says so. -/
theorem Clean.delivers (h : c.Clean p s fs) (reported : c.stage.isReported = true)
    {shares : List Share} (given : List.Forall₂ (IsShare s p.surroundings) p.roots shares) :
    c.written = Share.concat shares ∧
      c.summary = some ⟨c.written.length, shares.map (·.report)⟩ := by
  have through := h.through reported
  have same := h.shares through given
  rw [h.summarised reported, (h.drained reported).written, ← same, Share.concat, List.flatMap_map,
    List.map_map]
  exact ⟨rfl, rfl⟩

end Census
end FileCensus
