import FileCensus.Proofs.Balance
import FileCensus.Proofs.Stopping

/-!
A census with everybody who takes part in it: the main thread, the worker, and whoever cancels jobs
meanwhile. The latch is sealed once, by the callback of the job that is the last to be done or, if
there is no job, by the main thread; so every signal is accepted, and the main thread stops taking
entries when it has taken all. If the queue has any room, the main thread and the worker never wait
for each other. How long the walks go on is left open, and so is whether they end.
-/

namespace FileCensus

namespace Census

namespace Stage

/-- The callbacks that the main thread has still to run. -/
def calls : Stage → List Call
  | .telling calls _ _ | .dismissing calls _ _ _ => calls
  | _ => []

/-- One if a signal has been taken whose entry has not. -/
def due : Stage → Nat
  | .taking => 1
  | _ => 0

def cause : Stage → Option Failure
  | .closing cause | .stopping _ _ cause | .dismissing _ _ _ cause | .joining cause
  | .ended cause => cause
  | _ => none

/-- The job that has been submitted but whose number has not been noted yet. -/
def entered : Stage → List Nat
  | .submitting (_ :: _) (.accepted n) => [n]
  | _ => []

/-- Whether the main thread takes no more entries, and not because of a failure. -/
def isThrough : Stage → Bool
  | .closing cause | .stopping _ _ cause | .dismissing _ _ _ cause | .joining cause
  | .ended cause => cause.isNone
  | .summarising => true
  | _ => false

end Stage

theorem stage_of_isEnded {c : Census} (ended : c.isEnded = true) :
    c.stage = .ended c.stage.cause := by
  cases stage : c.stage with
  | ended cause => rfl
  | _ => simp [isEnded, stage] at ended

/-- What has been taken from the queue, unless an entry could not be written. -/
def taken (c : Census) : List FileEntry :=
    match c.stage with
    | .writing e => c.written ++ [e]
    | _ => c.written

theorem Stage.of_through {stage : Stage} (h : stage.isThrough = true) :
    stage.due = 0 ∧ stage.cause = none := by
  cases stage with
  | closing _ | stopping _ _ _ | dismissing _ _ _ _ | joining _ | ended _ =>
      exact ⟨rfl, Option.isNone_iff_eq_none.mp h⟩
  | summarising => exact ⟨rfl, rfl⟩
  | submitting _ _ | grouping | registering _ _ | telling _ _ _ | waiting | taking | writing _ =>
      cases h

theorem taken_of_through {c : Census} (h : c.stage.isThrough = true) : c.taken = c.written := by
  unfold taken
  split
  · next stage =>
    rw [stage] at h
    cases h
  · rfl

/-- The jobs that have still to be given their callback, once there is a group. -/
def group (p : Plan) (c : Census) : Option (List Nat) :=
    match c.stage with
    | .submitting _ _ | .grouping => none
    | .registering left _ | .telling _ left _ => some left
    | .waiting | .taking | .writing _ | .closing _ | .summarising => some []
    | .stopping _ _ _ | .dismissing _ _ _ _ | .joining _ | .ended _ =>
        if c.accepted.length < p.roots.length then none else some []

/-- How often the next step of the main thread seals the latch. -/
def sealing (c : Census) : Nat :=
    match c.stage with
    | .grouping => if c.accepted.length = 0 then 1 else 0
    | stage => sealsAt (stage.calls.map (·.2))

/-- How far the submission of the roots has come, and which group is counted. -/
def Fits (p : Plan) (c : Census) : Prop :=
    match c.stage with
    | .submitting left _ => c.accepted.length + left.length = p.roots.length
    | .registering _ group | .telling _ _ group =>
        c.accepted.length = p.roots.length ∧ group = 0
    | .grouping | .waiting | .taking | .writing _ | .closing _ | .summarising =>
        c.accepted.length = p.roots.length
    | .stopping _ _ _ | .dismissing _ _ _ _ | .joining _ | .ended _ => True

def core (c : Census) : Core FileEntry :=
    c.scanner.core

end Census

namespace Scanner

variable (s : Scanner FileEntry)

theorem perform_sound {got : List FileEntry} {due seals : Nat} {others : Callback → Nat}
    {call : Call} {rest : List Call} {group : Option (List Nat)}
    (h : s.core.Sound got due (fun k => callsOf k (call :: rest) + others k) seals group) :
    (s.perform call).1.core.Sound got due
      (fun k => callsOf k ((s.perform call).2 ++ rest) + others k) (seals + sealsAt [call.2])
      group := by
  refine h.performs (s.perform_performs call) fun k => ?_
  have first := callsOf_cons k (call.1, call.2) rest
  change callsOf k (call :: rest) = _ at first
  rw [callsOf_append]
  omega

/-- A worker that is blocked has an entry for a queue that is full, and nobody has told it to
stop. -/
theorem isBlocked_true {s : Scanner FileEntry} (blocked : s.isBlocked = true) :
    ∃ n j path e, s.worker = .running n ∧ s.jobs[n]? = some j ∧ j.walk.phase = .offering path e ∧
      s.channel.isFull = true ∧ j.handle.token.isCancelled = false := by
  simp only [isBlocked] at blocked
  split at blocked
  · cases blocked
  · next j current =>
    split at blocked
    · next path e phase =>
      simp only [Bool.and_eq_true, Bool.not_eq_true'] at blocked
      simp only [current?] at current
      split at current
      · next n runs => exact ⟨n, j, path, e, runs, current, phase, blocked.1.1, blocked.1.2⟩
      · cases current
    · cases blocked

end Scanner

namespace Census

/-- What every turn keeps; `others` are the callbacks that others than the main thread and the
worker owe. -/
structure Kept (p : Plan) (others : Callback → Nat) (seals : Nat) (c : Census) : Prop where
  sound : ∃ got,
    c.core.Sound got c.stage.due (fun k => callsOf k c.stage.calls + others k) seals (c.group p) ∧
      (c.stage.cause = none → got = c.taken)
  numbered : c.accepted ++ c.stage.entered = List.range c.scanner.jobs.length
  fits : c.Fits p
  through : c.stage.isThrough = true → c.core.Exhausted

variable {p : Plan} {others others' : Callback → Nat} {seals seals' : Nat} {c : Census}

/-- Nothing but the scanner has changed. -/
theorem Kept.withScanner (h : c.Kept p others seals) {s : Scanner FileEntry}
    (sound : ∀ got,
      c.core.Sound got c.stage.due (fun k => callsOf k c.stage.calls + others k) seals (c.group p) →
        s.core.Sound got c.stage.due (fun k => callsOf k c.stage.calls + others' k) seals'
          (c.group p))
    (length : s.jobs.length = c.scanner.jobs.length)
    (exhausted : c.core.Exhausted → s.core.Exhausted) :
    Kept p others' seals' { c with scanner := s } where
  sound := by
    obtain ⟨got, before, taken⟩ := h.sound
    exact ⟨got, sound got before, taken⟩
  numbered := by
    simp only [length]
    exact h.numbered
  fits := h.fits
  through through := exhausted (h.through through)

theorem Kept.workStep (h : c.Kept p others seals) :
    c.workStep.Kept p others (seals + sealsAt c.scanner.worker.callbacks) := by
  obtain ⟨_, sound, -⟩ := h.sound
  rcases c.scanner.workStep_cases with ⟨none, move⟩ | tell
  · rw [none]
    apply h.withScanner
    · exact fun _ sound => sound.moves move fun _ => rfl
    · exact move.length
    · exact fun exhausted => sound.exhausted_moves exhausted move
  · apply h.withScanner
    · exact fun _ sound => sound.tells tell
    · exact tell.length
    · exact fun exhausted => exhausted.tells tell

/-- A step of a request to cancel a job. -/
theorem Kept.request (h : c.Kept p others seals) (q : CancelRequest)
    (total : ∀ k, others' k + callsOf k q.calls = others k + callsOf k (q.step c.scanner).1.calls) :
    Kept p others' (seals + sealsAt (q.calls.map (·.2)))
      { c with scanner := (q.step c.scanner).2 } := by
  obtain ⟨_, sound, -⟩ := h.sound
  cases calls : q.calls with
  | nil =>
      have move := c.scanner.cancelStep_moves q.job q.phase
      simp only [CancelRequest.step, calls] at total ⊢
      apply h.withScanner
      · exact fun _ sound => sound.moves move fun k => by rw [Nat.add_assoc, ← total k]; rfl
      · exact move.length
      · exact fun exhausted => sound.exhausted_moves exhausted move
  | cons call rest =>
      obtain ⟨n, k⟩ := call
      have perf := c.scanner.perform_performs (n, k)
      simp only [CancelRequest.step, calls] at total ⊢
      apply h.withScanner
      · intro got sound
        refine sound.performs (k := k) perf fun k' => ?_
        have paid := total k'
        rw [callsOf_cons, callsOf_append] at paid
        omega
      · exact perf.length
      · exact fun exhausted => exhausted.performs perf

theorem Kept.submits (h : c.Kept p others seals) {root : Path} {rest : List Path}
    {submission : Submission FileEntry} (stage : c.stage = .submitting (root :: rest) submission)
    (unanswered : ∀ n, submission ≠ .accepted n) :
    Kept p others seals
      ({ c with scanner := (c.scanner.submitStep p.surroundings root submission).2 }.go
        (.submitting (root :: rest) (c.scanner.submitStep p.surroundings root submission).1)) := by
  obtain ⟨got, sound, taken⟩ := h.sound
  obtain ⟨scanner, _, accepted, writer, writes, summary⟩ := c
  cases stage
  have numbered : accepted = List.range scanner.jobs.length := by
    have before := h.numbered
    cases submission with
    | accepted n => exact absurd rfl (unanswered n)
    | asking | preparing | entering _ | refused _ =>
        exact (List.append_nil accepted).symm.trans before
  rcases scanner.submitStep_cases p.surroundings root submission with
    ⟨same, before⟩ | ⟨q, entered, answer⟩
  · refine ⟨⟨got, ?_, taken⟩, ?_, h.fits, nofun⟩
    · simp only [Census.core, go, same]
      exact sound
    · have jobs : (scanner.submitStep p.surroundings root submission).2.jobs = scanner.jobs :=
        congrArg Core.jobs same
      simp only [go, jobs]
      cases after : (scanner.submitStep p.surroundings root submission).1 with
      | accepted n => exact absurd (before n after) (unanswered n)
      | asking | preparing | entering _ | refused _ =>
          exact (List.append_nil accepted).trans numbered
  · refine ⟨⟨got, ?_, taken⟩, ?_, h.fits, nofun⟩
    · simp only [Census.core, go, entered]
      exact sound.enters q
    · have jobs : (scanner.submitStep p.surroundings root submission).2.jobs =
          scanner.jobs ++ [.fresh q] := congrArg Core.jobs entered
      simp only [go, jobs, answer, Stage.entered]
      rw [List.length_append, List.length_singleton, List.range_succ, ← numbered]

theorem Kept.groups (h : (c.go .grouping).Kept p others seals) :
    Kept p others (seals + (c.go .grouping).sealing)
      ({ c with scanner := (c.scanner.startGroup c.accepted.length).1 }.go
        (.registering c.accepted (c.scanner.startGroup c.accepted.length).2)) := by
  obtain ⟨got, sound, taken⟩ := h.sound
  have numbered : c.accepted = List.range c.scanner.jobs.length :=
    (List.append_nil c.accepted).symm.trans h.numbered
  have size : c.accepted.length = c.scanner.jobs.length := by rw [numbered, List.length_range]
  have first : c.scanner.countdowns = [] := Core.Ungrouped.countdowns sound.counted
  have jobs := c.scanner.startGroup_jobs c.accepted.length
  refine ⟨⟨got, ?_, taken⟩, ?_, ⟨h.fits, ?_⟩, nofun⟩
  · change (c.scanner.startGroup c.accepted.length).1.core.Sound got 0 _
      (seals + if c.accepted.length = 0 then 1 else 0) (some c.accepted)
    rw [c.scanner.startGroup_core c.accepted.length, size, numbered]
    exact sound.groups
  · exact h.numbered.trans (congrArg (fun jobs => List.range jobs.length) jobs.symm)
  · rw [c.scanner.startGroup_number, first, List.length_nil]

/-- A census that is through with the entries has used the latch up. -/
theorem Kept.exhausts (h : (c.go .waiting).Kept p others seals)
    (exhausted : ∀ l, c.scanner.channel.latch = some l → l.isExhausted = true) :
    (c.go (.closing none)).Kept p others seals := by
  obtain ⟨got, sound, taken⟩ := h.sound
  obtain ⟨l, latch, -⟩ := sound.counted.latch
  exact ⟨⟨got, sound, taken⟩, h.numbered, h.fits, fun _ => ⟨l, latch, exhausted l latch⟩⟩

/-- What a census makes of an entry does not matter to its jobs. -/
theorem Kept.writes {e : FileEntry} (h : (c.go (.writing e)).Kept p others seals)
    (writer : Option Json.ArrayWriter) :
    Kept p others seals ({ c with writes := e :: c.writes, writer := writer }.go .waiting) := by
  obtain ⟨got, sound, taken⟩ := h.sound
  refine ⟨⟨got, sound, fun faultless => ?_⟩, h.numbered, h.fits, nofun⟩
  exact (taken faultless).trans (List.reverse_cons).symm

/-- The main thread leaves the scanner when all roots have been submitted. -/
theorem sound_leaving {c : Census} {got : List FileEntry} {out : Callback → Nat} {exit : Exit}
    {progress : Stopping} {cause : Option Failure} (fits : c.accepted.length = p.roots.length)
    (sound : c.core.Sound got 0 out seals (some [])) :
    c.core.Sound got 0 out seals ((c.go (.stopping exit progress cause)).group p) := by
  have whole : ¬c.accepted.length < p.roots.length := Nat.not_lt_of_ge (Nat.le_of_eq fits.symm)
  simp only [group, go, whole, if_false]
  exact sound

theorem sealing_of_still (still : c.isWaiting = true ∨ c.isEnded = true) : c.sealing = 0 := by
  cases stage : c.stage with
  | waiting | taking | joining _ | ended _ =>
      simp only [sealing, stage]
      rfl
  | _ => simp [isWaiting, isEnded, stage] at still

theorem Kept.proceeds {c' : Census} (h : c.Kept p others seals) (turn : Proceeds p c c') :
    c'.Kept p others (seals + c.sealing) := by
  obtain ⟨got, sound, taken⟩ := h.sound
  cases turn with
  | rests c still =>
      rw [sealing_of_still still]
      exact h
  | submitted c _ => exact ⟨h.sound, h.numbered, h.fits, Bool.false_ne_true.elim⟩
  | accepts c root rest n =>
      have left_eq : c.accepted.length + (root :: rest).length = p.roots.length := h.fits
      refine ⟨h.sound, ?_, ?_, Bool.false_ne_true.elim⟩
      · cases rest with
        | nil | cons _ _ => exact (List.append_nil _).trans h.numbered
      · change (c.accepted ++ [n]).length + rest.length = p.roots.length
        rw [List.length_append, List.length_singleton, Nat.add_assoc, Nat.add_comm 1]
        exact left_eq
  | refuses c root rest f =>
      have left_eq : c.accepted.length + (root :: rest).length = p.roots.length := h.fits
      have fewer : c.accepted.length < p.roots.length := by
        rw [List.length_cons] at left_eq
        omega
      refine ⟨⟨got, ?_, (Option.some_ne_none f).elim⟩, h.numbered, trivial,
        Bool.false_ne_true.elim⟩
      simp only [group, go, fewer, if_true]
      exact sound
  | submits c root rest submission unanswered _ => exact h.submits rfl unanswered
  | groups c => exact h.groups
  | registered c group => exact ⟨h.sound, h.numbered, h.fits.1, Bool.false_ne_true.elim⟩
  | registers c n left group =>
      obtain ⟨whole, rfl⟩ := h.fits
      have add := c.scanner.addCallback_registers n (.countDown 0)
      refine ⟨⟨got, ?_, taken⟩, ?_, ⟨whole, rfl⟩, Bool.false_ne_true.elim⟩
      · refine sound.registers add fun k => ?_
        change callsOf k (c.scanner.addCallback n (.countDown 0)).2 + others k =
          0 + others k + callsOf k (c.scanner.addCallback n (.countDown 0)).2
        omega
      · exact h.numbered.trans (congrArg List.range add.length.symm)
  | told c left group => exact ⟨h.sound, h.numbered, h.fits, Bool.false_ne_true.elim⟩
  | tells c call rest left group =>
      have perf := c.scanner.perform_performs call
      refine ⟨⟨got, c.scanner.perform_sound sound, taken⟩, ?_, h.fits, Bool.false_ne_true.elim⟩
      exact h.numbered.trans (congrArg List.range perf.length.symm)
  | signalled c l n latch pending =>
      exact ⟨⟨got, sound.waits latch pending, taken⟩, h.numbered, h.fits, Bool.false_ne_true.elim⟩
  | exhausts c exhausted => exact h.exhausts exhausted
  | takes c e rest items =>
      have first : c.scanner.channel.get? = some (e, { c.scanner.channel with items := rest }) := by
        rw [Channel.get?, items]
      refine ⟨⟨_, Core.Sound.gets sound first, fun faultless => ?_⟩, h.numbered, h.fits,
        Bool.false_ne_true.elim⟩
      exact congrArg (· ++ [e]) (taken faultless)
  | prints c e _ _ => exact h.writes c.writer
  | appends c e w w' _ _ _ => exact h.writes (some w')
  | fails c e f _ =>
      exact ⟨⟨got, sound, (Option.some_ne_none f).elim⟩, h.numbered, h.fits,
        Bool.false_ne_true.elim⟩
  | closes c => exact ⟨h.sound, h.numbered, h.fits, h.through⟩
  | blames c f =>
      exact ⟨⟨got, sound_leaving h.fits sound, (Option.some_ne_none f).elim⟩, h.numbered, trivial,
        Bool.false_ne_true.elim⟩
  | summarises c =>
      exact ⟨⟨got, sound_leaving h.fits sound, taken⟩, h.numbered, trivial, h.through⟩
  | handled c _ _ | left c _ _ | closed c _ _ | dismissed c _ _ _ | joins c _ _ =>
      exact ⟨h.sound, h.numbered, trivial, h.through⟩
  | stops c exit progress cause _ quiet =>
      have move := c.scanner.stopStep_moves exit.kind progress
      rw [quiet] at move
      exact ⟨⟨got, sound.moves move fun _ => rfl, taken⟩,
        h.numbered.trans (congrArg List.range move.length.symm), trivial,
        fun through => sound.exhausted_moves (h.through through) move⟩
  | dismisses c exit progress cause _ _ =>
      have move := c.scanner.stopStep_moves exit.kind progress
      refine ⟨⟨got, sound.moves move fun k => ?_, taken⟩,
        h.numbered.trans (congrArg List.range move.length.symm), trivial,
        fun through => sound.exhausted_moves (h.through through) move⟩
      change callsOf k (c.scanner.stopStep exit.kind progress).2.2 + others k =
        0 + others k + callsOf k (c.scanner.stopStep exit.kind progress).2.2
      omega
  | informs c call rest exit progress cause =>
      have perf := c.scanner.perform_performs call
      refine ⟨⟨got, c.scanner.perform_sound sound, taken⟩, ?_, trivial, ?_⟩
      · exact h.numbered.trans (congrArg List.range perf.length.symm)
      · exact fun through => (h.through through).performs perf

theorem Kept.prompt (h : c.Kept p others seals) (stage : c.stage = .taking) :
    ∃ e rest, c.scanner.channel.items = e :: rest := by
  obtain ⟨got, sound, -⟩ := h.sound
  rw [stage] at sound
  exact Core.Sound.items_of_due sound

/-- While the main thread waits for a signal there is room on the queue. -/
theorem Kept.room (h : c.Kept p others seals) (stage : c.stage = .waiting)
    (waits : c.isWaiting = true) (room : c.scanner.channel.capacity ≠ some 0) :
    c.scanner.isBlocked = false := by
  obtain ⟨got, sound, -⟩ := h.sound
  obtain ⟨l, latch, balance⟩ := sound.balanced
  have found : c.scanner.channel.latch = some l := latch
  simp only [isWaiting, stage, found, Option.any_some, Latch.blocks, Bool.and_eq_true,
    decide_eq_true_eq] at waits
  by_contra blocked
  obtain ⟨n, j, path, e, runs, job, phase, full, -⟩ :=
    Scanner.isBlocked_true (by simpa using blocked)
  have signalled : c.core.unsignalled = 0 := by
    refine sound.orderly.sum_phases Walk.unsignalled rfl (fun _ => rfl) fun n' j' runs' job' => ?_
    cases runs.symm.trans runs'
    cases job.symm.trans job'
    rw [phase]
    rfl
  have empty : c.scanner.channel.items.length = 0 := by
    rw [stage, waits.1, signalled] at balance
    exact balance
  simp only [Channel.isFull, empty] at full
  split at full
  · next capacity limit => exact room (by simpa [limit] using full)
  · cases full

/-- A job that runs when the main thread has left the scanner has been told to stop. -/
theorem Kept.unblocked (h : c.Kept p others seals) {cause : Option Failure}
    (through : cause.isNone = true → c.core.Exhausted)
    (flagged : c.core.Flagged (if cause.isSome then [] else c.scanner.stoppable)) :
    c.scanner.isBlocked = false := by
  obtain ⟨got, sound, -⟩ := h.sound
  by_contra blocked
  obtain ⟨n, j, path, e, runs, job, -, -, unflagged⟩ :=
    Scanner.isBlocked_true (by simpa using blocked)
  cases cause with
  | none => exact sound.not_running (sound.sealed_of_exhausted (through rfl)) runs
  | some f =>
      obtain ⟨j', job', running⟩ := sound.orderly.busy n runs
      cases job.symm.trans job'
      rcases flagged n j job (List.not_mem_nil) with done | told
      · simp [Handle.isDone, Future.isDone, running] at done
      · rw [unflagged] at told
        cases told

theorem Kept.unblocked_of_rests (h : c.Kept p others seals) (heeded : c.Heeded)
    (rests : c.isEnded = true ∨ c.isWaiting = true)
    (room : c.scanner.channel.capacity ≠ some 0) : c.scanner.isBlocked = false := by
  have prompt := h.prompt
  have kept := h
  have through := h.through
  have flagged := heeded.flagged
  obtain ⟨scanner, stage, accepted, writer, writes, summary⟩ := c
  cases stage with
  | ended cause => exact kept.unblocked through flagged
  | joining cause => exact kept.unblocked through flagged
  | waiting => exact kept.room rfl (rests.resolve_left nofun) room
  | taking =>
      obtain ⟨e, rest, items⟩ := prompt rfl
      simp only at items
      simp [isEnded, isWaiting, items] at rests
  | submitting _ _ | grouping | registering _ _ | telling _ _ _ | writing _ | closing _
  | summarising | stopping _ _ _ | dismissing _ _ _ _ => simp [isEnded, isWaiting] at rests

/-- When the worker is idle and no callback is left with anybody else, the group has been counted
down. -/
theorem Kept.sealed_of_idle (h : c.Kept p others seals) (idle : c.scanner.isIdle = true)
    (counted : c.group p = some []) (told : c.stage.calls = []) (none : ∀ k, others k = 0) :
    seals = 1 := by
  obtain ⟨got, sound, -⟩ := h.sound
  simp only [Scanner.isIdle, Bool.and_eq_true, decide_eq_true_eq, List.isEmpty_iff] at idle
  have paid := sound.orderly.debt_of_idle idle
  have grouped := sound.counted
  rw [counted] at grouped
  have sealing := Core.Grouped.sealing grouped
  simp only [paid, told, none, callsOf] at sealing
  simpa using sealing

theorem Kept.ended_of_idle (h : c.Kept p others seals) (idle : c.scanner.isIdle = true)
    (none : ∀ k, others k = 0) (rests : c.isEnded = true ∨ c.isWaiting = true) :
    c.isEnded = true ∧ (c.accepted.length = p.roots.length → seals = 1) := by
  have sealed := h.sealed_of_idle idle
  obtain ⟨got, sound, -⟩ := h.sound
  obtain ⟨l, latch, closes⟩ := sound.counted.latch
  have prompt := h.prompt
  obtain ⟨scanner, stage, accepted, writer, writes, summary⟩ := c
  cases stage with
  | ended cause =>
      refine ⟨rfl, fun whole => sealed ?_ rfl none⟩
      exact if_neg (Nat.not_lt_of_ge (Nat.le_of_eq whole.symm))
  | waiting =>
      have closed := closes.mpr (sealed rfl rfl none)
      have found : scanner.channel.latch = some l := latch
      simp [isEnded, isWaiting, found, Latch.blocks, closed] at rests
  | taking =>
      obtain ⟨e, rest, items⟩ := prompt rfl
      simp only at items
      simp [isEnded, isWaiting, items] at rests
  | joining cause =>
      simp only at idle
      simp [isEnded, isWaiting, idle] at rests
  | submitting _ _ | grouping | registering _ _ | telling _ _ _ | writing _ | closing _
  | summarising | stopping _ _ _ | dismissing _ _ _ _ => simp [isEnded, isWaiting] at rests

end Census

/-- A census with the requests to cancel its jobs; the seals count how often the latch has been
sealed. -/
structure Drain where
  census : Census
  requests : List CancelRequest
  seals : Nat

inductive Drain.Turn where
  | main
  | worker
  | cancel (job : Nat)
  | goOn (i : Nat)

namespace Drain

def start (p : Census.Plan) (capacity : Option Nat) (settings : Settings)
    (writer : Option Json.ArrayWriter) : Drain where
  census := .start { Scanner.fresh (.fresh capacity (some .fresh)) with settings := settings }
    p.roots writer
  requests := []
  seals := 0

def step (p : Census.Plan) (x : Drain) : Turn → Drain
  | .main => { x with census := x.census.step p .main, seals := x.seals + x.census.sealing }
  | .worker => { x with
      census := x.census.step p .worker
      seals := x.seals + sealsAt x.census.scanner.worker.callbacks }
  | .cancel job => { x with requests := x.requests ++ [⟨job, .asking, []⟩] }
  | .goOn i =>
      match x.requests[i]? with
      | none => x
      | some q =>
          let (q', scanner) := q.step x.census.scanner
          { census := { x.census with scanner := scanner }
            requests := x.requests.set i q'
            seals := x.seals + sealsAt (q.calls.map (·.2)) }

def follow (p : Census.Plan) (turns : List Turn) (x : Drain) : Drain :=
    turns.foldl (fun x t => x.step p t) x

/-- Nobody can do anything but wait for somebody else. -/
def IsComplete (x : Drain) : Prop :=
    (x.census.scanner.isIdle = true ∨ x.census.scanner.isBlocked = true) ∧
      (∀ q ∈ x.requests, q.calls = []) ∧
      (x.census.isEnded = true ∨ x.census.isWaiting = true)

/-- What holds of the latch and of what is taken from the queue at every moment. -/
structure SealsOnce (p : Census.Plan) (x : Drain) : Prop where
  once : x.seals ≤ 1
  latch : ∃ l, x.census.scanner.channel.latch = some l ∧ (l.isSealed = true ↔ x.seals = 1)
  done : x.seals = 1 → ∀ j ∈ x.census.scanner.jobs, j.handle.isDone = true
  signals : ∀ n, x.census.scanner.worker = .running n →
    ∃ channel, x.census.scanner.channel.signal = .ok channel
  prompt : x.census.stage = .taking → ∃ e channel, x.census.scanner.channel.get? = some (e, channel)
  whole : x.census.stage.cause = none →
    x.census.taken ++ x.census.scanner.channel.items =
      x.census.scanner.jobs.flatMap (·.walk.put)
  drained : x.census.stage.isThrough = true → x.seals = 1 ∧
    x.census.scanner.channel.items = [] ∧
      x.census.written = x.census.scanner.jobs.flatMap (·.walk.put)
  complete : x.IsComplete → x.census.scanner.channel.capacity ≠ some 0 →
    x.census.isEnded = true ∧ x.census.scanner.isIdle = true ∧
      (x.census.accepted.length = p.roots.length → x.seals = 1)

variable {p : Census.Plan} {x : Drain}

def others (x : Drain) (k : Callback) : Nat :=
    (x.requests.map fun q => callsOf k q.calls).sum

theorem others_of_none (x : Drain) (none : ∀ q ∈ x.requests, q.calls = []) (k : Callback) :
    x.others k = 0 := by
  apply List.sum_eq_zero
  intro v hv
  obtain ⟨q, hq, rfl⟩ := List.mem_map.mp hv
  rw [none q hq]
  rfl

structure Kept (p : Census.Plan) (x : Drain) : Prop where
  census : x.census.Kept p x.others x.seals
  heeded : x.census.Heeded

theorem Kept.orderly (h : x.Kept p) : x.census.scanner.core.Orderly := by
  obtain ⟨got, sound, -⟩ := h.census.sound
  exact sound.orderly

theorem Kept.step (h : x.Kept p) (t : Turn) : (x.step p t).Kept p := by
  cases t with
  | main => 
      have turn := x.census.proceeds p
      exact ⟨h.census.proceeds turn, h.heeded.proceeds h.orderly turn⟩
  | worker => exact ⟨h.census.workStep, h.heeded.workStep h.orderly⟩
  | cancel job =>
      have same : (x.step p (.cancel job)).others = x.others := by
        funext k
        simp [Drain.step, others, callsOf]
      refine ⟨?_, h.heeded⟩
      rw [same]
      exact h.census
  | goOn i =>
      simp only [Drain.step]
      split
      · exact h
      · next q found =>
        refine ⟨h.census.request q fun k => ?_, h.heeded.request h.orderly q⟩
        have calls : (x.requests.map fun q => callsOf k q.calls)[i]? =
            some (callsOf k q.calls) := by
          rw [List.getElem?_map, found]
          rfl
        simp only [others, List.map_set]
        exact sum_set calls _

theorem Kept.follow (h : x.Kept p) (turns : List Turn) : (x.follow p turns).Kept p := by
  induction turns generalizing x with
  | nil => exact h
  | cons t turns ih => exact ih (h.step t)

theorem kept_start (p : Census.Plan) (capacity : Option Nat) (settings : Settings)
    (writer : Option Json.ArrayWriter) : (start p capacity settings writer).Kept p := by
  refine ⟨⟨⟨[], ?_, fun _ => rfl⟩, ?_, Nat.zero_add _, nofun⟩, ?_, nofun⟩
  · exact Core.sound_of_empty rfl rfl rfl rfl rfl fun k => rfl
  · change Census.Stage.entered (.submitting p.roots .asking) = []
    cases p.roots with
    | nil | cons _ _ => rfl
  · exact Core.flagged_of_empty rfl _

theorem Kept.sealsOnce (h : x.Kept p) : x.SealsOnce p := by
  obtain ⟨got, sound, taken⟩ := h.census.sound
  constructor
  · exact sound.counted.seals_le
  · exact sound.counted.latch
  · intro sealed j hj
    obtain ⟨n, job⟩ := List.mem_iff_getElem?.mp hj
    exact sound.done_of_sealed sealed job
  · intro n runs
    cases answer : x.census.scanner.channel.signal with
    | ok channel => exact ⟨channel, rfl⟩
    | error f => exact absurd answer ((sound.isOpen runs).signal_ne f)
  · intro stage
    obtain ⟨e, rest, items⟩ := h.census.prompt stage
    exact ⟨e, _, by rw [Channel.get?, items]⟩
  · intro faultless
    rw [← taken faultless]
    have whole := sound.accounted.whole
    rwa [Core.walks, List.map_map] at whole
  · intro through
    have exhausted := h.census.through through
    obtain ⟨due, faultless⟩ := Census.Stage.of_through through
    rw [due] at sound
    obtain ⟨empty, whole⟩ := sound.drained exhausted
    refine ⟨sound.sealed_of_exhausted exhausted, empty, ?_⟩
    rw [← Census.taken_of_through through, ← taken faultless, whole,
      Core.walks, List.map_map]
    rfl
  · intro complete room
    obtain ⟨stuck, none, rests⟩ := complete
    have unblocked := h.census.unblocked_of_rests h.heeded rests room
    have idle := stuck.resolve_right (by simp [unblocked])
    have all := h.census.ended_of_idle idle (x.others_of_none none) rests
    exact ⟨all.1, idle, all.2⟩

/-- The latch is sealed at most once, when all jobs are done, and always before everybody has come
to rest; the main thread stops taking entries when it has taken and written all that were put. -/
theorem follow_sealsOnce (p : Census.Plan) (capacity : Option Nat) (settings : Settings)
    (writer : Option Json.ArrayWriter) (turns : List Turn) :
    ((start p capacity settings writer).follow p turns).SealsOnce p :=
  ((kept_start p capacity settings writer).follow turns).sealsOnce

/-- Without jobs it is the main thread that seals the latch. -/
example (w : Surroundings FileEntry) (refusal : Nat → Option Failure) :
    let p : Census.Plan := ⟨[], w, refusal⟩
    let x := (start p none .usual none).follow p (.replicate 12 .main)
    x.seals = 1 ∧ x.census.isEnded = true :=
  ⟨rfl, rfl⟩

end Drain
end FileCensus
