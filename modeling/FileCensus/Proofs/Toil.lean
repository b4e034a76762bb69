import FileCensus.Proofs.Ledger

/-!
The work that the worker still has to do: what is left of the walks, the jobs that wait to be taken
up, and the callbacks that will be run. Nobody makes it more but by a submission or by adding a
callback. The worker has less of it after each turn, unless it is idle or tries in vain to put an
entry on the queue; and it tries in vain for ever only on a queue that stays full.
-/

namespace FileCensus

variable {ε κ : Type}

/-- What it takes to run a callback and those that it gives rise to. -/
def Callback.toil : Callback → Nat
  | .countDown _ => 2
  | .note _ | .closeLatch => 1

def Callback.toils (cs : List Callback) : Nat :=
    (cs.map (·.toil)).sum

def toilOf (calls : List Call) : Nat :=
    Callback.toils (calls.map (·.2))

theorem Callback.toils_append (xs ys : List Callback) : toils (xs ++ ys) = toils xs + toils ys := by
  simp [toils]

theorem Callback.toils_cons (k : Callback) (cs : List Callback) :
    toils (k :: cs) = k.toil + toils cs := by
  simp [toils]

@[simp] theorem toilOf_nil : toilOf [] = 0 := rfl

theorem toilOf_append (xs ys : List Call) : toilOf (xs ++ ys) = toilOf xs + toilOf ys := by
  rw [toilOf, List.map_append, Callback.toils_append]
  rfl

theorem toilOf_map (n : Nat) (cs : List Callback) : toilOf (cs.map (n, ·)) = Callback.toils cs := by
  rw [toilOf, List.map_map]
  exact congrArg Callback.toils (List.map_id cs)

/-- The callbacks of a job are run when it is done. -/
def Handle.toil (h : Handle Callback) : Nat :=
    if h.isDone then 0 else Callback.toils h.future.callbacks

theorem Handle.toil_of_done {h : Handle Callback} (done : h.isDone = true) : h.toil = 0 := by
  rw [toil, done, if_pos rfl]

theorem Handle.toil_of_undone {h : Handle Callback} (undone : h.isDone = false) :
    h.toil = Callback.toils h.future.callbacks := by
  rw [toil, undone, if_neg Bool.false_ne_true]

theorem Handle.Change.toil {h h' : Handle Callback} {cs : List Callback} (change : h.Change h' cs) :
    h'.toil + Callback.toils cs = h.toil := by
  cases change with
  | keeps | flags => rfl
  | withdraws pending =>
      have undone : h.isDone = false := by simp [Handle.isDone, Future.isDone, pending]
      rw [Handle.toil_of_done rfl, Handle.toil_of_undone undone, Nat.zero_add]
  | notes cancelled =>
      have done : h.isDone = true := by simp [Handle.isDone, Future.isDone, cancelled]
      rw [Handle.toil_of_done rfl, Handle.toil_of_done done]
      rfl

def Job.toil (fs : FileSystem) (j : Job ε) : Nat :=
    j.walk.effort fs + j.handle.toil

def Worker.toil : Worker → Nat
  | .free => 0
  | .running _ => 2
  | .telling _ cs => 1 + Callback.toils cs

namespace Core

/-- A job that waits costs more than the worker that has taken it up. -/
def toil (fs : FileSystem) (c : Core ε) : Nat :=
    (c.jobs.map (·.toil fs)).sum + 3 * c.waiting.length + c.worker.toil

variable {c c' : Core ε} {fs : FileSystem} {calls : List Call} {n : Nat} {j : Job ε}

variable (fs) in
theorem sum_toil_set (job : c.jobs[n]? = some j) (j' : Job ε) :
    ((c.jobs.set n j').map (·.toil fs)).sum + j.toil fs =
      (c.jobs.map (·.toil fs)).sum + j'.toil fs := by
  have found : (c.jobs.map (·.toil fs))[n]? = some (j.toil fs) := by
    rw [List.getElem?_map, job]
    rfl
  rw [List.map_set]
  exact sum_set found _

variable (fs) in
theorem sum_toil_handle (job : c.jobs[n]? = some j) (h : Handle Callback) :
    ((c.jobs.set n { j with handle := h }).map (·.toil fs)).sum + j.handle.toil =
      (c.jobs.map (·.toil fs)).sum + h.toil := by
  have sum := sum_toil_set fs job { j with handle := h }
  simp only [Job.toil] at sum ⊢
  omega

variable (fs) in
theorem sum_toil_walk (job : c.jobs[n]? = some j) (w : Walk ε) :
    ((c.jobs.set n { j with walk := w }).map (·.toil fs)).sum + j.walk.effort fs =
      (c.jobs.map (·.toil fs)).sum + w.effort fs := by
  have sum := sum_toil_set fs job { j with walk := w }
  simp only [Job.toil] at sum ⊢
  omega

theorem effort_step (wf : fs.WellFormed) (grounded : j.Grounded fs)
    (awake : ∀ o, j.walk.phase ≠ .ended o) (channel : Channel ε) :
    let after := (j.walk.step j.plan j.handle.token channel).1
    after.effort fs < j.walk.effort fs ∨
      Walk.puts j.walk.phase = true ∧ Walk.puts after.phase = true ∧
        after.effort fs = j.walk.effort fs :=
  Walk.effort_advance wf grounded.reads grounded.fits (Walk.step_advances _ _ _ _) awake

/-- A move makes the toil less, unless nothing is taken up and the worker stays where it is. -/
theorem Moves.toil_cases (wf : fs.WellFormed)
    (grounded : ∀ (n : Nat) j, c.jobs[n]? = some j → j.Grounded fs) (move : c.Moves c' calls) :
    c'.toil fs + toilOf calls < c.toil fs ∨
      c'.toil fs + toilOf calls ≤ c.toil fs ∧ c'.waiting = c.waiting ∧ c'.worker = c.worker := by
  cases move with
  | rests => exact .inr ⟨Nat.le_refl _, rfl, rfl⟩
  | @handles n j h cs job change =>
      refine .inr ⟨?_, rfl, rfl⟩
      have sum := sum_toil_handle fs job h
      have handle := change.toil
      simp only [toil, toilOf_map]
      omega
  | @drops n rest j h cs next job change refused =>
      refine .inl ?_
      have sum := sum_toil_handle fs job h
      have handle := change.toil
      simp only [toil, toilOf_map, next, List.length_cons]
      omega
  | strays next _ =>
      refine .inl ?_
      simp only [toil, next, List.length_cons, toilOf_nil]
      omega
  | @starts n rest j free next job pending =>
      refine .inl ?_
      have sum := sum_toil_handle fs job
        { j.handle with future := { j.handle.future with stage := .running } }
      have undone : j.handle.isDone = false := by simp [Handle.isDone, Future.isDone, pending]
      rw [Handle.toil_of_undone undone, Handle.toil_of_undone rfl] at sum
      simp only [toil, next, free, Worker.toil, List.length_cons, toilOf_nil] at sum ⊢
      omega
  | @walks n j runs job awake =>
      refine .inr ⟨?_, rfl, rfl⟩
      have sum := sum_toil_walk fs job (j.walk.step j.plan j.handle.token c.channel).1
      have less := effort_step wf (grounded n j job) awake c.channel
      simp only [toil, toilOf_nil] at less ⊢
      omega
  | @settles n j o runs job ended undone =>
      refine .inl ?_
      have sum := sum_toil_handle fs job
        { j.handle with future := { j.handle.future with stage := .finished o } }
      rw [Handle.toil_of_undone undone, Handle.toil_of_done rfl] at sum
      simp only [toil, runs, Worker.toil, toilOf_nil] at sum ⊢
      omega
  | halts runs _ =>
      refine .inl ?_
      simp only [toil, runs, Worker.toil, toilOf_nil]
      omega
  | frees told =>
      refine .inl ?_
      simp only [toil, told, Worker.toil, toilOf_nil]
      omega

theorem Moves.toil_le (wf : fs.WellFormed)
    (grounded : ∀ (n : Nat) j, c.jobs[n]? = some j → j.Grounded fs) (move : c.Moves c' calls) :
    c'.toil fs + toilOf calls ≤ c.toil fs := by
  rcases move.toil_cases wf grounded with less | ⟨le, -, -⟩
  · exact Nat.le_of_lt less
  · exact le

variable (fs) in
theorem Performs.toil {call : Call} (perf : c.Performs call c' calls) :
    c'.toil fs + toilOf calls < c.toil fs + call.2.toil := by
  cases perf with
  | note | closeLatch =>
      simp only [toil, toilOf_nil, Callback.toil]
      omega
  | countDown left =>
      simp only [toil, Callback.toil]
      split
      · simp only [toilOf, Callback.toils, Callback.toil, List.map_cons, List.map_nil, List.sum_cons,
          List.sum_nil]
        omega
      · simp only [toilOf_nil]
        omega

theorem Tells.toil_lt (tell : c.Tells c') : c'.toil fs < c.toil fs := by
  cases tell with
  | @tells n k rest c' more telling performs =>
      have less := performs.toil fs
      obtain ⟨-, -, worker, -, -⟩ := performs.same
      simp only [toil, worker, telling, Worker.toil, Callback.toils_cons, Callback.toils_append,
        toilOf] at less ⊢
      omega

end Core

namespace Scanner

variable {s : Scanner ε} {fs : FileSystem}

/-- How many attempts the worker makes at most until it has put an entry, if there is room. -/
def wavering (s : Scanner ε) : Nat :=
    match s.current? with
    | none => 0
    | some j =>
        match j.walk.phase with
        | .offering _ _ => 1
        | .putting _ _ => if s.channel.isFull && j.plan.refusal.isNone then 2 else 0
        | _ => 0

/-- An attempt to put an entry that comes to nothing: it is given up only on a full queue. -/
structure Tries (s s' : Scanner ε) : Prop where
  channel : s'.channel = s.channel
  idle : s'.isIdle = s.isIdle
  wavering : s.isBlocked = false → s'.wavering < s.wavering

theorem takeUp_waiting (s : Scanner ε) : s.takeUp.waiting = s.waiting.tail := by
  unfold takeUp
  split
  · next none => rw [none, List.tail_nil]
  · next n rest next =>
    rw [next, List.tail_cons]
    simp only
    repeat' split
    all_goals rfl

theorem takeUp_toil (wf : fs.WellFormed)
    (grounded : ∀ (n : Nat) j, s.jobs[n]? = some j → j.Grounded fs) (free : s.worker = .free)
    (more : s.waiting ≠ []) : s.takeUp.core.toil fs < s.core.toil fs := by
  rcases (s.takeUp_moves free).toil_cases wf grounded with less | ⟨-, same, -⟩
  · exact Nat.lt_of_le_of_lt (Nat.le_add_right _ _) less
  · have shorter := congrArg List.length ((s.takeUp_waiting).symm.trans same)
    have some := List.length_pos_of_ne_nil more
    rw [List.length_tail] at shorter
    change s.waiting.length - 1 = s.waiting.length at shorter
    omega

/-- The scanner after a step of the walk of a job. -/
def walked (s : Scanner ε) (n : Nat) (j : Job ε) : Scanner ε :=
    { s.setJob n { j with walk := (j.walk.step j.plan j.handle.token s.channel).1 } with
      channel := (j.walk.step j.plan j.handle.token s.channel).2 }

/-- The worker goes on with the walk of the job that it runs, or leaves it. -/
theorem proceed_cases {n : Nat} (runs : s.worker = .running n) :
    (∃ j, s.jobs[n]? = some j ∧ (∀ o, j.walk.phase ≠ .ended o) ∧ s.proceed n = s.walked n j) ∨
      (s.proceed n).worker ≠ s.worker := by
  cases job : s.jobs[n]? with
  | none =>
      refine .inr ?_
      simp only [proceed, job, runs]
      exact fun same => by cases same
  | some j =>
      cases outcome : j.walk.outcome? with
      | none =>
          refine .inl ⟨j, rfl, fun o ended => ?_, ?_⟩
          · simp [Walk.outcome?, ended] at outcome
          · simp only [proceed, job, outcome, walked]
      | some o =>
          refine .inr ?_
          simp only [proceed, job, outcome, runs]
          split <;> exact fun same => by cases same

variable {n : Nat} {j : Job ε}

theorem current?_walked (runs : s.worker = .running n) (job : s.jobs[n]? = some j) :
    (s.walked n j).current? =
      some { j with walk := (j.walk.step j.plan j.handle.token s.channel).1 } := by
  simp only [current?, walked, setJob, runs]
  exact List.getElem?_set_self (List.getElem?_eq_some_iff.mp job).1

/-- A step of a walk that is about to put an entry before it and after it. -/
theorem walked_tries (runs : s.worker = .running n) (job : s.jobs[n]? = some j)
    (before : Walk.puts j.walk.phase = true)
    (after : Walk.puts (j.walk.step j.plan j.handle.token s.channel).1.phase = true) :
    s.Tries (s.walked n j) := by
  have current : s.current? = some j := by simp only [current?, runs, job]
  have current' := current?_walked runs job
  have given (w : Walk ε) (same : j.walk.step j.plan j.handle.token s.channel = (w, s.channel))
      (less : s.isBlocked = false → (match w.phase with
        | .offering _ _ => 1
        | .putting _ _ => if s.channel.isFull && j.plan.refusal.isNone then 2 else 0
        | _ => 0) < s.wavering) : s.Tries (s.walked n j) := by
    refine ⟨by rw [walked, same], rfl, fun unblocked => ?_⟩
    rw [wavering, current', same]
    simp only [walked, same]
    exact less unblocked
  cases phase : j.walk.phase with
  | offering path e =>
      cases flagged : j.handle.token.isCancelled with
      | true =>
          obtain ⟨f, ended⟩ := Walk.fail_phase j.walk j.plan Token.stop
          simp only [Walk.step, phase, Walk.unlessCancelled, Token.check, flagged, if_true,
            ended] at after
          cases after
      | false =>
          refine given (j.walk.go (.putting path e)) ?_ fun unblocked => ?_
          · simp [Walk.step, phase, Walk.unlessCancelled, Token.check, flagged]
          · simp only [isBlocked, current, phase, flagged, Bool.not_false, Bool.and_true]
              at unblocked
            simp [wavering, current, phase, Walk.go, unblocked]
  | putting path e =>
      cases refusal : j.plan.refusal with
      | some f =>
          obtain ⟨g, ended⟩ := Walk.fail_phase j.walk j.plan f
          simp only [Walk.step, phase, Walk.offer, refusal, ended] at after
          cases after
      | none =>
          cases full : s.channel.isFull with
          | false =>
              simp only [Walk.step, phase, Walk.offer, refusal, full, Bool.false_eq_true, if_false,
                Walk.go] at after
              cases after
          | true =>
              refine given ((j.walk.happen .turnedAway).go (.offering path e)) ?_ fun _ => ?_
              · simp [Walk.step, phase, Walk.offer, refusal, full]
              · simp [wavering, current, phase, Walk.go, full, refusal]
  | _ =>
      rw [phase] at before
      cases before

/-- A worker that is not idle gets on, unless it tries to put an entry. -/
theorem workStep_toil (wf : fs.WellFormed)
    (grounded : ∀ (n : Nat) j, s.jobs[n]? = some j → j.Grounded fs) (busy : s.isIdle = false) :
    s.workStep.core.toil fs < s.core.toil fs ∨ s.Tries s.workStep := by
  rcases s.workStep_cases with ⟨none, move⟩ | tell
  · cases worker : s.worker with
    | free =>
        have more : s.waiting ≠ [] := by
          rintro empty
          simp [isIdle, worker, empty] at busy
        refine .inl ?_
        simp only [workStep, worker]
        exact takeUp_toil wf grounded worker more
    | running n =>
        have same : s.workStep = s.proceed n := by simp only [workStep, worker]
        rcases proceed_cases worker with ⟨j, job, awake, walks⟩ | leaves
        · have walked : s.workStep = s.walked n j := same.trans walks
          rcases Core.effort_step wf (grounded n j job) awake s.channel with
            less | ⟨before, after, -⟩
          · refine .inl ?_
            have sum := Core.sum_toil_walk fs (c := s.core) job
              (j.walk.step j.plan j.handle.token s.channel).1
            rw [walked]
            simp only [Core.toil, core, Scanner.walked, setJob] at sum ⊢
            omega
          · rw [walked]
            exact .inr (walked_tries worker job before after)
        · rw [same] at move ⊢
          rcases move.toil_cases wf grounded with less | ⟨-, -, stays⟩
          · exact .inl less
          · exact absurd stays leaves
    | telling n cs =>
        rw [worker] at none
        cases (show cs = [] from none)
        refine .inl ?_
        simp only [workStep, worker, Core.toil, core, Worker.toil]
        omega
  · exact .inl tell.toil_lt

theorem workStep_toil_le (wf : fs.WellFormed)
    (grounded : ∀ (n : Nat) j, s.jobs[n]? = some j → j.Grounded fs) :
    s.workStep.core.toil fs ≤ s.core.toil fs := by
  rcases s.workStep_cases with ⟨-, move⟩ | tell
  · exact move.toil_le wf grounded
  · exact Nat.le_of_lt tell.toil_lt

end Scanner
end FileCensus
