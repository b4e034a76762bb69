import FileCensus.Proofs.Conservation
import FileCensus.Proofs.Order
import FileCensus.Proofs.Solitude

/-!
A scanner that is used from all sides: roots are submitted, settings are changed, jobs are cancelled
and the scanner is stopped, each in steps of its own between which the worker and everybody else may
go on. The jobs come one after the other, and none of them can tell that there are others, unless
by the latch: no callbacks are added here, so nobody seals it.
-/

namespace FileCensus

/-- A request to cancel a job, with the callbacks that it has set off and that are still to run. -/
structure CancelRequest where
  job : Nat
  phase : Cancelling
  calls : List Call

structure StopRequest where
  kind : StopKind
  phase : Stopping
  calls : List Call

variable {ε : Type}

def CancelRequest.step (q : CancelRequest) (s : Scanner ε) : CancelRequest × Scanner ε :=
    match q.calls with
    | call :: rest =>
        let (s, more) := s.perform call
        ({ q with calls := more ++ rest }, s)
    | [] =>
        let (phase, s, calls) := s.cancelStep q.job q.phase
        ({ q with phase := phase, calls := calls }, s)

def StopRequest.step (q : StopRequest) (s : Scanner ε) : StopRequest × Scanner ε :=
    match q.calls with
    | call :: rest =>
        let (s, more) := s.perform call
        ({ q with calls := more ++ rest }, s)
    | [] =>
        let (phase, s, calls) := s.stopStep q.kind q.phase
        ({ q with phase := phase, calls := calls }, s)

/-- A scanner, what is going on around it, and what has been taken from its queue. -/
structure Traffic (ε : Type) where
  scanner : Scanner ε
  submissions : List (Path × Submission ε)
  cancels : List CancelRequest
  stops : List StopRequest
  got : List ε

inductive Traffic.Turn where
  | work
  | scan (root : Path)
  | submit (i : Nat)
  | cancel (job : Nat)
  | goOn (i : Nat)
  | stop (kind : StopKind)
  | wind (i : Nat)
  | set (settings : Settings)
  | wait
  | get

namespace Traffic

def fresh (capacity : Option Nat) (latched : Bool) : Traffic ε :=
    ⟨.fresh (.fresh capacity (if latched then some .fresh else none)), [], [], [], []⟩

def step (w : Surroundings ε) (x : Traffic ε) : Turn → Traffic ε
  | .work => { x with scanner := x.scanner.workStep }
  | .scan root => { x with submissions := x.submissions ++ [(root, .asking)] }
  | .submit i =>
      match x.submissions[i]? with
      | none => x
      | some (root, phase) =>
          let (phase, scanner) := x.scanner.submitStep w root phase
          { x with scanner := scanner, submissions := x.submissions.set i (root, phase) }
  | .cancel job => { x with cancels := x.cancels ++ [⟨job, .asking, []⟩] }
  | .goOn i =>
      match x.cancels[i]? with
      | none => x
      | some q =>
          let (q, scanner) := q.step x.scanner
          { x with scanner := scanner, cancels := x.cancels.set i q }
  | .stop kind => { x with stops := x.stops ++ [⟨kind, .marking, []⟩] }
  | .wind i =>
      match x.stops[i]? with
      | none => x
      | some q =>
          let (q, scanner) := q.step x.scanner
          { x with scanner := scanner, stops := x.stops.set i q }
  | .set settings => { x with scanner := { x.scanner with settings := settings } }
  | .wait =>
      match x.scanner.channel.latch with
      | none => x
      | some l =>
          let channel := { x.scanner.channel with latch := some l.take.2 }
          { x with scanner := { x.scanner with channel := channel } }
  | .get =>
      match x.scanner.channel.get? with
      | none => x
      | some (e, channel) =>
          { x with scanner := { x.scanner with channel := channel }, got := x.got ++ [e] }

def follow (w : Surroundings ε) (turns : List Turn) (x : Traffic ε) : Traffic ε :=
    turns.foldl (fun x t => x.step w t) x

end Traffic

/-- What becomes of a job later: its plan stays, and so does everything once it is done. -/
structure Job.Later (j j' : Job ε) : Prop where
  plan : j'.plan = j.plan
  flagged : j.handle.token.isCancelled = true → j'.handle.token.isCancelled = true
  done : j.handle.isDone = true → j'.handle.isDone = true ∧ j'.walk = j.walk
  finished : ∀ o, j.handle.future.stage = .finished o → j'.handle.future.stage = .finished o
  withdrawn : j.handle.future.isCancelled = true → j'.handle.future.isCancelled = true

theorem Job.Later.refl (j : Job ε) : j.Later j :=
  ⟨rfl, id, fun done => ⟨done, rfl⟩, fun _ => id, id⟩

theorem Job.Later.trans {a b c : Job ε} (h : a.Later b) (g : b.Later c) : a.Later c where
  plan := g.plan.trans h.plan
  flagged f := g.flagged (h.flagged f)
  done d := ⟨(g.done (h.done d).1).1, (g.done (h.done d).1).2.trans (h.done d).2⟩
  finished o f := g.finished o (h.finished o f)
  withdrawn f := g.withdrawn (h.withdrawn f)

theorem Handle.Change.token {κ : Type} {h h' : Handle κ} {cs : List κ} (c : h.Change h' cs)
    (flagged : h.token.isCancelled = true) : h'.token.isCancelled = true := by
  cases c with
  | keeps | withdraws _ | notes _ => exact flagged
  | flags => rfl

theorem Handle.Change.callbacks {κ : Type} {h h' : Handle κ} {cs : List κ} (c : h.Change h' cs)
    (none : h.future.callbacks = []) : h'.future.callbacks = [] ∧ cs = [] := by
  cases c with
  | keeps | flags | notes _ => exact ⟨none, rfl⟩
  | withdraws _ => exact ⟨none, none⟩

theorem Handle.Change.later {j : Job ε} {h : Handle Callback} {cs : List Callback}
    (c : j.handle.Change h cs) : j.Later { j with handle := h } := by
  refine ⟨rfl, c.token, fun done => ⟨?_, rfl⟩, fun o finished => ?_, fun withdrawn => ?_⟩
  · rcases c.stage with same | ⟨before, -⟩ | ⟨-, after⟩
    · simpa [Handle.isDone, Future.isDone, same] using done
    · simp [Handle.isDone, Future.isDone, before] at done
    · simp [Handle.isDone, Future.isDone, after]
  · rcases c.stage with same | ⟨before, -⟩ | ⟨before, -⟩
    · exact same.trans finished
    · rw [finished] at before
      cases before
    · rw [finished] at before
      cases before
  · rcases c.stage with same | ⟨before, -⟩ | ⟨-, after⟩
    · simpa [Future.isCancelled, same] using withdrawn
    · simp [Future.isCancelled, before] at withdrawn
    · simp [Future.isCancelled, after]

/-- A job that is not done may still be anything. -/
theorem Job.later_of_undone {j j' : Job ε} (undone : j.handle.isDone = false)
    (plan : j'.plan = j.plan) (token : j'.handle.token = j.handle.token) : j.Later j' where
  plan := plan
  flagged flagged := by rw [token, flagged]
  done done := by
    rw [undone] at done
    cases done
  finished o finished := by simp [Handle.isDone, Future.isDone, finished] at undone
  withdrawn withdrawn := by
    cases stage : j.handle.future.stage <;>
      simp_all [Handle.isDone, Future.isDone, Future.isCancelled]

/-- A step of a walk leaves the latch open. -/
theorem Walk.step_open (p : Plan ε) (t : Token) (w : Walk ε) {c : Channel ε} (h : c.IsOpen) :
    (w.step p t c).2.IsOpen := by
  cases (step_advances p t w c).effect with
  | none same _ _ => rw [same]; exact h
  | put _ same _ _ _ => rw [same]; exact h
  | count same _ _ => rw [same]; exact h
  | signal signalled _ _ _ => exact (Channel.signal_ok signalled).1
  | refused answer => exact absurd answer (h.signal_ne _)

theorem Future.stage_of_isRunning {κ : Type} {f : Future κ} (running : f.isRunning = true) :
    f.stage = .running := by
  cases stage : f.stage <;> simp [isRunning, stage] at running ⊢

namespace Core

/-- No callbacks have been added, and the latch is open. -/
structure Quiet (c : Core ε) : Prop where
  callbacks : ∀ (n : Nat) (j : Job ε), c.jobs[n]? = some j → j.handle.future.callbacks = []
  told : ∀ n cs, c.worker = .telling n cs → cs = []
  unsealed : c.channel.IsOpen

/-- Each walk has come to what it comes to by itself. -/
def Separate (c : Core ε) : Prop :=
    ∀ (n : Nat) (j : Job ε), c.jobs[n]? = some j →
      Walk.Apart j.plan (.fresh j.plan.root) j.handle.token.isCancelled j.walk

variable {c c' : Core ε} {calls : List Call} {n m : Nat} {j : Job ε}

theorem later_set {a j' : Job ε} (job : c.jobs[n]? = some j) (later : j.Later j')
    (found : c.jobs[m]? = some a) : ∃ a', (c.jobs.set n j')[m]? = some a' ∧ a.Later a' := by
  by_cases same : n = m
  · subst same
    cases job.symm.trans found
    exact ⟨j', List.getElem?_set_self (List.getElem?_eq_some_iff.mp job).1, later⟩
  · exact ⟨a, by rw [List.getElem?_set_ne same, found], .refl a⟩

theorem Moves.later (move : c.Moves c' calls) (orderly : c.Orderly) (found : c.jobs[m]? = some j) :
    ∃ j', c'.jobs[m]? = some j' ∧ j.Later j' := by
  cases move with
  | rests | strays _ _ | halts _ _ | frees _ => exact ⟨j, found, .refl j⟩
  | handles job change => exact later_set job change.later found
  | drops _ job change _ => exact later_set job change.later found
  | starts _ _ job pending =>
      refine later_set job (Job.later_of_undone ?_ rfl rfl) found
      simp [Handle.isDone, Future.isDone, pending]
  | walks runs job _ =>
      obtain ⟨a, same, running⟩ := orderly.busy _ runs
      cases job.symm.trans same
      refine later_set job (Job.later_of_undone ?_ rfl rfl) found
      simp [Handle.isDone, Future.isDone, running]
  | settles _ job _ undone => exact later_set job (Job.later_of_undone undone rfl rfl) found

theorem forall_set {P : Job ε → Prop} (h : ∀ (m : Nat) a, c.jobs[m]? = some a → P a) {j' : Job ε}
    (this : P j') (m : Nat) (a : Job ε) (found : (c.jobs.set n j')[m]? = some a) : P a := by
  rcases getElem?_set_cases found with ⟨-, rfl⟩ | ⟨-, old⟩
  · exact this
  · exact h m a old

theorem forall_append {P : Job ε → Prop} (h : ∀ (m : Nat) a, c.jobs[m]? = some a → P a) {j' : Job ε}
    (this : P j') (m : Nat) (a : Job ε) (found : (c.jobs ++ [j'])[m]? = some a) : P a := by
  rcases getElem?_snoc_cases found with ⟨-, old⟩ | ⟨-, rfl⟩
  · exact h m a old
  · exact this

theorem Quiet.moves (h : c.Quiet) (move : c.Moves c' calls) : c'.Quiet ∧ calls = [] := by
  cases move with
  | rests => exact ⟨h, rfl⟩
  | handles job change | drops _ job change _ =>
      have none := change.callbacks (h.callbacks _ _ job)
      refine ⟨⟨forall_set h.callbacks none.1, h.told, h.unsealed⟩, ?_⟩
      rw [none.2, List.map_nil]
  | strays _ _ => exact ⟨⟨h.callbacks, h.told, h.unsealed⟩, rfl⟩
  | starts _ _ job _ =>
      have none := h.callbacks _ _ job
      exact ⟨⟨forall_set h.callbacks none, nofun, h.unsealed⟩, rfl⟩
  | walks _ job _ =>
      have none := h.callbacks _ _ job
      exact ⟨⟨forall_set h.callbacks none, h.told, Walk.step_open _ _ _ h.unsealed⟩, rfl⟩
  | settles _ job _ _ =>
      have none := h.callbacks _ _ job
      refine ⟨⟨forall_set h.callbacks none, ?_, h.unsealed⟩, rfl⟩
      intro m cs telling
      cases telling
      exact none
  | halts _ _ | frees _ => exact ⟨⟨h.callbacks, nofun, h.unsealed⟩, rfl⟩

theorem Quiet.not_tells (h : c.Quiet) (tell : c.Tells c') : False := by
  cases tell with
  | tells telling _ => cases h.told _ _ telling

theorem Separate.moves (h : c.Separate)
    (unsealed : ∀ n, c.worker = .running n → c.channel.IsOpen) (move : c.Moves c' calls) :
    c'.Separate := by
  cases move with
  | rests | strays _ _ | halts _ _ | frees _ => exact h
  | handles job change | drops _ job change _ => exact forall_set h ((h _ _ job).mono change.token)
  | starts _ _ job _ | settles _ job _ _ =>
      have apart := h _ _ job
      exact forall_set h apart
  | walks runs job _ => exact forall_set h ((h _ _ job).step id (unsealed _ runs).signal_ne)

end Core

namespace Traffic

variable {w : Surroundings ε} {x : Traffic ε}

/-- What all that goes on around a scanner keeps. -/
structure Regular (x : Traffic ε) : Prop where
  orderly : x.scanner.core.Orderly
  accounted : x.scanner.core.Accounted x.got
  quiet : x.scanner.core.Quiet
  separate : x.scanner.core.Separate
  cancels : ∀ q ∈ x.cancels, q.calls = []
  stops : ∀ q ∈ x.stops, q.calls = []

/-- A turn that keeps what is kept, with what becomes of the jobs. -/
structure Goes (x x' : Traffic ε) : Prop where
  regular : x'.Regular
  later : ∀ (n : Nat) j, x.scanner.jobs[n]? = some j →
    ∃ j', x'.scanner.jobs[n]? = some j' ∧ j.Later j'

theorem Regular.rests (h : x.Regular) : Goes x x :=
  ⟨h, fun _ j job => ⟨j, job, .refl j⟩⟩

theorem Regular.moves (h : x.Regular) {s : Scanner ε} {calls : List Call}
    (move : x.scanner.core.Moves s.core calls) :
    calls = [] ∧ Goes x { x with scanner := s } := by
  obtain ⟨quiet, none⟩ := h.quiet.moves move
  exact ⟨none, ⟨h.orderly.moves move, h.accounted.moves h.orderly move, quiet,
    h.separate.moves (fun _ _ => h.quiet.unsealed) move, h.cancels, h.stops⟩,
    fun _ _ job => move.later h.orderly job⟩

theorem Regular.same (h : x.Regular) {s : Scanner ε} (same : s.core = x.scanner.core) :
    Goes x { x with scanner := s } := by
  have move : x.scanner.core.Moves s.core [] := same ▸ .rests
  exact (h.moves move).2

theorem Regular.enters (h : x.Regular) {s : Scanner ε} {p : Plan ε}
    (entered : s.core = x.scanner.core.entered p) : Goes x { x with scanner := s } where
  regular := by
    refine ⟨entered ▸ h.orderly.enters p, entered ▸ h.accounted.enters p, entered ▸ ?_,
      entered ▸ ?_, h.cancels, h.stops⟩
    · exact ⟨Core.forall_append h.quiet.callbacks rfl, h.quiet.told, h.quiet.unsealed⟩
    · exact Core.forall_append h.separate (Walk.apart_self _ _ _)
  later n j job := by
    have jobs : s.jobs = x.scanner.jobs ++ [.fresh p] := congrArg Core.jobs entered
    refine ⟨j, ?_, .refl j⟩
    rw [jobs, List.getElem?_append_left (List.getElem?_eq_some_iff.mp job).1, job]

theorem Goes.withSubmissions {x' : Traffic ε} (h : Goes x x')
    (submissions : List (Path × Submission ε)) : Goes x { x' with submissions := submissions } where
  regular := ⟨h.regular.orderly, h.regular.accounted, h.regular.quiet, h.regular.separate,
    h.regular.cancels, h.regular.stops⟩
  later := h.later

theorem Goes.withCancels {x' : Traffic ε} (h : Goes x x') {cancels : List CancelRequest}
    (none : ∀ q ∈ cancels, q.calls = []) : Goes x { x' with cancels := cancels } where
  regular := ⟨h.regular.orderly, h.regular.accounted, h.regular.quiet, h.regular.separate, none,
    h.regular.stops⟩
  later := h.later

theorem Goes.withStops {x' : Traffic ε} (h : Goes x x') {stops : List StopRequest}
    (none : ∀ q ∈ stops, q.calls = []) : Goes x { x' with stops := stops } where
  regular := ⟨h.regular.orderly, h.regular.accounted, h.regular.quiet, h.regular.separate,
    h.regular.cancels, none⟩
  later := h.later

theorem Regular.request (h : x.Regular) {q : CancelRequest} (none : q.calls = []) (i : Nat) :
    Goes x { x with
      scanner := (q.step x.scanner).2
      cancels := x.cancels.set i (q.step x.scanner).1 } := by
  have move := x.scanner.cancelStep_moves q.job q.phase
  obtain ⟨quiet, goes⟩ := h.moves move
  simp only [CancelRequest.step, none]
  apply goes.withCancels
  intro q' hq
  rcases List.mem_or_eq_of_mem_set hq with before | rfl
  · exact h.cancels q' before
  · exact quiet

theorem Regular.halt (h : x.Regular) {q : StopRequest} (none : q.calls = []) (i : Nat) :
    Goes x { x with
      scanner := (q.step x.scanner).2
      stops := x.stops.set i (q.step x.scanner).1 } := by
  have move := x.scanner.stopStep_moves q.kind q.phase
  obtain ⟨quiet, goes⟩ := h.moves move
  simp only [StopRequest.step, none]
  apply goes.withStops
  intro q' hq
  rcases List.mem_or_eq_of_mem_set hq with before | rfl
  · exact h.stops q' before
  · exact quiet

theorem Regular.wait (h : x.Regular) {l : Latch} (latch : x.scanner.channel.latch = some l) :
    Goes x { x with scanner := { x.scanner with
      channel := { x.scanner.channel with latch := some l.take.2 } } } where
  regular := by
    have unsealed : l.take.2.isSealed = false := by
      have before := h.quiet.unsealed l latch
      cases pending : l.pending <;> simpa [Latch.take, pending] using before
    refine ⟨h.orderly.of_same rfl rfl fun _ => Iff.rfl, h.accounted.of_same rfl rfl rfl,
      ⟨h.quiet.callbacks, h.quiet.told, ?_⟩, h.separate, h.cancels, h.stops⟩
    rintro l' found
    cases found
    exact unsealed
  later n j job := ⟨j, job, .refl j⟩

theorem Regular.get (h : x.Regular) {e : ε} {channel : Channel ε}
    (taken : x.scanner.channel.get? = some (e, channel)) :
    Goes x { x with scanner := { x.scanner with channel := channel }, got := x.got ++ [e] } where
  regular := by
    have same : channel.latch = x.scanner.channel.latch := by
      simp only [Channel.get?] at taken
      split at taken
      · cases taken
        rfl
      · cases taken
    refine ⟨h.orderly.of_same rfl rfl fun _ => Iff.rfl, h.accounted.get taken,
      ⟨h.quiet.callbacks, h.quiet.told, ?_⟩, h.separate, h.cancels, h.stops⟩
    intro l found
    exact h.quiet.unsealed l (same ▸ found)
  later n j job := ⟨j, job, .refl j⟩

theorem Regular.step (w : Surroundings ε) (h : x.Regular) (t : Turn) : Goes x (x.step w t) := by
  cases t with
  | work =>
      rcases x.scanner.workStep_cases with ⟨-, move⟩ | tell
      · exact (h.moves move).2
      · exact (h.quiet.not_tells tell).elim
  | scan root => exact h.rests.withSubmissions _
  | submit i =>
      simp only [Traffic.step]
      split
      · exact h.rests
      · next root phase _ =>
        rcases x.scanner.submitStep_cases w root phase with ⟨same, -⟩ | ⟨p, entered, -⟩
        · exact (h.same same).withSubmissions _
        · exact (h.enters entered).withSubmissions _
  | cancel job =>
      apply h.rests.withCancels
      intro q hq
      rcases List.mem_append.mp hq with before | new
      · exact h.cancels q before
      · exact List.mem_singleton.mp new ▸ rfl
  | goOn i =>
      simp only [Traffic.step]
      split
      · exact h.rests
      · next q found => exact h.request (h.cancels q (List.mem_of_getElem? found)) i
  | stop kind =>
      apply h.rests.withStops
      intro q hq
      rcases List.mem_append.mp hq with before | new
      · exact h.stops q before
      · exact List.mem_singleton.mp new ▸ rfl
  | wind i =>
      simp only [Traffic.step]
      split
      · exact h.rests
      · next q found => exact h.halt (h.stops q (List.mem_of_getElem? found)) i
  | set settings =>
      exact ⟨⟨h.orderly, h.accounted, h.quiet, h.separate, h.cancels, h.stops⟩, h.rests.later⟩
  | wait =>
      simp only [Traffic.step]
      split
      · exact h.rests
      · next l latch => exact h.wait latch
  | get =>
      simp only [Traffic.step]
      split
      · exact h.rests
      · next e channel taken => exact h.get taken

theorem Regular.follow (w : Surroundings ε) (h : x.Regular) (turns : List Turn) :
    Goes x (x.follow w turns) := by
  induction turns generalizing x with
  | nil => exact h.rests
  | cons t turns ih =>
      have first := h.step w t
      have rest := ih first.regular
      refine ⟨rest.regular, fun n j job => ?_⟩
      obtain ⟨j', job', later⟩ := first.later n j job
      obtain ⟨j'', job'', later'⟩ := rest.later n j' job'
      exact ⟨j'', job'', later.trans later'⟩

theorem regular_fresh (capacity : Option Nat) (latched : Bool) :
    (fresh capacity latched : Traffic ε).Regular := by
  have jobs : (fresh capacity latched : Traffic ε).scanner.core.jobs = [] := rfl
  have nobody : ∀ (n : Nat) (j : Job ε),
      (fresh capacity latched : Traffic ε).scanner.core.jobs[n]? ≠ some j := by
    intro n j
    rw [jobs, List.getElem?_nil]
    exact nofun
  have unsealed : (fresh capacity latched : Traffic ε).scanner.core.channel.IsOpen := by
    intro l found
    cases latched <;> cases found
    rfl
  constructor
  · exact Core.orderly_of_empty rfl rfl rfl
  · exact Core.accounted_of_empty rfl rfl rfl
  · exact ⟨fun n j job => absurd job (nobody n j), nofun, unsealed⟩
  · exact fun n j job => absurd job (nobody n j)
  · exact nofun
  · exact nofun

/-- What holds of the jobs of a scanner at every moment. A job is known by its place in the order of
submission. -/
structure Serial (w : Surroundings ε) (x : Traffic ε) : Prop where
  one : ∀ (m n : Nat) a b, x.scanner.jobs[m]? = some a → x.scanner.jobs[n]? = some b →
    a.handle.isRunning = true → b.handle.isRunning = true → m = n
  inOrder : ∀ (m n : Nat) a b, m < n → x.scanner.jobs[m]? = some a → x.scanner.jobs[n]? = some b →
    b.handle.future.stage.isStarted = true → a.handle.isDone = true
  whole : x.got ++ x.scanner.channel.items = x.scanner.jobs.flatMap (·.walk.put)
  unstarted : ∀ j ∈ x.scanner.jobs, j.handle.future.stage.isStarted = false →
    j.walk = .fresh j.plan.root
  separate : ∀ j ∈ x.scanner.jobs,
    Walk.Apart j.plan (.fresh j.plan.root) j.handle.token.isCancelled j.walk
  finished : ∀ j ∈ x.scanner.jobs, ∀ o, j.handle.future.stage = .finished o →
    j.walk.phase = .ended o
  alike : ∀ (w' : Surroundings ε) (capacity : Option Nat) (latched : Bool) (turns : List Turn),
    ∀ a ∈ x.scanner.jobs, ∀ b ∈ ((fresh capacity latched).follow w' turns).scanner.jobs,
      a.plan = b.plan → a.handle.token.isCancelled = false → b.handle.token.isCancelled = false →
      ∀ o o', a.handle.future.stage = .finished o → b.handle.future.stage = .finished o' →
        o = o' ∧ a.walk.put = b.walk.put ∧ a.walk.progress = b.walk.progress
  later : ∀ (turns : List Turn) (n : Nat) j, x.scanner.jobs[n]? = some j →
    ∃ j', (x.follow w turns).scanner.jobs[n]? = some j' ∧ j.Later j'
  total : (∀ (n : Nat) j path e, x.scanner.worker = .running n → x.scanner.jobs[n]? = some j →
      j.walk.phase ≠ .counting path e) →
    x.scanner.queued = (x.got ++ x.scanner.channel.items).length ∧
      x.scanner.queued = (x.scanner.jobs.map (·.walk.progress.queued)).sum

theorem Regular.uncounted (h : x.Regular)
    (between : ∀ (n : Nat) j path e, x.scanner.worker = .running n → x.scanner.jobs[n]? = some j →
      j.walk.phase ≠ .counting path e) :
    (x.scanner.core.walks.map fun v => Walk.uncounted v.phase).sum = 0 := by
  refine h.orderly.sum_phases Walk.uncounted rfl (fun _ => rfl) fun n j runs job => ?_
  cases phase : j.walk.phase with
  | counting path e => exact absurd phase (between n j path e runs job)
  | _ => rfl

theorem Regular.total (h : x.Regular)
    (between : ∀ (n : Nat) j path e, x.scanner.worker = .running n → x.scanner.jobs[n]? = some j →
      j.walk.phase ≠ .counting path e) :
    x.scanner.queued = (x.got ++ x.scanner.channel.items).length ∧
      x.scanner.queued = (x.scanner.jobs.map (·.walk.progress.queued)).sum := by
  have total := h.accounted.total
  rw [h.uncounted between, Nat.add_zero] at total
  have each : x.scanner.core.walks.map (·.progress.queued) =
      x.scanner.core.walks.map fun v => v.put.length :=
    List.map_congr_left h.accounted.queued
  have whole := congrArg List.length h.accounted.whole
  constructor
  · rw [each] at total
    refine total.trans ?_
    rw [List.length_flatten, List.map_map] at whole
    exact whole.symm
  · rw [Core.walks, List.map_map] at total
    exact total

theorem Regular.alike {y : Traffic ε} (h : x.Regular) (g : y.Regular) {a b : Job ε}
    (ha : a ∈ x.scanner.jobs) (hb : b ∈ y.scanner.jobs) (plan : a.plan = b.plan)
    (free : a.handle.token.isCancelled = false) (free' : b.handle.token.isCancelled = false)
    {o o' : Outcome} (finished : a.handle.future.stage = .finished o)
    (finished' : b.handle.future.stage = .finished o') :
    o = o' ∧ a.walk.put = b.walk.put ∧ a.walk.progress = b.walk.progress := by
  obtain ⟨m, job⟩ := List.mem_iff_getElem?.mp ha
  obtain ⟨n, job'⟩ := List.mem_iff_getElem?.mp hb
  have apart := h.separate m a job
  have apart' := g.separate n b job'
  rw [free, plan] at apart
  rw [free'] at apart'
  have ended := (h.orderly.placed m a job).finished o finished
  have ended' := (g.orderly.placed n b job').finished o' finished'
  have same := apart.settled_eq apart' ended ended'
  refine ⟨?_, ?_, ?_⟩
  · have phase := Walk.settled_of_ended ended
    rw [same, Walk.settled_of_ended ended'] at phase
    exact (Phase.ended.inj phase).symm
  · rw [← Walk.settled_put, same, Walk.settled_put]
  · rw [← Walk.settled_progress, same, Walk.settled_progress]

theorem Regular.placed (h : x.Regular) {j : Job ε} (hj : j ∈ x.scanner.jobs) :
    ∃ n, j.Placed x.scanner.waiting x.scanner.worker n ∧
      Walk.Apart j.plan (.fresh j.plan.root) j.handle.token.isCancelled j.walk := by
  obtain ⟨n, job⟩ := List.mem_iff_getElem?.mp hj
  exact ⟨n, h.orderly.placed n j job, h.separate n j job⟩

theorem Regular.serial (h : x.Regular) (w : Surroundings ε) : x.Serial w := by
  constructor
  · intro m n a b first second running running'
    exact h.orderly.running_unique first second (Future.stage_of_isRunning running)
      (Future.stage_of_isRunning running')
  · intro m n a b less earlier later started
    exact h.orderly.done_of_started less earlier later started
  · have whole := h.accounted.whole
    rwa [Core.walks, List.map_map] at whole
  · intro j hj unstarted
    obtain ⟨n, fits, -⟩ := h.placed hj
    exact fits.untouched unstarted
  · intro j hj
    obtain ⟨n, -, apart⟩ := h.placed hj
    exact apart
  · intro j hj o finished
    obtain ⟨n, fits, -⟩ := h.placed hj
    exact fits.finished o finished
  · intro w' capacity latched turns a ha b hb plan free free' o o' finished finished'
    have other := ((regular_fresh capacity latched).follow w' turns).regular
    exact h.alike other ha hb plan free free' finished finished'
  · intro turns n j job
    exact (h.follow w turns).later n j job
  · exact h.total

/-- The jobs of a scanner are run one at a time in the order of their submission, and what they put
comes in this order. Each comes to what it comes to by itself, so that neither the end of another
job nor any change of the settings can be seen in it. -/
theorem follow_serial (w : Surroundings ε) (capacity : Option Nat) (latched : Bool)
    (turns : List Turn) : ((fresh capacity latched).follow w turns).Serial w :=
  ((regular_fresh capacity latched).follow w turns).regular.serial w

end Traffic
end FileCensus
