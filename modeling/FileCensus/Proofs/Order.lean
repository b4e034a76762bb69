import FileCensus.Proofs.Moves
import FileCensus.Proofs.Record

/-!
The jobs of a scanner come one after the other. Those that wait are behind all that were taken up,
and at most one runs; so what the walks have put is on the queue job by job, and the counts add up.
This holds whatever callbacks do, for none of them touches a job.
-/

namespace FileCensus

variable {ε κ : Type}

section Lists

variable {α : Type}

theorem getElem?_set_cases {l : List α} {n m : Nat} {a b : α} (h : (l.set n b)[m]? = some a) :
    m = n ∧ a = b ∨ m ≠ n ∧ l[m]? = some a := by
  rw [List.getElem?_set] at h
  split at h
  · next same =>
    split at h
    · exact Or.inl ⟨same.symm, (Option.some.inj h).symm⟩
    · cases h
  · next different => exact Or.inr ⟨Ne.symm different, h⟩

theorem getElem?_snoc_cases {l : List α} {n : Nat} {a b : α} (h : (l ++ [b])[n]? = some a) :
    n < l.length ∧ l[n]? = some a ∨ n = l.length ∧ a = b := by
  rcases Nat.lt_or_ge n l.length with old | new
  · rw [List.getElem?_append_left old] at h
    exact Or.inl ⟨old, h⟩
  · rw [List.getElem?_append_right new, List.getElem?_singleton] at h
    split at h
    · exact Or.inr ⟨by omega, (Option.some.inj h).symm⟩
    · cases h

theorem map_set_of_eq {β : Type} {l : List α} {n : Nat} {a b : α} (f : α → β) (h : l[n]? = some a)
    (same : f b = f a) : (l.set n b).map f = l.map f := by
  rw [List.map_set, same]
  exact set_getElem?_self (by rw [List.getElem?_map, h]; rfl)

theorem sum_set {l : List Nat} {n a : Nat} (h : l[n]? = some a) (b : Nat) :
    (l.set n b).sum + a = l.sum + b := by
  induction l generalizing n with
  | nil => cases h
  | cons x l ih =>
      cases n with
      | zero =>
          cases h
          simp only [List.set_cons_zero, List.sum_cons]
          omega
      | succ n =>
          have rest := ih (n := n) h
          simp only [List.set_cons_succ, List.sum_cons]
          omega

/-- A list that is the last one with anything in it may grow at its end. -/
theorem flatten_set {l : List (List α)} {n : Nat} {a : List α} (h : l[n]? = some a)
    (later : ∀ m b, n < m → l[m]? = some b → b = []) (new : List α) :
    (l.set n (a ++ new)).flatten = l.flatten ++ new := by
  induction l generalizing n with
  | nil => cases h
  | cons x l ih =>
      cases n with
      | zero =>
          cases h
          have empty : l.flatten = [] := by
            apply List.flatten_eq_nil_iff.mpr
            intro b hb
            obtain ⟨m, found⟩ := List.mem_iff_getElem?.mp hb
            exact later (m + 1) b (Nat.succ_pos m) found
          simp [empty]
      | succ n =>
          have rest := ih (n := n) h fun m b less => later (m + 1) b (Nat.succ_lt_succ less)
          simp [rest]

end Lists

/-- What may become of the stage of a job that is not taken up. -/
def Stage.Passes (a b : Stage) : Prop :=
    b = a ∨ a = .pending ∧ b = .cancelled ∨ a = .cancelled ∧ b = .cancelledNoted

theorem Handle.Change.stage {h h' : Handle κ} {cs : List κ} (c : h.Change h' cs) :
    h.future.stage.Passes h'.future.stage := by
  cases c with
  | keeps | flags => exact Or.inl rfl
  | withdraws pending => exact Or.inr (Or.inl ⟨pending, rfl⟩)
  | notes cancelled => exact Or.inr (Or.inr ⟨cancelled, rfl⟩)

/-- A job in its place among the others. -/
structure Job.Placed (waiting : List Nat) (worker : Worker) (n : Nat) (j : Job ε) : Prop where
  pending : j.handle.future.stage = .pending → n ∈ waiting
  running : j.handle.future.stage = .running → worker = .running n
  before : j.handle.future.stage.isStarted = true →
    (∀ m ∈ waiting, n < m) ∧ ∀ m, worker = .running m → n ≤ m
  untouched : j.handle.future.stage.isStarted = false → j.walk = .fresh j.plan.root
  finished : ∀ o, j.handle.future.stage = .finished o → j.walk.phase = .ended o

theorem Stage.Passes.running {a b : Stage} (h : a.Passes b) (running : a = .running) :
    b = .running := by
  rcases h with same | ⟨before, -⟩ | ⟨before, -⟩
  · rw [same, running]
  · simp [running] at before
  · simp [running] at before

/-- A job that will not be taken up any more has its place anywhere. -/
theorem Job.placed_of_refused (waiting : List Nat) (worker : Worker) (n : Nat) {j : Job ε}
    (refused : j.handle.future.isCancelled = true) (untouched : j.walk = .fresh j.plan.root) :
    j.Placed waiting worker n := by
  cases stage : j.handle.future.stage with
  | cancelled | cancelledNoted =>
      constructor <;> rw [stage]
      · exact nofun
      · exact nofun
      · exact nofun
      · exact fun _ => untouched
      · exact nofun
  | pending | running | finished _ => simp [Future.isCancelled, stage] at refused

theorem Job.Placed.passes {waiting : List Nat} {worker : Worker} {n : Nat} {j : Job ε}
    {h : Handle Callback} (placed : j.Placed waiting worker n)
    (passes : j.handle.future.stage.Passes h.future.stage) :
    ({ j with handle := h } : Job ε).Placed waiting worker n := by
  rcases passes with same | ⟨before, after⟩ | ⟨before, after⟩
  · constructor <;> rw [same]
    · exact placed.pending
    · exact placed.running
    · exact placed.before
    · exact placed.untouched
    · exact placed.finished
  · refine Job.placed_of_refused _ _ _ ?_ (placed.untouched (by rw [before]; rfl))
    simp [Future.isCancelled, after]
  · refine Job.placed_of_refused _ _ _ ?_ (placed.untouched (by rw [before]; rfl))
    simp [Future.isCancelled, after]

namespace Core

/-- The jobs that wait do so in the order of their submission, and all others are before them. -/
structure Orderly (c : Core ε) : Prop where
  entered : ∀ n ∈ c.waiting, n < c.jobs.length
  sorted : c.waiting.Pairwise (· < ·)
  busy : ∀ n, c.worker = .running n → ∃ j, c.jobs[n]? = some j ∧ j.handle.future.stage = .running
  placed : ∀ n (j : Job ε), c.jobs[n]? = some j → j.Placed c.waiting c.worker n

variable {c c' : Core ε} {calls : List Call} {n m : Nat} {j : Job ε}

theorem Performs.same {call : Call} (h : c.Performs call c' calls) :
    c'.jobs = c.jobs ∧ c'.waiting = c.waiting ∧ c'.worker = c.worker ∧
      ∃ latch, c'.channel = { c.channel with latch := latch } := by
  cases h with
  | note => exact ⟨rfl, rfl, rfl, _, rfl⟩
  | countDown left_eq => exact ⟨rfl, rfl, rfl, _, rfl⟩
  | closeLatch => exact ⟨rfl, rfl, rfl, _, rfl⟩

theorem Moves.length (move : c.Moves c' calls) : c'.jobs.length = c.jobs.length := by
  cases move with
  | rests | strays _ _ | halts _ _ | frees _ => rfl
  | handles _ _ | drops _ _ _ _ | starts _ _ _ _ | walks _ _ _ | settles _ _ _ _ =>
      exact List.length_set

theorem Performs.length {call : Call} (perf : c.Performs call c' calls) :
    c'.jobs.length = c.jobs.length := by
  rw [perf.same.1]

theorem Tells.jobs (tell : c.Tells c') : c'.jobs = c.jobs := by
  cases tell with
  | tells _ perf => exact perf.same.1

theorem Tells.length (tell : c.Tells c') : c'.jobs.length = c.jobs.length := by
  rw [tell.jobs]

theorem Registers.length {k : Callback} (add : c.Registers n k c' calls) :
    c'.jobs.length = c.jobs.length := by
  cases add with
  | lost _ | answers _ _ => rfl
  | joins _ _ => exact List.length_set

/-- A core with the same jobs, as long as nobody starts or stops running one. -/
theorem Orderly.of_same (h : c.Orderly) (jobs : c'.jobs = c.jobs) (waiting : c'.waiting = c.waiting)
    (worker : ∀ n, c'.worker = .running n ↔ c.worker = .running n) : c'.Orderly where
  entered := by rw [waiting, jobs]; exact h.entered
  sorted := by rw [waiting]; exact h.sorted
  busy n runs := by rw [jobs]; exact h.busy n ((worker n).mp runs)
  placed n j job := by
    rw [jobs] at job
    rw [waiting]
    have placed := h.placed n j job
    exact ⟨placed.pending, fun running => (worker n).mpr (placed.running running),
      fun started => ⟨(placed.before started).1,
        fun m runs => (placed.before started).2 m ((worker m).mp runs)⟩,
      placed.untouched, placed.finished⟩

theorem placed_set {waiting : List Nat} {worker : Worker} {j' : Job ε}
    (others : ∀ m (a : Job ε), m ≠ n → c.jobs[m]? = some a → a.Placed waiting worker m)
    (this : j'.Placed waiting worker n) :
    ∀ m (a : Job ε), (c.jobs.set n j')[m]? = some a → a.Placed waiting worker m := by
  intro m a found
  rcases getElem?_set_cases found with ⟨rfl, rfl⟩ | ⟨different, old⟩
  · exact this
  · exact others m a different old

theorem Orderly.busy_set (h : c.Orderly) (j' : Job ε) (job : c.jobs[n]? = some j)
    (same : j.handle.future.stage = .running → j'.handle.future.stage = .running) {m : Nat}
    (runs : c.worker = .running m) :
    ∃ a, (c.jobs.set n j')[m]? = some a ∧ a.handle.future.stage = .running := by
  obtain ⟨a, found, running⟩ := h.busy m runs
  by_cases this : n = m
  · subst this
    have less : n < c.jobs.length := (List.getElem?_eq_some_iff.mp job).1
    cases job.symm.trans found
    exact ⟨j', by simp [less], same running⟩
  · exact ⟨a, by rw [List.getElem?_set_ne this, found], running⟩

theorem orderly_of_empty (jobs : c.jobs = []) (waiting : c.waiting = []) (free : c.worker = .free) :
    c.Orderly where
  entered n waits := by
    rw [waiting] at waits
    cases waits
  sorted := by
    rw [waiting]
    exact .nil
  busy n runs := by
    rw [free] at runs
    cases runs
  placed n j job := by
    rw [jobs, List.getElem?_nil] at job
    cases job

theorem Orderly.enters (h : c.Orderly) (p : Plan ε) : (c.entered p).Orderly where
  entered n waits := by
    rcases List.mem_append.mp waits with old | new
    · have less := h.entered n old
      simp only [entered_jobs, List.length_append, List.length_singleton]
      omega
    · cases List.mem_singleton.mp new
      simp
  sorted := by
    refine List.pairwise_append.mpr ⟨h.sorted, List.pairwise_singleton _ _, ?_⟩
    intro n old m new
    cases List.mem_singleton.mp new
    exact h.entered n old
  busy n runs := by
    obtain ⟨j, job, running⟩ := h.busy n runs
    have less : n < c.jobs.length := (List.getElem?_eq_some_iff.mp job).1
    exact ⟨j, by rw [entered_jobs, List.getElem?_append_left less, job], running⟩
  placed n j job := by
    rw [entered_jobs] at job
    rcases getElem?_snoc_cases job with ⟨old, job⟩ | ⟨last, rfl⟩
    · have placed := h.placed n j job
      refine ⟨fun pending => List.mem_append_left _ (placed.pending pending), placed.running,
        fun started => ⟨fun m waits => ?_, (placed.before started).2⟩, placed.untouched,
        placed.finished⟩
      rcases List.mem_append.mp waits with before | last
      · exact (placed.before started).1 m before
      · exact List.mem_singleton.mp last ▸ old
    · exact ⟨fun _ => by simp [last], nofun, nofun, fun _ => rfl, nofun⟩

theorem Orderly.handles (h : c.Orderly) {hd : Handle Callback} (job : c.jobs[n]? = some j)
    (passes : j.handle.future.stage.Passes hd.future.stage) :
    Orderly { c with jobs := c.jobs.set n { j with handle := hd } } := by
  constructor
  · intro m waits
    rw [List.length_set]
    exact h.entered m waits
  · exact h.sorted
  · exact fun m runs => h.busy_set _ job passes.running runs
  · apply placed_set
    · exact fun m a _ found => h.placed m a found
    · exact (h.placed n j job).passes passes

theorem Orderly.drops (h : c.Orderly) {rest : List Nat} {hd : Handle Callback}
    (next : c.waiting = n :: rest) (job : c.jobs[n]? = some j)
    (passes : j.handle.future.stage.Passes hd.future.stage) (refused : hd.future.stage ≠ .pending) :
    Orderly { c with jobs := c.jobs.set n { j with handle := hd }, waiting := rest } := by
  have fewer : ∀ m ∈ rest, m ∈ c.waiting := fun m waits => next ▸ List.mem_cons_of_mem n waits
  have sorted := h.sorted
  rw [next, List.pairwise_cons] at sorted
  constructor
  · intro m waits
    rw [List.length_set]
    exact h.entered m (fewer m waits)
  · exact sorted.2
  · exact fun m runs => h.busy_set _ job passes.running runs
  · apply placed_set
    · intro m a different found
      have placed := h.placed m a found
      refine ⟨fun pending => ?_, placed.running, fun started => ⟨fun k waits => ?_,
        (placed.before started).2⟩, placed.untouched, placed.finished⟩
      · have waits := placed.pending pending
        rw [next] at waits
        exact (List.mem_cons.mp waits).resolve_left different
      · exact (placed.before started).1 k (fewer k waits)
    · have placed := (h.placed n j job).passes passes
      exact ⟨fun pending => absurd pending refused, placed.running,
        fun started => ⟨fun k waits => sorted.1 k waits, (placed.before started).2⟩,
        placed.untouched, placed.finished⟩

theorem Orderly.starts (h : c.Orderly) {rest : List Nat} (free : c.worker = .free)
    (next : c.waiting = n :: rest) (job : c.jobs[n]? = some j) :
    Orderly { c with
      jobs := c.jobs.set n { j with
        handle := { j.handle with future := { j.handle.future with stage := .running } } }
      waiting := rest
      worker := .running n } := by
  have fewer : ∀ m ∈ rest, m ∈ c.waiting := fun m waits => next ▸ List.mem_cons_of_mem n waits
  have sorted := h.sorted
  rw [next, List.pairwise_cons] at sorted
  have less : n < c.jobs.length := (List.getElem?_eq_some_iff.mp job).1
  constructor
  · intro m waits
    rw [List.length_set]
    exact h.entered m (fewer m waits)
  · exact sorted.2
  · rintro m runs
    cases runs
    exact ⟨_, List.getElem?_set_self less, rfl⟩
  · apply placed_set
    · intro m a different found
      have placed := h.placed m a found
      refine ⟨fun pending => ?_, fun running => ?_, fun started => ⟨fun k waits => ?_, ?_⟩,
        placed.untouched, placed.finished⟩
      · have waits := placed.pending pending
        rw [next] at waits
        exact (List.mem_cons.mp waits).resolve_left different
      · have runs := placed.running running
        rw [free] at runs
        cases runs
      · exact (placed.before started).1 k (fewer k waits)
      · rintro k runs
        cases runs
        exact Nat.le_of_lt ((placed.before started).1 n (by simp [next]))
    · refine ⟨nofun, fun _ => rfl, fun _ => ⟨sorted.1, ?_⟩, nofun, nofun⟩
      rintro k runs
      cases runs
      exact Nat.le_refl n

theorem Orderly.walks (h : c.Orderly) (runs : c.worker = .running n) (job : c.jobs[n]? = some j)
    (w : Walk ε) (channel : Channel ε) :
    Orderly { c with jobs := c.jobs.set n { j with walk := w }, channel := channel } := by
  have running : j.handle.future.stage = .running := by
    obtain ⟨a, found, running⟩ := h.busy n runs
    cases job.symm.trans found
    exact running
  constructor
  · intro m waits
    rw [List.length_set]
    exact h.entered m waits
  · exact h.sorted
  · exact fun m runs => h.busy_set { j with walk := w } job id runs
  · apply placed_set
    · exact fun m a _ found => h.placed m a found
    · have placed := h.placed n j job
      refine ⟨placed.pending, placed.running, placed.before, fun unstarted => ?_, fun o ended => ?_⟩
      · simp [running, Stage.isStarted] at unstarted
      · simp [running] at ended

theorem Orderly.settles (h : c.Orderly) (runs : c.worker = .running n) (job : c.jobs[n]? = some j)
    {o : Outcome} (ended : j.walk.phase = .ended o) (cs : List Callback) :
    Orderly { c with
      jobs := c.jobs.set n { j with
        handle := { j.handle with future := { j.handle.future with stage := .finished o } } }
      worker := .telling n cs } := by
  have started : j.handle.future.stage.isStarted = true := by
    obtain ⟨a, found, running⟩ := h.busy n runs
    cases job.symm.trans found
    rw [running]
    rfl
  constructor
  · intro m waits
    rw [List.length_set]
    exact h.entered m waits
  · exact h.sorted
  · exact nofun
  · apply placed_set
    · intro m a different found
      have placed := h.placed m a found
      refine ⟨placed.pending, fun running => ?_, fun started => ⟨(placed.before started).1, nofun⟩,
        placed.untouched, placed.finished⟩
      have same := placed.running running
      rw [runs] at same
      cases same
      exact absurd rfl different
    · refine ⟨nofun, nofun, fun _ => ⟨((h.placed n j job).before started).1, nofun⟩, nofun, ?_⟩
      rintro o' finished
      cases finished
      exact ended

theorem Orderly.moves (h : c.Orderly) (move : c.Moves c' calls) : c'.Orderly := by
  cases move with
  | rests => exact h
  | handles job change => exact h.handles job change.stage
  | drops next job change refused => exact h.drops next job change.stage refused
  | @strays n rest next lost =>
      have less := h.entered n (by simp [next])
      have beyond := List.getElem?_eq_none_iff.mp lost
      omega
  | starts free next job pending => exact h.starts free next job
  | walks runs job awake => exact h.walks runs job _ _
  | settles runs job ended undone => exact h.settles runs job ended _
  | @halts n runs lost =>
      obtain ⟨j, job, running⟩ := h.busy n runs
      have done := lost j job
      simp [Future.isDone, running] at done
  | frees told => exact h.of_same rfl rfl fun n => by simp [told]

theorem Orderly.tells (h : c.Orderly) (tell : c.Tells c') : c'.Orderly := by
  cases tell with
  | @tells n k rest c' more telling performs =>
      obtain ⟨jobs, waiting, -, -⟩ := performs.same
      exact h.of_same jobs waiting fun n => by simp [telling]

theorem Orderly.registers (h : c.Orderly) {k : Callback} (add : c.Registers n k c' calls) :
    c'.Orderly := by
  cases add with
  | lost _ | answers _ _ => exact h
  | joins job _ => exact h.handles job (Or.inl rfl)

/-- A job is started only when all jobs before it are done. -/
theorem Orderly.done_of_started (h : c.Orderly) {a b : Job ε} (less : n < m)
    (earlier : c.jobs[n]? = some a) (later : c.jobs[m]? = some b)
    (started : b.handle.future.stage.isStarted = true) : a.handle.future.isDone = true := by
  have placed := h.placed n a earlier
  have before := (h.placed m b later).before started
  cases stage : a.handle.future.stage with
  | pending =>
      have behind := before.1 n (placed.pending stage)
      omega
  | running =>
      have behind := before.2 n (placed.running stage)
      omega
  | cancelled | cancelledNoted | finished _ => simp [Future.isDone, stage]

theorem Orderly.running_unique (h : c.Orderly) {a b : Job ε} (first : c.jobs[n]? = some a)
    (second : c.jobs[m]? = some b) (running : a.handle.future.stage = .running)
    (running' : b.handle.future.stage = .running) : n = m := by
  have same := (h.placed n a first).running running
  rw [(h.placed m b second).running running'] at same
  cases same
  rfl

def walks (c : Core ε) : List (Walk ε) :=
    c.jobs.map (·.walk)

theorem walks_set_handle (job : c.jobs[n]? = some j) (h : Handle Callback) :
    (c.jobs.set n { j with handle := h }).map (·.walk) = c.walks :=
  map_set_of_eq _ job rfl

theorem walks_getElem? (job : c.jobs[n]? = some j) : c.walks[n]? = some j.walk := by
  rw [walks, List.getElem?_map, job]
  rfl

/-- Only the walk of the job that runs can be on its way. -/
theorem Orderly.sum_phases (h : c.Orderly) (f : Phase ε → Nat) (idle : f .idle = 0)
    (ended : ∀ o, f (.ended o) = 0)
    (running : ∀ n j, c.worker = .running n → c.jobs[n]? = some j → f j.walk.phase = 0) :
    (c.walks.map fun w => f w.phase).sum = 0 := by
  apply List.sum_eq_zero
  intro k hk
  obtain ⟨v, hv, rfl⟩ := List.mem_map.mp hk
  obtain ⟨j, hj, rfl⟩ := List.mem_map.mp hv
  obtain ⟨n, job⟩ := List.mem_iff_getElem?.mp hj
  have placed := h.placed n j job
  cases stage : j.handle.future.stage with
  | pending | cancelled | cancelledNoted =>
      rw [placed.untouched (by rw [stage]; rfl)]
      exact idle
  | finished o =>
      rw [placed.finished o stage]
      exact ended o
  | running => exact running n j (placed.running stage) job

/-- What was taken from the queue and what is on it is what the walks have put, job by job, and the
counts follow. -/
structure Accounted (got : List ε) (c : Core ε) : Prop where
  whole : got ++ c.channel.items = (c.walks.map (·.put)).flatten
  queued : ∀ w ∈ c.walks, w.progress.queued = w.put.length
  total : c.channel.total + (c.walks.map fun w => Walk.uncounted w.phase).sum =
    (c.walks.map (·.progress.queued)).sum

variable {got : List ε}

theorem accounted_of_empty (jobs : c.jobs = []) (items : c.channel.items = [])
    (total : c.channel.total = 0) : c.Accounted [] where
  whole := by
    rw [items, walks, jobs]
    rfl
  queued w hw := by
    rw [walks, jobs] at hw
    cases hw
  total := by
    rw [total, walks, jobs]
    rfl

theorem Accounted.of_same (h : c.Accounted got) (walks : c'.walks = c.walks)
    (items : c'.channel.items = c.channel.items) (total : c'.channel.total = c.channel.total) :
    c'.Accounted got where
  whole := by rw [items, walks]; exact h.whole
  queued := by rw [walks]; exact h.queued
  total := by rw [total, walks]; exact h.total

theorem Accounted.get (h : c.Accounted got) {e : ε} {channel : Channel ε}
    (taken : c.channel.get? = some (e, channel)) :
    Accounted (got ++ [e]) { c with channel := channel } := by
  simp only [Channel.get?] at taken
  split at taken
  · next first rest items =>
    cases taken
    refine ⟨?_, h.queued, h.total⟩
    rw [List.append_assoc, List.singleton_append, ← items]
    exact h.whole
  · cases taken

theorem Accounted.of_handle (h : c.Accounted got) (job : c.jobs[n]? = some j)
    (hd : Handle Callback) (jobs : c'.jobs = c.jobs.set n { j with handle := hd })
    (channel : c'.channel = c.channel) : c'.Accounted got := by
  refine h.of_same ?_ (by rw [channel]) (by rw [channel])
  rw [walks, jobs, walks_set_handle job]

theorem Accounted.walk (h : c.Accounted got) (orderly : c.Orderly) (runs : c.worker = .running n)
    (job : c.jobs[n]? = some j) {new : List ε} {r : Walk ε × Channel ε}
    (step : Walk.Delivers j.walk c.channel r new) :
    Accounted got { c with jobs := c.jobs.set n { j with walk := r.1 }, channel := r.2 } := by
  have old := walks_getElem? job
  have walks : Core.walks { c with jobs := c.jobs.set n { j with walk := r.1 }, channel := r.2 } =
      c.walks.set n r.1 := by
    simp [Core.walks, List.map_set]
  constructor
  · have puts : (c.walks.map (·.put))[n]? = some j.walk.put := by rw [List.getElem?_map, old]; rfl
    rw [walks, List.map_set, step.put, flatten_set puts ?_ new, ← h.whole, step.items,
      List.append_assoc]
    -- no later job has been taken up
    intro m es less found
    rw [List.getElem?_map, Core.walks, List.getElem?_map] at found
    cases later : c.jobs[m]? with
    | none => simp [later] at found
    | some a =>
        have placed := orderly.placed m a later
        have unstarted : a.handle.future.stage.isStarted = false := by
          by_contra started
          have behind := (orderly.placed m a later).before (by simpa using started)
          have bound := behind.2 n runs
          omega
        simp only [later, placed.untouched unstarted, Option.map_some] at found
        exact (Option.some.inj found).symm
  · rw [walks]
    intro w hw
    rcases List.mem_or_eq_of_mem_set hw with before | rfl
    · exact h.queued w before
    · rw [step.queued, step.put, List.length_append, h.queued j.walk (List.mem_of_getElem? old)]
  · have total := h.total
    have counted := step.total
    have queued : (c.walks.map (·.progress.queued))[n]? = some j.walk.progress.queued := by
      rw [List.getElem?_map, old]; rfl
    have open_ : (c.walks.map fun w => Walk.uncounted w.phase)[n]? =
        some (Walk.uncounted j.walk.phase) := by
      rw [List.getElem?_map, old]; rfl
    have left := sum_set open_ (Walk.uncounted r.1.phase)
    have right := sum_set queued r.1.progress.queued
    rw [step.queued] at right
    rw [walks, List.map_set, List.map_set, step.queued]
    simp only
    omega

theorem Accounted.enters (h : c.Accounted got) (p : Plan ε) : (c.entered p).Accounted got := by
  have walks : (c.entered p).walks = c.walks ++ [.fresh p.root] := by
    simp [Core.walks, Core.entered, Job.fresh]
  constructor
  · rw [walks, entered_channel, h.whole]
    simp [Walk.put, Walk.trace, Walk.fresh]
  · rw [walks]
    intro w hw
    rcases List.mem_append.mp hw with old | new
    · exact h.queued w old
    · cases List.mem_singleton.mp new
      rfl
  · rw [walks]
    simpa [Walk.fresh, Walk.uncounted, Progress.fresh] using h.total

theorem Accounted.moves (h : c.Accounted got) (orderly : c.Orderly) (move : c.Moves c' calls) :
    c'.Accounted got := by
  cases move with
  | rests => exact h
  | handles job _ | drops _ job _ _ | starts _ _ job _ | settles _ job _ _ =>
      exact h.of_handle job _ rfl rfl
  | strays _ _ | halts _ _ | frees _ => exact h.of_same rfl rfl rfl
  | walks runs job _ =>
      obtain ⟨new, step⟩ := (Walk.step_advances _ _ _ _).delivers
      exact h.walk orderly runs job step

theorem Accounted.performs (h : c.Accounted got) {call : Call} (perf : c.Performs call c' calls) :
    c'.Accounted got := by
  obtain ⟨jobs, -, -, latch, channel⟩ := perf.same
  refine h.of_same ?_ ?_ ?_
  · simp only [Core.walks, jobs]
  · rw [channel]
  · rw [channel]

theorem Accounted.tells (h : c.Accounted got) (tell : c.Tells c') : c'.Accounted got := by
  cases tell with
  | tells _ performs => exact (h.performs performs).of_same rfl rfl rfl

theorem Accounted.registers (h : c.Accounted got) {k : Callback} (add : c.Registers n k c' calls) :
    c'.Accounted got := by
  cases add with
  | lost _ | answers _ _ => exact h
  | joins job _ => exact h.of_handle job _ rfl rfl

end Core
end FileCensus
