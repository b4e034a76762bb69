import FileCensus.Proofs.Conservation
import FileCensus.Proofs.Order

/-!
A group of jobs is counted down by callbacks. A job that is not done owes those that were added to
it, the worker owes those of the job that it has brought to its end, and whoever runs callbacks owes
the rest of them. The count is what is owed of it, so that the latch is sealed by the one callback
that finds nothing left, and not before all jobs are done. Who runs a callback does not matter.
-/

namespace FileCensus

variable {ε : Type}

def Job.owed (k : Callback) (j : Job ε) : Nat :=
    if j.handle.isDone then 0 else j.handle.future.callbacks.count k

/-- How many of these calls are of one callback. -/
def callsOf (k : Callback) (calls : List Call) : Nat :=
    (calls.map (·.2)).count k

theorem callsOf_map (k : Callback) (n : Nat) (cs : List Callback) :
    callsOf k (cs.map (n, ·)) = cs.count k := by
  simp [callsOf]

theorem callsOf_append (k : Callback) (xs ys : List Call) :
    callsOf k (xs ++ ys) = callsOf k xs + callsOf k ys := by
  simp [callsOf]

theorem callsOf_cons (k : Callback) (call : Call) (calls : List Call) :
    callsOf k (call :: calls) = callsOf k [call] + callsOf k calls :=
  callsOf_append k [call] calls

theorem callsOf_self (n : Nat) (k : Callback) : callsOf k [(n, k)] = 1 := by
  simp [callsOf]

theorem callsOf_other {k k' : Callback} (n : Nat) (other : k ≠ k') : callsOf k' [(n, k)] = 0 := by
  simp [callsOf, other]

/-- How often the latch is sealed by running the first of some callbacks. -/
def sealsAt (cs : List Callback) : Nat :=
    if cs.head? = some .closeLatch then 1 else 0

theorem Handle.Change.owed {j : Job ε} {h : Handle Callback} {cs : List Callback}
    (change : j.handle.Change h cs) (k : Callback) :
    ({ j with handle := h } : Job ε).owed k + cs.count k = j.owed k := by
  cases change with
  | keeps | flags => rfl
  | withdraws pending => simp [Job.owed, Handle.isDone, Future.isDone, pending]
  | notes cancelled => simp [Job.owed, Handle.isDone, Future.isDone, cancelled]

/-- A walk never seals the latch. -/
theorem Walk.step_latch (p : Plan ε) (t : Token) (w : Walk ε) {c : Channel ε} {l : Latch}
    (latch : c.latch = some l) :
    ∃ l', (w.step p t c).2.latch = some l' ∧ l'.isSealed = l.isSealed := by
  generalize result : w.step p t c = r
  have a : Advance p t w c r := result ▸ step_advances p t w c
  cases a with
  | @signals path e c' h signalled =>
      simp only [Channel.signal, latch, Latch.signal] at signalled
      split at signalled
      · cases signalled
      · cases signalled
        exact ⟨_, rfl, rfl⟩
  | _ => exact ⟨l, latch, rfl⟩

namespace Core

variable {c c' : Core ε} {calls : List Call} {n m : Nat} {j : Job ε} {k : Callback}

/-- How often a callback is owed by the jobs and by the worker. -/
def debt (c : Core ε) (k : Callback) : Nat :=
    (c.jobs.map (·.owed k)).sum + c.worker.callbacks.count k

theorem debt_set {j' : Job ε} (job : c.jobs[n]? = some j) (jobs : c'.jobs = c.jobs.set n j')
    {paid new : Nat} (owed : j'.owed k + c'.worker.callbacks.count k + paid =
      j.owed k + c.worker.callbacks.count k + new) : c'.debt k + paid = c.debt k + new := by
  have before : (c.jobs.map (·.owed k))[n]? = some (j.owed k) := by
    rw [List.getElem?_map, job]
    rfl
  have moved := sum_set before (j'.owed k)
  rw [← List.map_set] at moved
  rw [Core.debt, jobs, Core.debt]
  omega

/-- What a move sets off was owed before, and nothing else is. -/
theorem Moves.debt (move : c.Moves c' calls) (orderly : c.Orderly) (k : Callback) :
    c'.debt k + callsOf k calls = c.debt k := by
  cases move with
  | rests | strays _ _ => rfl
  | handles job change | drops _ job change _ =>
      have owed := change.owed k
      rw [callsOf_map]
      change _ = c.debt k + 0
      refine debt_set job rfl ?_
      simp only
      omega
  | starts free _ job pending =>
      change _ = c.debt k + 0
      refine debt_set job rfl ?_
      simp [Job.owed, Handle.isDone, Future.isDone, pending, free, Worker.callbacks, callsOf]
  | walks _ job _ =>
      change _ = c.debt k + 0
      refine debt_set job rfl ?_
      rfl
  | settles runs job _ undone =>
      change _ = c.debt k + 0
      refine debt_set job rfl ?_
      simp only [Job.owed, Handle.isDone, undone, runs, Worker.callbacks, callsOf]
      simp [Future.isDone]
  | halts runs lost =>
      obtain ⟨j, job, running⟩ := orderly.busy _ runs
      have done := lost j job
      simp [Future.isDone, running] at done
  | frees told => simp [Core.debt, told, Worker.callbacks, callsOf]

theorem Performs.debt {call : Call} (h : c.Performs call c' calls) : c'.debt k = c.debt k := by
  obtain ⟨jobs, -, worker, -⟩ := h.same
  rw [Core.debt, jobs, worker, Core.debt]

/-- The worker that runs a callback owes it no more, but owes what it gives rise to. -/
theorem Tells.debt (tell : c.Tells c') : ∃ n k c₁ more, c.worker.callbacks.head? = some k ∧
    c.Performs (n, k) c₁ more ∧ (∃ worker, c' = { c₁ with worker := worker }) ∧
      ∀ k', c'.debt k' + callsOf k' [(n, k)] = c.debt k' + callsOf k' more := by
  cases tell with
  | @tells n k rest c₁ more telling performs =>
      refine ⟨n, k, c₁, more, by rw [telling]; rfl, performs, ⟨_, rfl⟩, fun k' => ?_⟩
      have jobs : c₁.jobs = c.jobs := performs.same.1
      have first := callsOf_map k' n (k :: rest)
      rw [List.map_cons, callsOf_cons, callsOf_map] at first
      simp only [Core.debt, jobs, telling, Worker.callbacks, List.count_append]
      rw [← first]
      simp only [callsOf]
      omega

/-- A callback that is added to a job is owed from then on. -/
theorem Registers.debt (add : c.Registers n k c' calls) (known : n < c.jobs.length)
    (k' : Callback) : c'.debt k' + callsOf k' calls = c.debt k' + callsOf k' [(n, k)] := by
  cases add with
  | lost none =>
      have beyond := List.getElem?_eq_none_iff.mp none
      omega
  | answers _ _ => rfl
  | joins job undone =>
      refine debt_set job rfl ?_
      simp only [Job.owed, Handle.isDone, undone, callsOf]
      simp only [Future.isDone] at undone ⊢
      simp [undone]
      omega

theorem Orderly.debt_of_idle (h : c.Orderly) (idle : c.worker = .free ∧ c.waiting = [])
    (k : Callback) : c.debt k = 0 := by
  have each : (c.jobs.map (·.owed k)).sum = 0 := by
    apply List.sum_eq_zero
    intro v hv
    obtain ⟨j, hj, rfl⟩ := List.mem_map.mp hv
    obtain ⟨n, job⟩ := List.mem_iff_getElem?.mp hj
    have placed := h.placed n j job
    cases stage : j.handle.future.stage with
    | pending =>
        have waits := placed.pending stage
        rw [idle.2] at waits
        cases waits
    | running =>
        have runs := placed.running stage
        rw [idle.1] at runs
        cases runs
    | cancelled | cancelledNoted | finished _ =>
        simp [Job.owed, Handle.isDone, Future.isDone, stage]
  rw [Core.debt, each, idle.1]
  rfl

theorem entered_debt (c : Core ε) (p : Plan ε) (k : Callback) :
    (c.entered p).debt k = c.debt k := by
  simp [Core.debt, Job.owed, Job.fresh, Handle.fresh, Handle.isDone, Future.fresh, Future.isDone]

/-- A move neither adds callbacks to a job nor makes it undone. -/
theorem Moves.undone (move : c.Moves c' calls) {j' : Job ε} (found : c'.jobs[m]? = some j')
    (undone : j'.handle.isDone = false) : ∃ j, c.jobs[m]? = some j ∧ j.handle.isDone = false ∧
      j.handle.future.callbacks = j'.handle.future.callbacks := by
  have of_set {n : Nat} {a b : Job ε} (job : c.jobs[n]? = some a)
      (found : (c.jobs.set n b)[m]? = some j')
      (same : b.handle.isDone = false → a.handle.isDone = false ∧
        a.handle.future.callbacks = b.handle.future.callbacks) :
      ∃ j, c.jobs[m]? = some j ∧ j.handle.isDone = false ∧
        j.handle.future.callbacks = j'.handle.future.callbacks := by
    rcases getElem?_set_cases found with ⟨rfl, rfl⟩ | ⟨-, old⟩
    · exact ⟨a, job, same undone⟩
    · exact ⟨j', old, undone, rfl⟩
  cases move with
  | rests | strays _ _ | halts _ _ | frees _ => exact ⟨j', found, undone, rfl⟩
  | handles job change | drops _ job change _ =>
      refine of_set job found fun waits => ?_
      cases change with
      | keeps | flags => exact ⟨waits, rfl⟩
      | withdraws _ | notes _ => simp [Handle.isDone, Future.isDone] at waits
  | starts _ _ job pending =>
      refine of_set job found fun _ => ⟨?_, rfl⟩
      simp [Handle.isDone, Future.isDone, pending]
  | walks _ job _ => exact of_set job found fun waits => ⟨waits, rfl⟩
  | settles _ job _ _ =>
      refine of_set job found fun waits => ?_
      simp [Handle.isDone, Future.isDone] at waits

theorem Moves.countdowns (move : c.Moves c' calls) : c'.countdowns = c.countdowns := by
  cases move <;> rfl

theorem Moves.latch (move : c.Moves c' calls) {l : Latch} (latch : c.channel.latch = some l) :
    ∃ l', c'.channel.latch = some l' ∧ l'.isSealed = l.isSealed := by
  cases move with
  | walks _ _ _ => exact Walk.step_latch _ _ _ latch
  | rests | strays _ _ | halts _ _ | frees _ | handles _ _ | drops _ _ _ _ | starts _ _ _ _
  | settles _ _ _ _ => exact ⟨l, latch, rfl⟩

/-- No group has been started, and no callback is owed. -/
structure Ungrouped (c : Core ε) (owed : Callback → Nat) (seals : Nat) : Prop where
  countdowns : c.countdowns = []
  nothing : ∀ k, owed k = 0
  unsealed : seals = 0
  latch : ∃ l, c.channel.latch = some l ∧ l.isSealed = false

/-- One group has been started, and these of its jobs have still to be given their callback. -/
structure Grouped (c : Core ε) (left : List Nat) (owed : Callback → Nat) (seals : Nat) : Prop where
  count : c.countdowns = [left.length + owed (.countDown 0)]
  others : ∀ group, owed (.countDown group) ≠ 0 → group = 0
  sealing : owed .closeLatch + seals = if left.length + owed (.countDown 0) = 0 then 1 else 0
  latch : ∃ l, c.channel.latch = some l ∧ (l.isSealed = true ↔ seals = 1)
  covered : ∀ n (j : Job ε), c.jobs[n]? = some j → j.handle.isDone = false →
    n ∈ left ∨ .countDown 0 ∈ j.handle.future.callbacks
  known : ∀ n ∈ left, n < c.jobs.length

/-- The callbacks that are owed, those of the core among them, fit the count and the latch. -/
def Counted (c : Core ε) (owed : Callback → Nat) (seals : Nat) : Option (List Nat) → Prop
  | none => c.Ungrouped owed seals
  | some left => c.Grouped left owed seals

variable {owed owed' : Callback → Nat} {seals : Nat} {left : List Nat} {group : Option (List Nat)}

theorem Counted.moves (h : c.Counted owed seals group) (move : c.Moves c' calls) :
    c'.Counted owed seals group := by
  cases group with
  | none =>
      obtain ⟨l, latch, unsealed⟩ := h.latch
      obtain ⟨l', latch', same⟩ := move.latch latch
      exact ⟨move.countdowns.trans h.countdowns, h.nothing, h.unsealed, l', latch',
        same.trans unsealed⟩
  | some left =>
      obtain ⟨l, latch, sealed⟩ := h.latch
      obtain ⟨l', latch', same⟩ := move.latch latch
      refine ⟨move.countdowns.trans h.count, h.others, h.sealing, ⟨l', latch', by rwa [same]⟩,
        ?_, ?_⟩
      · intro n j' found waits
        obtain ⟨j, job, waits, callbacks⟩ := move.undone found waits
        rw [← callbacks]
        exact h.covered n j job waits
      · intro n hn
        rw [move.length]
        exact h.known n hn

/-- Only the counts of the callbacks that close the latch in the end matter. -/
theorem Grouped.of_total (h : c.Grouped left owed seals)
    (others : ∀ g, owed' (.countDown g) = owed (.countDown g))
    (last : owed' .closeLatch = owed .closeLatch) : c.Grouped left owed' seals := by
  refine ⟨?_, ?_, ?_, h.latch, h.covered, h.known⟩
  · rw [others, h.count]
  · intro g
    rw [others]
    exact h.others g
  · rw [others, last, h.sealing]

theorem Grouped.performs (h : c.Grouped left owed seals) (perf : c.Performs (n, k) c' calls)
    (total : ∀ k', owed' k' + callsOf k' [(n, k)] = owed k' + callsOf k' calls) :
    c'.Grouped left owed' (seals + sealsAt [k]) := by
  cases perf with
  | note =>
      refine h.of_total (fun g => ?_) ?_
      · exact (total (.countDown g)).trans rfl
      · exact (total .closeLatch).trans rfl
  | @countDown _ g less left_eq =>
      have none : ∀ g',
          callsOf (.countDown g') (if less = 0 then [(n, .closeLatch)] else []) = 0 := by
        intro g'
        split <;> rfl
      have paid := total (.countDown g)
      rw [none, callsOf_self] at paid
      obtain rfl : g = 0 := h.others g (by omega)
      have count : less = left.length + owed' (.countDown 0) := by
        rw [left_eq, h.count, List.getD_cons_zero]
        omega
      refine ⟨?_, fun g' owes => ?_, ?_, h.latch, h.covered, h.known⟩
      · simp only [h.count, List.set_cons_zero, count]
      · have less_owed := total (.countDown g')
        rw [none] at less_owed
        exact h.others g' (by omega)
      · have last : owed' .closeLatch = owed .closeLatch + callsOf .closeLatch _ :=
          total .closeLatch
        have before := h.sealing
        rw [if_neg (by omega)] at before
        rw [show sealsAt [.countDown 0] = 0 from rfl, ← count]
        split
        · next nothing =>
          rw [if_pos nothing, callsOf_self] at last
          omega
        · next something =>
          rw [if_neg something, show callsOf .closeLatch [] = 0 from rfl] at last
          omega
  | closeLatch =>
      have paid := total .closeLatch
      have before := h.sealing
      rw [callsOf_self, show callsOf .closeLatch [] = 0 from rfl] at paid
      have same : ∀ g, owed' (.countDown g) = owed (.countDown g) := fun g => total (.countDown g)
      obtain ⟨l, latch, -⟩ := h.latch
      split at before
      · next nothing =>
        have first : seals = 0 := by omega
        refine ⟨?_, fun g => ?_, ?_, ⟨l.close, ?_, ?_⟩, h.covered, h.known⟩
        · rw [same]
          exact h.count
        · rw [same]
          exact h.others g
        · rw [same, if_pos nothing, first, show sealsAt [.closeLatch] = 1 from rfl]
          omega
        · simp only [Channel.closeLatch, latch, Option.map_some]
        · simp [Latch.close, first, sealsAt]
      · omega

theorem Counted.withWorker (h : c.Counted owed seals group) (worker : Worker) :
    Counted { c with worker := worker } owed seals group := by
  cases group with
  | none => exact ⟨h.countdowns, h.nothing, h.unsealed, h.latch⟩
  | some left => exact ⟨h.count, h.others, h.sealing, h.latch, h.covered, h.known⟩

theorem Counted.performs (h : c.Counted owed seals group) (perf : c.Performs (n, k) c' calls)
    (total : ∀ k', owed' k' + callsOf k' [(n, k)] = owed k' + callsOf k' calls) :
    c'.Counted owed' (seals + sealsAt [k]) group := by
  cases group with
  | some left => exact Grouped.performs h perf total
  | none =>
      -- nothing is owed, so there is nothing to run
      have paid := total k
      have nothing := h.nothing k
      have fresh : callsOf k calls = 0 := by
        cases perf with
        | note | closeLatch => rfl
        | countDown => split <;> rfl
      rw [callsOf_self] at paid
      omega

theorem Counted.registers (h : c.Counted owed seals (some (n :: left)))
    (add : c.Registers n (.countDown 0) c' calls)
    (total : ∀ k, owed' k = owed k + callsOf k [(n, .countDown 0)]) :
    c'.Counted owed' seals (some left) := by
  have one := total (.countDown 0)
  have last : owed' .closeLatch = owed .closeLatch := total .closeLatch
  have before := h.sealing
  rw [callsOf_self] at one
  have count : left.length + owed' (.countDown 0) = (n :: left).length + owed (.countDown 0) := by
    rw [List.length_cons]
    omega
  have others : ∀ g, owed' (.countDown g) ≠ 0 → g = 0 := by
    intro g owes
    by_contra other
    rw [total, callsOf_other n (by simpa using Ne.symm other)] at owes
    exact other (h.others g owes)
  have sealing : owed' .closeLatch + seals =
      if left.length + owed' (.countDown 0) = 0 then 1 else 0 := by
    rw [count, last]
    exact before
  have known : ∀ m ∈ left, m < c.jobs.length := fun m hm => h.known m (List.mem_cons_of_mem n hm)
  cases add with
  | lost none =>
      have beyond := List.getElem?_eq_none_iff.mp none
      have within := h.known n List.mem_cons_self
      omega
  | @answers j job done =>
      refine ⟨count ▸ h.count, others, sealing, h.latch, ?_, known⟩
      intro m a found waits
      rcases h.covered m a found waits with more | joined
      · cases more with
        | head =>
            cases job.symm.trans found
            simp [Handle.isDone, done] at waits
        | tail _ more => exact Or.inl more
      · exact Or.inr joined
  | @joins j job undone =>
      refine ⟨count ▸ h.count, others, sealing, h.latch, ?_, ?_⟩
      · intro m a found waits
        rcases getElem?_set_cases found with ⟨-, rfl⟩ | ⟨different, old⟩
        · exact Or.inr (List.mem_append_right _ List.mem_cons_self)
        · rcases h.covered m a old waits with more | joined
          · cases more with
            | head => exact absurd rfl different
            | tail _ more => exact Or.inl more
          · exact Or.inr joined
      · intro m hm
        rw [List.length_set]
        exact known m hm

/-- The group is started with all jobs that there are. -/
theorem Counted.groups (h : c.Counted owed seals none) :
    Counted { c with
      countdowns := c.countdowns ++ [c.jobs.length]
      channel := if c.jobs.length = 0 then c.channel.closeLatch else c.channel } owed
      (seals + if c.jobs.length = 0 then 1 else 0) (some (List.range c.jobs.length)) := by
  obtain ⟨l, latch, unsealed⟩ := h.latch
  have first := h.unsealed
  refine ⟨?_, fun g owes => absurd (h.nothing _) owes, ?_, ?_, ?_, fun n => List.mem_range.mp⟩
  · simp [h.countdowns, h.nothing]
  · simp [h.nothing, first]
  · cases none : c.jobs.length with
    | zero => exact ⟨l.close, by simp [Channel.closeLatch, latch], by simp [Latch.close, first]⟩
    | succ _ => exact ⟨l, by simpa using latch, by simp [unsealed, first]⟩
  · intro n j job _
    exact Or.inl (List.mem_range.mpr (List.getElem?_eq_some_iff.mp job).1)

theorem Counted.seals_le (h : c.Counted owed seals group) : seals ≤ 1 := by
  cases group with
  | none =>
      have unsealed := h.unsealed
      omega
  | some left =>
      have sealing := h.sealing
      split at sealing <;> omega

theorem Counted.latch (h : c.Counted owed seals group) :
    ∃ l, c.channel.latch = some l ∧ (l.isSealed = true ↔ seals = 1) := by
  cases group with
  | some left => exact Grouped.latch h
  | none =>
      obtain ⟨l, latch, unsealed⟩ := h.latch
      exact ⟨l, latch, by simp [unsealed, h.unsealed]⟩

/-- Once the latch is sealed there is no job left that is not done. -/
theorem Counted.done_of_sealed (h : c.Counted owed seals group) (debts : ∀ k, c.debt k ≤ owed k)
    (sealed : seals = 1) (found : c.jobs[n]? = some j) : j.handle.isDone = true := by
  cases group with
  | none =>
      have unsealed := h.unsealed
      omega
  | some left =>
      have sealing := h.sealing
      have debt := debts (.countDown 0)
      by_contra waits
      have undone : j.handle.isDone = false := by simpa using waits
      split at sealing
      · next nothing =>
        rcases h.covered n j found undone with more | joined
        · have some_left : 0 < left.length := List.length_pos_of_mem more
          omega
        · have owes : 0 < j.owed (.countDown 0) := by
            rw [Job.owed, undone]
            exact List.count_pos_iff.mpr joined
          have each : j.owed (.countDown 0) ≤ (c.jobs.map (·.owed (.countDown 0))).sum :=
            List.le_sum_of_mem (List.mem_map_of_mem (List.mem_of_getElem? found))
          rw [Core.debt] at debt
          omega
      · omega

end Core
end FileCensus
