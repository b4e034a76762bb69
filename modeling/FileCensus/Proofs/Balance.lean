import FileCensus.Proofs.Countdown

/-!
The signals of a scanner. Each entry on the queue has its signal, unless the walk that put it has
still to give it or somebody has waited for it; and as long as a job runs nobody has sealed the
latch, so that no signal is refused.
-/

namespace FileCensus

variable {ε : Type}

namespace Core

variable {c c' : Core ε} {calls : List Call} {n m : Nat} {j : Job ε} {k : Callback}
variable {got : List ε} {due : Nat} {owed out out' : Callback → Nat} {seals : Nat} {left : List Nat}
variable {group : Option (List Nat)}

/-- How many entries have been put whose signals have not been given yet. -/
def unsignalled (c : Core ε) : Nat :=
    (c.walks.map fun w => Walk.unsignalled w.phase).sum

def Balanced (c : Core ε) (due : Nat) : Prop :=
    ∃ l, c.channel.latch = some l ∧ c.channel.items.length = l.pending + c.unsignalled + due

/-- Nobody will find a signal any more. -/
def Exhausted (c : Core ε) : Prop :=
    ∃ l, c.channel.latch = some l ∧ l.isExhausted = true

theorem Balanced.of_same (h : c.Balanced due) (walks : c'.walks = c.walks)
    (items : c'.channel.items = c.channel.items)
    (latch : ∀ l, c.channel.latch = some l →
      ∃ l', c'.channel.latch = some l' ∧ l'.pending = l.pending) : c'.Balanced due := by
  obtain ⟨l, before, balance⟩ := h
  obtain ⟨l', after, pending⟩ := latch l before
  refine ⟨l', after, ?_⟩
  rw [items, pending, unsignalled, walks]
  exact balance

theorem Balanced.of_handle (h : c.Balanced due) (job : c.jobs[n]? = some j) (hd : Handle Callback)
    (jobs : c'.jobs = c.jobs.set n { j with handle := hd }) (channel : c'.channel = c.channel) :
    c'.Balanced due := by
  refine h.of_same ?_ (by rw [channel]) fun l latch => ⟨l, by rw [channel, latch], rfl⟩
  rw [walks, jobs, walks_set_handle job]

theorem unsignalled_set (job : c.jobs[n]? = some j) {w : Walk ε}
    (jobs : c'.jobs = c.jobs.set n { j with walk := w }) :
    c'.unsignalled + Walk.unsignalled j.walk.phase = c.unsignalled + Walk.unsignalled w.phase := by
  have walks : c'.walks = c.walks.set n w := by
    rw [Core.walks, jobs, List.map_set]
    rfl
  have before : (c.walks.map fun w => Walk.unsignalled w.phase)[n]? =
      some (Walk.unsignalled j.walk.phase) := by
    rw [List.getElem?_map, walks_getElem? job]
    rfl
  rw [unsignalled, walks, List.map_set]
  exact sum_set before _

theorem Balanced.walk (h : c.Balanced due) (unsealed : c.channel.IsOpen)
    (job : c.jobs[n]? = some j) {r : Walk ε × Channel ε} (effect : j.walk.Effect c.channel r)
    (jobs : c'.jobs = c.jobs.set n { j with walk := r.1 }) (channel : c'.channel = r.2) :
    c'.Balanced due := by
  obtain ⟨l, latch, balance⟩ := h
  have moved := unsignalled_set job jobs
  cases effect with
  | none same _ steady =>
      refine ⟨l, by rw [channel, same, latch], ?_⟩
      rw [channel, same]
      omega
  | count same _ steady =>
      refine ⟨l, by rw [channel, same]; exact latch, ?_⟩
      rw [channel, same]
      simp only [Channel.count]
      omega
  | put _ grown _ before after =>
      refine ⟨l, by rw [channel, grown]; exact latch, ?_⟩
      rw [channel, grown]
      simp only [Channel.put, List.length_append, List.length_singleton]
      omega
  | signal signalled _ before after =>
      simp only [Channel.signal, latch, Latch.signal, unsealed l latch, Bool.false_eq_true,
        if_false, Except.map, Except.ok.injEq] at signalled
      refine ⟨_, by rw [channel, ← signalled], ?_⟩
      rw [channel, ← signalled]
      simp only
      omega
  | refused answer => exact absurd answer (unsealed.signal_ne _)

theorem Balanced.moves (h : c.Balanced due)
    (unsealed : ∀ n, c.worker = .running n → c.channel.IsOpen) (move : c.Moves c' calls) :
    c'.Balanced due := by
  cases move with
  | rests => exact h
  | handles job _ | drops _ job _ _ | starts _ _ job _ | settles _ job _ _ =>
      exact h.of_handle job _ rfl rfl
  | strays _ _ | halts _ _ | frees _ => exact h
  | walks runs job _ =>
      exact h.walk (unsealed _ runs) job (Walk.step_advances _ _ _ _).effect rfl rfl

theorem Performs.pending {call : Call} (perf : c.Performs call c' calls) {l : Latch}
    (latch : c.channel.latch = some l) :
    ∃ l', c'.channel.latch = some l' ∧ l'.pending = l.pending ∧
      (l.isSealed = true → l'.isSealed = true) := by
  cases perf with
  | note | countDown _ => exact ⟨l, latch, rfl, id⟩
  | closeLatch =>
      exact ⟨l.close, by simp only [Channel.closeLatch, latch, Option.map_some], rfl, fun _ => rfl⟩

theorem Balanced.performs (h : c.Balanced due) {call : Call} (perf : c.Performs call c' calls) :
    c'.Balanced due := by
  obtain ⟨jobs, -, -, latch, channel⟩ := perf.same
  refine h.of_same ?_ (by rw [channel]) fun l found => ?_
  · simp only [Core.walks, jobs]
  · obtain ⟨l', found', pending, -⟩ := perf.pending found
    exact ⟨l', found', pending⟩

theorem Balanced.registers (h : c.Balanced due) (add : c.Registers n k c' calls) :
    c'.Balanced due := by
  cases add with
  | lost _ | answers _ _ => exact h
  | joins job _ => exact h.of_handle job _ rfl rfl

theorem entered_unsignalled (c : Core ε) (p : Plan ε) :
    (c.entered p).unsignalled = c.unsignalled := by
  simp [unsignalled, Core.walks, Job.fresh, Walk.fresh, Walk.unsignalled]

/-- What a scanner keeps while its jobs are counted down. The callbacks that somebody else than the
jobs and the worker owes are `out`. -/
structure Sound (c : Core ε) (got : List ε) (due : Nat) (out : Callback → Nat) (seals : Nat)
    (group : Option (List Nat)) : Prop where
  orderly : c.Orderly
  accounted : c.Accounted got
  balanced : c.Balanced due
  counted : c.Counted (fun k => c.debt k + out k) seals group

theorem sound_of_empty (jobs : c.jobs = []) (waiting : c.waiting = []) (free : c.worker = .free)
    (countdowns : c.countdowns = []) {capacity : Option Nat}
    (channel : c.channel = .fresh capacity (some .fresh)) (nothing : ∀ k, out k = 0) :
    c.Sound [] 0 out 0 none where
  orderly := orderly_of_empty jobs waiting free
  accounted := accounted_of_empty jobs (by rw [channel]; rfl) (by rw [channel]; rfl)
  balanced := by
    refine ⟨.fresh, by rw [channel]; rfl, ?_⟩
    rw [channel, unsignalled, walks, jobs]
    rfl
  counted := by
    refine ⟨countdowns, fun k => ?_, rfl, .fresh, by rw [channel]; rfl, rfl⟩
    rw [nothing, Core.debt, jobs, free]
    rfl

theorem Sound.done_of_sealed (h : c.Sound got due out seals group) (sealed : seals = 1)
    (job : c.jobs[n]? = some j) : j.handle.isDone = true :=
  h.counted.done_of_sealed (fun _ => Nat.le_add_right _ _) sealed job

/-- A job that runs is not done. -/
theorem Sound.not_running (h : c.Sound got due out seals group) (sealed : seals = 1) :
    c.worker ≠ .running n := by
  intro runs
  obtain ⟨j, job, running⟩ := h.orderly.busy n runs
  have done := h.done_of_sealed sealed job
  simp [Handle.isDone, Future.isDone, running] at done

theorem Sound.isOpen (h : c.Sound got due out seals group) (runs : c.worker = .running n) :
    c.channel.IsOpen := by
  intro l latch
  obtain ⟨l', found, sealed⟩ := h.counted.latch
  cases latch.symm.trans found
  by_contra closed
  exact h.not_running (sealed.mp (by simpa using closed)) runs

theorem Sound.moves (h : c.Sound got due out seals group) (move : c.Moves c' calls)
    (total : ∀ k, out' k = out k + callsOf k calls) : c'.Sound got due out' seals group where
  orderly := h.orderly.moves move
  accounted := h.accounted.moves h.orderly move
  balanced := h.balanced.moves (fun _ runs => h.isOpen runs) move
  counted := by
    have same : (fun k => c'.debt k + out' k) = fun k => c.debt k + out k := by
      funext k
      have paid := move.debt h.orderly k
      rw [total]
      omega
    rw [same]
    exact h.counted.moves move

theorem Sound.performs (h : c.Sound got due out seals group) (perf : c.Performs (n, k) c' calls)
    (total : ∀ k', out' k' + callsOf k' [(n, k)] = out k' + callsOf k' calls) :
    c'.Sound got due out' (seals + sealsAt [k]) group where
  orderly := by
    obtain ⟨jobs, waiting, worker, -, -⟩ := perf.same
    exact h.orderly.of_same jobs waiting fun m => by rw [worker]
  accounted := h.accounted.performs perf
  balanced := h.balanced.performs perf
  counted := by
    refine h.counted.performs perf fun k' => ?_
    have steady : c'.debt k' = c.debt k' := perf.debt
    have paid := total k'
    omega

theorem Sound.tells (h : c.Sound got due out seals group) (tell : c.Tells c') :
    c'.Sound got due out (seals + sealsAt c.worker.callbacks) group where
  orderly := h.orderly.tells tell
  accounted := h.accounted.tells tell
  balanced := by
    cases tell with
    | tells _ perf =>
        obtain ⟨l, latch, balance⟩ := h.balanced.performs perf
        exact ⟨l, latch, balance⟩
  counted := by
    obtain ⟨n, k, c₁, more, first, perf, ⟨worker, rfl⟩, paid⟩ := tell.debt
    have same : sealsAt c.worker.callbacks = sealsAt [k] := by rw [sealsAt, first, sealsAt]; rfl
    rw [same]
    refine (h.counted.performs perf fun k' => ?_).withWorker worker
    have once := paid k'
    omega

theorem Sound.registers (h : c.Sound got due out seals (some (n :: left)))
    (add : c.Registers n (.countDown 0) c' calls) (total : ∀ k, out' k = out k + callsOf k calls) :
    c'.Sound got due out' seals (some left) where
  orderly := h.orderly.registers add
  accounted := h.accounted.registers add
  balanced := h.balanced.registers add
  counted := by
    refine h.counted.registers add fun k => ?_
    have known : n < c.jobs.length := Grouped.known h.counted n List.mem_cons_self
    have added := add.debt known k
    rw [total]
    omega

theorem Sound.enters (h : c.Sound got due out seals none) (p : Plan ε) :
    (c.entered p).Sound got due out seals none where
  orderly := h.orderly.enters p
  accounted := h.accounted.enters p
  balanced := by
    obtain ⟨l, latch, balance⟩ := h.balanced
    exact ⟨l, latch, by rw [entered_unsignalled, entered_channel]; exact balance⟩
  counted := by
    have counted : c.Ungrouped _ seals := h.counted
    refine ⟨counted.countdowns, fun k => ?_, counted.unsealed, counted.latch⟩
    simp only [entered_debt]
    exact counted.nothing k

theorem Counted.withChannel (h : c.Counted owed seals group) {channel : Channel ε}
    (latch : ∀ l, c.channel.latch = some l →
      ∃ l', channel.latch = some l' ∧ l'.isSealed = l.isSealed) :
    Counted { c with channel := channel } owed seals group := by
  cases group with
  | none =>
      obtain ⟨l, before, unsealed⟩ := Ungrouped.latch h
      obtain ⟨l', after, same⟩ := latch l before
      exact ⟨h.countdowns, h.nothing, h.unsealed, l', after, same.trans unsealed⟩
  | some left =>
      obtain ⟨l, before, sealed⟩ := Grouped.latch h
      obtain ⟨l', after, same⟩ := latch l before
      exact ⟨h.count, h.others, h.sealing, ⟨l', after, by rwa [same]⟩, h.covered, h.known⟩

/-- Whoever takes a signal is due an entry. -/
theorem Sound.waits (h : c.Sound got due out seals group) {l : Latch} {pending : Nat}
    (latch : c.channel.latch = some l) (signals : l.pending = pending + 1) :
    Sound { c with channel := { c.channel with latch := some { l with pending := pending } } }
      got (due + 1) out seals group where
  orderly := h.orderly.of_same rfl rfl fun _ => Iff.rfl
  accounted := h.accounted.of_same rfl rfl rfl
  balanced := by
    obtain ⟨l', found, balance⟩ := h.balanced
    cases latch.symm.trans found
    refine ⟨_, rfl, balance.trans ?_⟩
    change l.pending + c.unsignalled + due = pending + c.unsignalled + (due + 1)
    omega
  counted := by
    refine h.counted.withChannel fun l' found => ?_
    cases latch.symm.trans found
    exact ⟨_, rfl, rfl⟩

theorem Sound.gets (h : c.Sound got (due + 1) out seals group) {e : ε} {channel : Channel ε}
    (taken : c.channel.get? = some (e, channel)) :
    Sound { c with channel := channel } (got ++ [e]) due out seals group := by
  have accounted := h.accounted.get taken
  simp only [Channel.get?] at taken
  split at taken
  · next first rest items =>
    cases taken
    refine ⟨h.orderly.of_same rfl rfl fun _ => Iff.rfl, accounted, ?_, ?_⟩
    · obtain ⟨l, latch, balance⟩ := h.balanced
      rw [items, List.length_cons] at balance
      exact ⟨l, latch, Nat.succ.inj balance⟩
    · exact h.counted.withChannel fun l latch => ⟨l, latch, rfl⟩
  · cases taken

/-- Whoever has taken a signal finds an entry. -/
theorem Sound.items_of_due (h : c.Sound got (due + 1) out seals group) :
    ∃ e rest, c.channel.items = e :: rest := by
  obtain ⟨l, -, balance⟩ := h.balanced
  cases items : c.channel.items with
  | nil =>
      rw [items, List.length_nil] at balance
      omega
  | cons e rest => exact ⟨e, rest, rfl⟩

theorem Sound.groups (h : c.Sound got due out seals none) :
    Sound { c with
      countdowns := c.countdowns ++ [c.jobs.length]
      channel := if c.jobs.length = 0 then c.channel.closeLatch else c.channel } got due out
      (seals + if c.jobs.length = 0 then 1 else 0) (some (List.range c.jobs.length)) where
  orderly := h.orderly.of_same rfl rfl fun _ => Iff.rfl
  accounted := by
    refine h.accounted.of_same rfl ?_ ?_
    · simp only
      split <;> rfl
    · simp only
      split <;> rfl
  balanced := by
    refine h.balanced.of_same rfl ?_ fun l latch => ?_
    · simp only
      split <;> rfl
    · simp only
      split
      · exact ⟨l.close, by simp only [Channel.closeLatch, latch, Option.map_some], rfl⟩
      · exact ⟨l, latch, rfl⟩
  counted := h.counted.groups

theorem Sound.sealed_of_exhausted (h : c.Sound got due out seals group) (exhausted : c.Exhausted) :
    seals = 1 := by
  obtain ⟨l, latch, used⟩ := exhausted
  obtain ⟨l', found, sealed⟩ := h.counted.latch
  cases latch.symm.trans found
  refine sealed.mp ?_
  simp only [Latch.isExhausted, Bool.and_eq_true] at used
  exact used.1

theorem Sound.exhausted_moves (h : c.Sound got due out seals group) (exhausted : c.Exhausted)
    (move : c.Moves c' calls) : c'.Exhausted := by
  have sealed := h.sealed_of_exhausted exhausted
  cases move with
  | walks runs _ _ => exact absurd runs (h.not_running sealed)
  | _ => exact exhausted

theorem Exhausted.performs (h : c.Exhausted) {call : Call} (perf : c.Performs call c' calls) :
    c'.Exhausted := by
  obtain ⟨l, latch, used⟩ := h
  obtain ⟨l', latch', pending, sealed⟩ := perf.pending latch
  simp only [Latch.isExhausted, Bool.and_eq_true, decide_eq_true_eq] at used
  refine ⟨l', latch', ?_⟩
  simp [Latch.isExhausted, pending, used.2, sealed used.1]

theorem Exhausted.tells (h : c.Exhausted) (tell : c.Tells c') : c'.Exhausted := by
  cases tell with
  | tells _ perf =>
      obtain ⟨l, latch, used⟩ := h.performs perf
      exact ⟨l, latch, used⟩

/-- When the latch is used up, everything that was put has been taken. -/
theorem Sound.drained (h : c.Sound got 0 out seals group) (exhausted : c.Exhausted) :
    c.channel.items = [] ∧ got = (c.walks.map (·.put)).flatten := by
  have sealed := h.sealed_of_exhausted exhausted
  have signalled : c.unsignalled = 0 :=
    h.orderly.sum_phases Walk.unsignalled rfl (fun _ => rfl)
      fun n j runs job => absurd runs (h.not_running sealed)
  obtain ⟨l, latch, used⟩ := exhausted
  obtain ⟨l', found, balance⟩ := h.balanced
  cases latch.symm.trans found
  simp only [Latch.isExhausted, Bool.and_eq_true, decide_eq_true_eq] at used
  have empty : c.channel.items = [] := by
    apply List.eq_nil_of_length_eq_zero
    omega
  have whole := h.accounted.whole
  rw [empty, List.append_nil] at whole
  exact ⟨empty, whole⟩

end Core
end FileCensus
