import FileCensus.Proofs.Agenda

/-!
A walk and those who take its entries from the queue. An entry is put before its signal is given,
and a signal is waited for before an entry is taken; so whoever has waited finds an entry, whatever
the order of the turns. Nothing is said here about whether the turns ever come: a walk that is never
given room waits for ever.
-/

namespace FileCensus

variable {ε : Type}

/-- One if an entry has been put whose signal has not been given yet. -/
def Walk.unsignalled : Phase ε → Nat
  | .counting .. | .signalling .. => 1
  | _ => 0

/-- A walk with its consumers. -/
structure Exchange (ε : Type) where
  walk : Walk ε
  channel : Channel ε
  token : Token
  /-- How many waits have been successful whose entry has not been taken yet. -/
  due : Nat
  /-- What has been taken, the oldest first. -/
  got : List ε

inductive Exchange.Turn where
  | walker
  | wait
  | get
  | cancel

/-- What a step of a walk does to the channel. -/
inductive Walk.Effect (w : Walk ε) (c : Channel ε) (r : Walk ε × Channel ε) : Prop where
  | none (channel : r.2 = c) (put : r.1.put = w.put)
      (same : unsignalled r.1.phase = unsignalled w.phase)
  | put {e : ε} (room : c.isFull = false) (channel : r.2 = c.put e) (put : r.1.put = w.put ++ [e])
      (before : unsignalled w.phase = 0) (after : unsignalled r.1.phase = 1)
  | count (channel : r.2 = c.count) (put : r.1.put = w.put)
      (same : unsignalled r.1.phase = unsignalled w.phase)
  | signal (signalled : c.signal = .ok r.2) (put : r.1.put = w.put)
      (before : unsignalled w.phase = 1) (after : unsignalled r.1.phase = 0)
  | refused {f : Failure} (answer : c.signal = .error f)

namespace Walk

variable {p : Plan ε} {t : Token} {w w' : Walk ε} {c : Channel ε}

theorem Trouble.unsignalled {f : Failure} (h : Trouble p t w c w' f) :
    unsignalled w.phase = 0 ∨ c.signal = .error f := by
  cases h with
  | cancelled look _ =>
      refine Or.inl ?_
      cases phase : w.phase <;> simp_all [looks, Walk.unsignalled]
  | latched _ answer => exact Or.inr answer
  | rootStatus phase _ | status phase _ _ | listing phase _ _ | excluding phase _ _
  | sorting phase _ _ _ | including phase _ _ _ _ | excludingRoot phase _ _
  | includingRoot phase _ _ _ | refused phase _ =>
      exact Or.inl (by rw [phase]; rfl)

theorem Advance.effect {r : Walk ε × Channel ε} (a : Advance p t w c r) : Effect w c r := by
  cases a with
  | @fails w' f trouble =>
      cases trouble.unsignalled with
      | inl before =>
          obtain ⟨g, ended⟩ := fail_phase w' p f
          exact .none rfl (by rw [fail_put, trouble.put]) (by rw [ended, before]; rfl)
      | inr answer => exact .refused answer
  | begins h | rootDirectory h _ _ | rootFile h _ _ | rootOther h _ _ _ | completes h _
  | descends h _ _ _ _ | accepts h _ _ _ _ | dropsRoot h _ _ | acceptsRoot h _ _ _ | tries h _ =>
      exact .none rfl (by simp) (by simp [h, unsignalled])
  | loops h _ _ _ => exact .none rfl (by simp; rfl) (by simp [h, unsignalled])
  | unmade h _ => exact .none rfl (by simp; exact asked_put _ _) (by simp [h, unsignalled])
  | enters h _ _ => exact .none rfl (by simp) (by simp [h, unsignalled])
  | leaves h _ _ => exact .none rfl rfl rfl
  | takes h _ _ => exact .none rfl rfl (by simp [h, unsignalled])
  | drops h _ dropped => exact .none rfl dropped.put (by simp [h, dropped.phase, unsignalled])
  | makes h _ | turnedAway h _ _ =>
      exact .none rfl (by simp [happen_put]) (by simp [h, unsignalled])
  | puts h _ room =>
      exact .put room rfl (by simp; rfl) (by rw [h]; rfl) rfl
  | counts h => exact .count rfl (by simp [happen_put]) (by simp [h, unsignalled])
  | signals h signalled =>
      exact .signal signalled (by simp [happen_put]) (by rw [h]; rfl) rfl
  | notifies h => exact .none rfl (by simp) (by simp [h, unsignalled])
  | rests _ => exact .none rfl rfl rfl

end Walk

namespace Exchange

open Walk (unsignalled)

def fresh (p : Plan ε) (capacity : Nat) : Exchange ε :=
    ⟨.fresh p.root, .fresh (some capacity) (some .fresh), .fresh, 0, []⟩

/-- Waits without patience: a wait that finds no signal changes nothing. -/
def wait (x : Exchange ε) : Exchange ε :=
    match x.channel.latch.map (·.take) with
    | some (true, l) => { x with channel := { x.channel with latch := some l }, due := x.due + 1 }
    | _ => x

def get (x : Exchange ε) : Exchange ε :=
    match x.due, x.channel.get? with
    | due + 1, some (e, c) => { x with channel := c, due := due, got := x.got ++ [e] }
    | _, _ => x

def step (p : Plan ε) (x : Exchange ε) : Turn → Exchange ε
  | .walker =>
      let (walk, channel) := x.walk.step p x.token x.channel
      { x with walk := walk, channel := channel }
  | .wait => x.wait
  | .get => x.get
  | .cancel => { x with token := x.token.cancel }

def follow (p : Plan ε) (turns : List Turn) (x : Exchange ε) : Exchange ε :=
    turns.foldl (fun x t => x.step p t) x

/-- No entry is lost, doubled or out of order, no more are waiting than the queue can hold, and each
of them has its signal or is owed one. -/
structure Conserved (p : Plan ε) (fs : FileSystem) (capacity : Nat) (x : Exchange ε) : Prop where
  bounded : x.channel.items.length ≤ capacity
  inOrder : ∃ done, done <+: p.accepted fs ∧ p.Makes done (x.got ++ x.channel.items)
  whole : x.got ++ x.channel.items = x.walk.put
  balance : ∃ l, x.channel.latch = some l ∧
    x.channel.items.length = l.pending + unsignalled x.walk.phase + x.due
  prompt : 0 < x.due → ∃ e c, x.channel.get? = some (e, c)

structure Kept (p : Plan ε) (fs : FileSystem) (capacity : Nat) (x : Exchange ε) : Prop where
  fits : x.walk.Fits p fs
  tally : ∃ done, x.walk.Tally p fs [] done
  limit : x.channel.capacity = some capacity
  bounded : x.channel.items.length ≤ capacity
  whole : x.got ++ x.channel.items = x.walk.put
  balance : ∃ pending, x.channel.latch = some ⟨pending, false⟩ ∧
    x.channel.items.length = pending + unsignalled x.walk.phase + x.due

variable {p : Plan ε} {fs : FileSystem} {capacity : Nat} {x : Exchange ε}

theorem Kept.items_of_due (h : x.Kept p fs capacity) (due : 0 < x.due) :
    ∃ e rest, x.channel.items = e :: rest := by
  obtain ⟨pending, -, balance⟩ := h.balance
  cases items : x.channel.items with
  | nil =>
      rw [items, List.length_nil] at balance
      omega
  | cons e rest => exact ⟨e, rest, rfl⟩

theorem Kept.conserved (h : x.Kept p fs capacity) : x.Conserved p fs capacity where
  bounded := h.bounded
  inOrder := by
    obtain ⟨done, tally⟩ := h.tally
    obtain ⟨new, put, makes⟩ := tally.entries
    refine ⟨done, tally.prefix_accepted, ?_⟩
    rwa [h.whole, put, List.nil_append]
  whole := h.whole
  balance := by
    obtain ⟨pending, latch, balance⟩ := h.balance
    exact ⟨_, latch, balance⟩
  prompt due := by
    obtain ⟨e, rest, items⟩ := h.items_of_due due
    exact ⟨e, _, by rw [Channel.get?, items]⟩

theorem Kept.advance (wf : fs.WellFormed) (reads : p.probe.Reads fs) (h : x.Kept p fs capacity)
    {walk : Walk ε} {channel : Channel ε}
    (a : Walk.Advance p x.token x.walk x.channel (walk, channel)) :
    ({ x with walk := walk, channel := channel } : Exchange ε).Kept p fs capacity := by
  have fits := h.fits.advance wf reads a
  obtain ⟨done, tally⟩ := h.tally
  obtain ⟨new, tally⟩ := tally.advance wf reads h.fits a
  obtain ⟨pending, latch, balance⟩ := h.balance
  have whole := h.whole
  cases a.effect with
  | none same put steady | count same put steady =>
      cases same
      refine ⟨fits, ⟨_, tally⟩, h.limit, h.bounded, ?_, pending, latch, ?_⟩
      · exact whole.trans put.symm
      · exact steady ▸ balance
  | put room grown put before after =>
      cases grown
      have space : x.channel.items.length < capacity := by
        simpa [Channel.isFull, h.limit] using room
      refine ⟨fits, ⟨_, tally⟩, h.limit, ?_, ?_, pending, latch, ?_⟩
      · simpa [Channel.put] using Nat.succ_le_of_lt space
      · simp only [put, ← whole, List.append_assoc]
      · simp only [List.length_append, List.length_singleton, balance, before, after]
        omega
  | signal signalled put before after =>
      simp only [Channel.signal, latch, Latch.signal, Bool.false_eq_true, if_false, Except.map,
        Except.ok.injEq] at signalled
      cases signalled
      refine ⟨fits, ⟨_, tally⟩, h.limit, h.bounded, ?_, pending + 1, rfl, ?_⟩
      · exact whole.trans put.symm
      · simp only [after]
        omega
  | refused answer => simp [Channel.signal, latch, Latch.signal, Except.map] at answer

theorem Kept.wait (h : x.Kept p fs capacity) : x.wait.Kept p fs capacity := by
  obtain ⟨pending, latch, balance⟩ := h.balance
  cases pending with
  | zero => simpa [Exchange.wait, latch, Latch.take] using h
  | succ pending =>
      simp only [Exchange.wait, latch, Option.map_some, Latch.take]
      refine ⟨h.fits, h.tally, h.limit, h.bounded, h.whole, pending, rfl, ?_⟩
      simp only [balance]
      omega

theorem Kept.get (h : x.Kept p fs capacity) : x.get.Kept p fs capacity := by
  cases due : x.due with
  | zero => simpa [Exchange.get, due] using h
  | succ due' =>
      obtain ⟨e, rest, items⟩ := h.items_of_due (by omega)
      obtain ⟨pending, latch, balance⟩ := h.balance
      have bounded := h.bounded
      have whole := h.whole
      rw [items, List.length_cons] at balance bounded
      rw [items] at whole
      simp only [Exchange.get, due, Channel.get?, items]
      refine ⟨h.fits, h.tally, h.limit, ?_, ?_, pending, latch, ?_⟩
      · exact Nat.le_of_succ_le bounded
      · simpa using whole
      · simp only
        omega

theorem Kept.step (wf : fs.WellFormed) (reads : p.probe.Reads fs) (h : x.Kept p fs capacity)
    (t : Turn) : (x.step p t).Kept p fs capacity := by
  cases t with
  | walker => exact h.advance wf reads (Walk.step_advances p x.token x.walk x.channel)
  | wait => exact h.wait
  | get => exact h.get
  | cancel => exact ⟨h.fits, h.tally, h.limit, h.bounded, h.whole, h.balance⟩

theorem kept_fresh (p : Plan ε) (fs : FileSystem) (capacity : Nat) :
    (fresh p capacity).Kept p fs capacity where
  fits := (Walk.ready_fresh p.root).fits
  tally := ⟨[], (Walk.ready_fresh p.root).tally⟩
  limit := rfl
  bounded := Nat.zero_le capacity
  whole := rfl
  balance := ⟨0, rfl, rfl⟩

theorem Kept.follow (wf : fs.WellFormed) (reads : p.probe.Reads fs) (h : x.Kept p fs capacity)
    (turns : List Turn) : (x.follow p turns).Kept p fs capacity := by
  induction turns generalizing x with
  | nil => exact h
  | cons t turns ih => exact ih (h.step wf reads t)

/-- Whatever the order of the turns, what has been taken and what is waiting are together the
beginning of what is accepted, and a get that follows a successful wait finds an entry. -/
theorem follow_conserved (wf : fs.WellFormed) (reads : p.probe.Reads fs) (capacity : Nat)
    (turns : List Turn) : ((fresh p capacity).follow p turns).Conserved p fs capacity :=
  ((kept_fresh p fs capacity).follow wf reads turns).conserved

theorem loop_follow_conserved : loopTree.WellFormed ∧ loopPlan.probe.Reads loopTree ∧
    ∀ turns, ((fresh loopPlan 1).follow loopPlan turns).Conserved loopPlan loopTree 1 :=
  ⟨loopTree_wellFormed, loopPlan_reads,
    fun turns => follow_conserved loopTree_wellFormed loopPlan_reads 1 turns⟩

end Exchange
end FileCensus
