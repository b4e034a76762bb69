import FileCensus.Proofs.Custody

/-!
What it means to leave a scanner on account of an exception. Whoever leaves stops the scanner at
once, then closes it, and then waits for the worker, while everybody else goes on. From the moment
when it begins to close the scanner no job can be stuck on a full queue: each is done or has been
told to stop. Only the waits of jobs for room are looked at, not those for locks of other programs.
-/

namespace FileCensus

variable {ε : Type}

/-- A scanner that takes no more roots, and all of whose jobs are done or have been told to stop; so
no job can wait for room on the queue that nobody has told to stop. -/
structure Scanner.IsReleased (s : Scanner ε) : Prop where
  closed : s.isClosed = true
  flagged : ∀ (n : Nat) j, s.jobs[n]? = some j →
    j.handle.isDone = true ∨ j.handle.token.isCancelled = true
  unblocked : ∀ (n : Nat) j path e, s.worker = .running n → s.jobs[n]? = some j →
    j.walk.phase = .offering path e → s.channel.isFull = true → j.handle.token.isCancelled = true

theorem Scanner.isReleased_of_flagged {s : Scanner ε} (orderly : s.core.Orderly)
    (closed : s.isClosed = true) (flagged : s.core.Flagged []) : s.IsReleased where
  closed := closed
  flagged n j job := flagged n j job List.not_mem_nil
  unblocked n j path e runs job _ _ := by
    obtain ⟨j', job', running⟩ := orderly.busy n runs
    cases job'.symm.trans job
    refine (flagged n j job List.not_mem_nil).resolve_left fun done => ?_
    simp [Handle.isDone, Future.isDone, running] at done

def Stopping.isOver : Stopping → Bool
  | .over _ => true
  | _ => false

/-- How far somebody has come who leaves a scanner. The numbers are those of its requests to stop. -/
inductive Leaving where
  | inside
  | stopping (i : Nat)
  | closing (i : Nat)
  | joining
  | outside
  deriving DecidableEq, Repr

/-- Whether the stop that takes effect at once is behind. -/
def Leaving.hasStopped : Leaving → Bool
  | .inside | .stopping _ => false
  | .closing _ | .joining | .outside => true

/-- A scanner with all that goes on around it, and somebody who may leave it. -/
structure Departure (ε : Type) where
  reception : Reception ε
  leaving : Leaving

inductive Departure.Turn where
  | other (t : Reception.Turn)
  /-- An exception has come, or the one who leaves goes on. -/
  | leave

namespace Reception

variable {w : Surroundings ε} {x y : Reception ε}

/-- Whether a request to stop has been carried out. -/
def isStopOver (x : Reception ε) (i : Nat) : Bool :=
    x.traffic.stops[i]?.any (·.phase.isOver)

/-- A request to stop stays what it is, and once it is carried out it rests. -/
theorem Moves.keeps_stop (move : Moves w x y) {i : Nat} {q : StopRequest}
    (found : x.traffic.stops[i]? = some q) : ∃ q', y.traffic.stops[i]? = some q' ∧
      q'.kind = q.kind ∧ (q.phase.isOver = true → q'.phase.isOver = true) := by
  cases move with
  | rests | scans | answers _ _ _ _ _ | admits _ _ _ | awaits _ | looks => exact ⟨q, found, rfl, id⟩
  | works _ _ _ _ stops => exact ⟨q, stops.symm ▸ found, rfl, id⟩
  | enters _ => exact ⟨q, (goOn_stops _ _).symm ▸ found, rfl, id⟩
  | calls =>
      have less := (List.getElem?_eq_some_iff.mp found).1
      exact ⟨q, (List.getElem?_append_left less).trans found, rfl, id⟩
  | @winds k q' found' =>
      by_cases same : k = i
      · subst same
        cases found.symm.trans found'
        refine ⟨_, List.getElem?_set_self (List.getElem?_eq_some_iff.mp found).1, rfl, fun past => ?_⟩
        cases phase : q.phase with
        | «over» idle => rfl
        | _ => simp [phase, Stopping.isOver] at past
      · exact ⟨q, (List.getElem?_set_ne same).trans found, rfl, id⟩

end Reception

namespace Departure

def fresh (capacity : Option Nat) (latched : Bool) : Departure ε :=
    ⟨.fresh capacity latched, .inside⟩

def step (w : Surroundings ε) (x : Departure ε) : Turn → Departure ε
  | .other t => { x with reception := x.reception.step w t }
  | .leave =>
      let asked (kind : StopKind) (leaving : Nat → Leaving) : Departure ε :=
        ⟨x.reception.step w (.outside (.stop kind)), leaving x.reception.traffic.stops.length⟩
      let goesOn (i : Nat) : Departure ε :=
        { x with reception := x.reception.step w (.outside (.wind i)) }
      match x.leaving with
      | .inside => asked .immediate .stopping
      | .stopping i => if x.reception.isStopOver i then asked (.gentle false) .closing else goesOn i
      | .closing i => if x.reception.isStopOver i then { x with leaving := .joining } else goesOn i
      | .joining => if x.reception.scanner.isIdle then { x with leaving := .outside } else x
      | .outside => x

def follow (w : Surroundings ε) (turns : List Turn) (x : Departure ε) : Departure ε :=
    turns.foldl (fun x t => x.step w t) x

/-- The request to stop at once of the one who leaves: from the time it is made until it is over. -/
structure Kept (w : Surroundings ε) (x : Departure ε) : Prop where
  reception : x.reception.Kept w
  stopping : ∀ i, x.leaving = .stopping i →
    ∃ q : StopRequest, x.reception.traffic.stops[i]? = some q ∧ q.kind = .immediate
  stopped : x.leaving.hasStopped = true →
    ∃ (i : Nat) (q : StopRequest), x.reception.traffic.stops[i]? = some q ∧ q.kind = .immediate ∧
      q.phase.isOver = true

variable {w : Surroundings ε} {x : Departure ε}

theorem Kept.turn (h : x.Kept w) (t : Reception.Turn) :
    ({ x with reception := x.reception.step w t } : Departure ε).Kept w where
  reception := h.reception.step t
  stopping i at_ := by
    obtain ⟨q, found, kind⟩ := h.stopping i at_
    obtain ⟨q', found', same, -⟩ := (Reception.step_moves w h.reception.regular t).keeps_stop found
    exact ⟨q', found', same.trans kind⟩
  stopped past := by
    obtain ⟨i, q, found, kind, rests⟩ := h.stopped past
    obtain ⟨q', found', same, still⟩ := (Reception.step_moves w h.reception.regular t).keeps_stop found
    exact ⟨i, q', found', same.trans kind, still rests⟩

theorem isStopOver_true {x : Reception ε} {i : Nat} (past : x.isStopOver i = true) :
    ∃ q, x.traffic.stops[i]? = some q ∧ q.phase.isOver = true :=
  Option.any_eq_true _ _ |>.mp past

theorem Kept.step (h : x.Kept w) (t : Turn) : (x.step w t).Kept w := by
  cases t with
  | other t => exact h.turn t
  | leave =>
      have asks (kind : StopKind) : (x.reception.step w (.outside (.stop kind))).traffic.stops =
          x.reception.traffic.stops ++ [⟨kind, .marking, []⟩] := by
        simp [Reception.step, Traffic.asksLock, Traffic.admits?, Traffic.step]
      cases leaving : x.leaving with
      | inside =>
          simp only [Departure.step, leaving]
          refine ⟨h.reception.step (.outside (.stop .immediate)), ?_, fun past => by cases past⟩
          intro i same
          cases same
          exact ⟨⟨.immediate, .marking, []⟩, by rw [asks]; exact List.getElem?_concat_length, rfl⟩
      | stopping i =>
          simp only [Departure.step, leaving]
          split
          · next past =>
            obtain ⟨q, found, kind⟩ := h.stopping i leaving
            obtain ⟨q', found', rests⟩ := isStopOver_true past
            cases found.symm.trans found'
            have less := (List.getElem?_eq_some_iff.mp found).1
            refine ⟨h.reception.step (.outside (.stop (.gentle false))), fun i same => (by cases same),
              fun _ => ⟨i, q, ?_, kind, rests⟩⟩
            rw [asks]
            exact (List.getElem?_append_left less).trans found
          · rw [← leaving]
            exact h.turn _
      | closing i =>
          have stopped := h.stopped (by rw [leaving]; rfl)
          simp only [Departure.step, leaving]
          split
          · exact ⟨h.reception, fun i same => (by cases same), fun _ => stopped⟩
          · rw [← leaving]
            exact h.turn _
      | joining =>
          have stopped := h.stopped (by rw [leaving]; rfl)
          simp only [Departure.step, leaving]
          split
          · exact ⟨h.reception, fun i same => (by cases same), fun _ => stopped⟩
          · exact h
      | outside =>
          simp only [Departure.step, leaving]
          exact h

theorem Kept.follow (h : x.Kept w) (turns : List Turn) : (x.follow w turns).Kept w := by
  induction turns generalizing x with
  | nil => exact h
  | cons t turns ih => exact ih (h.step t)

theorem kept_fresh (w : Surroundings ε) (capacity : Option Nat) (latched : Bool) :
    (fresh capacity latched : Departure ε).Kept w :=
  ⟨Reception.kept_fresh w capacity latched, fun _ same => (by cases same), fun past => by cases past⟩

/-- Whoever has stopped a scanner at once and goes on to close it leaves nobody behind. -/
theorem Kept.released (h : x.Kept w) (past : x.leaving.hasStopped = true) :
    x.reception.scanner.IsReleased := by
  obtain ⟨i, q, found, kind, rests⟩ := h.stopped past
  have listed := List.mem_of_getElem? found
  cases phase : q.phase with
  | «over» idle =>
      have marked : q.phase ≠ .marking := by simp [phase]
      refine Scanner.isReleased_of_flagged h.reception.regular.orderly
        (h.reception.closing.marked q listed marked) fun n j job _ => ?_
      exact (h.reception.stopped listed kind phase [] job).1
  | _ => simp [phase, Stopping.isOver] at rests

end Departure
end FileCensus
