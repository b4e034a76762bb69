import FileCensus.Proofs.Coverage
import FileCensus.Proofs.Record

/-!
A walk by itself: its queue has room at every attempt, no latch refuses a signal, and it is
cancelled at a given step or never. A walk among others comes to what it comes to by itself, for how
often a full queue turns an entry away changes nothing but the record of it.
-/

namespace FileCensus

variable {ε : Type}

def Event.isTurnedAway : Event ε → Bool
  | .turnedAway => true
  | _ => false

/-- An entry that is being put counts as one that is still offered. -/
def Phase.settled : Phase ε → Phase ε
  | .putting path e => .offering path e
  | phase => phase

namespace Walk

/-- A walk that has forgotten its attempts to put an entry on a full queue. -/
def settled (w : Walk ε) : Walk ε :=
    { w with phase := w.phase.settled, events := w.events.filter (!·.isTurnedAway) }

@[simp] theorem settled_phase (w : Walk ε) : w.settled.phase = w.phase.settled := rfl
@[simp] theorem settled_progress (w : Walk ε) : w.settled.progress = w.progress := rfl

@[simp] theorem settled_put (w : Walk ε) : w.settled.put = w.put := by
  simp only [put, trace, settled, List.filterMap_reverse, List.filterMap_filter]
  congr 2
  funext e
  cases e <;> rfl

section Commuting

variable (p : Plan ε) (w : Walk ε)

@[simp] theorem settled_fail (f : Failure) : (w.fail p f).settled = w.settled.fail p f := by
  cases f <;> rfl

theorem settled_enter (path : Path) (relative : List String) (depth : Nat) (key : Option Place) :
    (w.enter p path relative depth key).settled = w.settled.enter p path relative depth key := by
  simp only [enter]
  cases p.probe.list path with
  | error f => exact settled_fail p w f
  | ok entries => rfl

theorem settled_examine : (w.examine p).settled = w.settled.examine p := by
  simp only [examine]
  cases p.probe.status p.root with
  | error f => exact settled_fail p w f
  | ok s =>
      simp only
      split <;> rfl

theorem settled_open (path : Path) (relative : List String) (depth : Nat) :
    (w.open_ p path relative depth).settled = w.settled.open_ p path relative depth := by
  simp only [open_]
  split
  · exact settled_enter p w path relative depth none
  · cases p.probe.status path with
    | error f => exact settled_fail p w f
    | ok s =>
        have same : w.settled.ancestors = w.ancestors := rfl
        simp only [same]
        split
        · rfl
        · exact settled_enter p { w with ancestors := s.identity :: w.ancestors } ..

theorem settled_visit (directory : Path) (e : Entry) (relative : List String) (depth : Nat) :
    (w.visit p directory e relative depth).settled =
      w.settled.visit p directory e relative depth := by
  have seen : (w.sight directory e relative).settled = w.settled.sight directory e relative := rfl
  have failing : ∀ f, ((w.sight directory e relative).fail p f).settled =
      (w.settled.sight directory e relative).fail p f :=
    fun f => by rw [settled_fail, seen]
  simp only [visit]
  split
  · next f _ => exact failing f
  · rfl
  · simp only [judgeKind]
    split
    · next f _ => exact failing f
    · split <;> rfl
    · split
      · next f _ => exact failing f
      · rfl
      · rfl
    · rfl

theorem settled_judgeRoot : (w.judgeRoot p).settled = w.settled.judgeRoot p := by
  have failing : ∀ f, ((w.sightRoot p).fail p f).settled = (w.settled.sightRoot p).fail p f :=
    fun f => settled_fail p (w.sightRoot p) f
  simp only [judgeRoot]
  split
  · next f _ => exact failing f
  · rfl
  · split
    · next f _ => exact failing f
    · rfl
    · rfl

theorem settled_turn : (w.turn p).settled = w.settled.turn p := by
  have same : w.settled.stack = w.stack := rfl
  simp only [turn, same]
  split
  · rfl
  · split
    · rfl
    · rfl

theorem settled_create (path : Path) : (w.create p path).settled = w.settled.create p path := by
  simp only [create]
  split <;> rfl

theorem settled_notify (path : Path) (e : ε) :
    (w.notify p path e).settled = w.settled.notify p path e := by
  have same : w.settled.notifications = w.notifications := rfl
  simp only [notify, same]
  split
  · rfl
  · split <;> rfl

end Commuting

end Walk

/-- A queue with room for everything, and no latch. -/
def Channel.roomy : Channel ε :=
    .fresh none none

/-- What a walk finds that is by itself: it is cancelled at the step `stop`, if at all. -/
def Course.alone (stop : Option Nat) : Course ε :=
    ⟨fun n => ⟨stop.any (· ≤ n)⟩, fun _ => .roomy⟩

namespace Walk

variable {p : Plan ε} {t : Token} {w w' : Walk ε} {c : Channel ε}

/-- A step of a walk among others, seen from the walk by itself. -/
inductive Echo (p : Plan ε) (t : Token) (w : Walk ε) (c : Channel ε) (w' : Walk ε) : Prop where
  | attempt (same : w'.settled = w.settled)
  | one (same : w'.settled = (w.settled.step p .fresh .roomy).1)
  | two (same : w'.settled = ((w.settled.step p .fresh .roomy).1.step p .fresh .roomy).1)
  | cancelled (look : looks w.phase = true) (flagged : t.isCancelled = true)
      (failed : w' = w.fail p Token.stop)
  | refused {path : Path} {e : ε} {f : Failure} (phase : w.phase = .signalling path e)
      (answer : c.signal = .error f) (failed : w' = w.fail p f)

theorem unlessCancelled_cases (p : Plan ε) (t : Token) (w : Walk ε) (next : Walk ε → Walk ε) :
    t.isCancelled = true ∧ w.unlessCancelled p t next = w.fail p Token.stop ∨
      w.unlessCancelled p t next = next w := by
  cases flagged : t.isCancelled <;> simp [unlessCancelled, Token.check, flagged]

theorem step_echoes (p : Plan ε) (t : Token) (w : Walk ε) (c : Channel ε) :
    Echo p t w c (w.step p t c).1 := by
  cases phase : w.phase with
  | idle =>
      refine .one ?_
      simp only [step, phase, settled_phase, Phase.settled]
      rfl
  | examining =>
      refine .one ?_
      simp only [step, phase, settled_phase, Phase.settled, settled_examine]
  | opening path relative depth =>
      refine .one ?_
      simp only [step, phase, settled_phase, Phase.settled, settled_open]
  | turning =>
      refine .one ?_
      simp only [step, phase, settled_phase, Phase.settled, settled_turn]
  | visiting directory e relative depth =>
      have look : looks w.phase = true := by rw [phase]; rfl
      rcases unlessCancelled_cases p t w fun w => w.visit p directory e relative depth with
        ⟨flagged, failed⟩ | on
      · exact .cancelled look flagged (by simp only [step, phase, failed])
      · refine .one ?_
        simp only [step, phase, on, settled_visit, settled_phase, Phase.settled]
        rfl
  | judging =>
      have look : looks w.phase = true := by rw [phase]; rfl
      rcases unlessCancelled_cases p t w fun w => w.judgeRoot p with ⟨flagged, failed⟩ | on
      · exact .cancelled look flagged (by simp only [step, phase, failed])
      · refine .one ?_
        simp only [step, phase, on, settled_judgeRoot, settled_phase, Phase.settled]
        rfl
  | creating path =>
      refine .one ?_
      simp only [step, phase, settled_phase, Phase.settled, settled_create]
  | offering path e =>
      have look : looks w.phase = true := by rw [phase]; rfl
      rcases unlessCancelled_cases p t w fun w => w.go (.putting path e) with ⟨flagged, failed⟩ | on
      · exact .cancelled look flagged (by simp only [step, phase, failed])
      · refine .attempt ?_
        simp only [step, phase, on]
        simp [settled, phase, Phase.settled, go]
  | putting path e =>
      -- the walk by itself is still offering the entry, so it needs two steps
      have tries : (w.settled.step p .fresh .roomy).1 = w.settled.go (.putting path e) := by
        simp only [step, settled_phase, phase, Phase.settled]
        rfl
      simp only [step, phase, offer]
      cases refusal : p.refusal with
      | some f =>
          refine .two ?_
          rw [tries, settled_fail]
          simp only [step, go_phase, offer, refusal]
          cases f <;> rfl
      | none =>
          simp only
          split
          · refine .attempt ?_
            simp [settled, phase, Phase.settled, go, happen, Event.isTurnedAway]
          · refine .two ?_
            rw [tries]
            simp only [step, go_phase, offer, refusal]
            rfl
  | counting path e =>
      refine .one ?_
      simp only [step, phase, settled_phase, Phase.settled]
      rfl
  | signalling path e =>
      cases answer : c.signal with
      | error f => exact .refused phase answer (by simp only [step, phase, signal, answer])
      | ok c' =>
          refine .one ?_
          simp only [step, phase, settled_phase, Phase.settled, signal, answer]
          rfl
  | notifying path e =>
      refine .one ?_
      simp only [step, phase, settled_phase, Phase.settled, settled_notify]
  | ended o =>
      refine .one ?_
      simp only [step, phase, settled_phase, Phase.settled]

/-- The walk by itself after so many steps. -/
def alone (p : Plan ε) (stop : Option Nat) (w : Walk ε) (n : Nat) : Walk ε :=
    w.settled.after p (.alone stop) n

theorem alone_succ (p : Plan ε) (w : Walk ε) (n : Nat) :
    w.alone p none (n + 1) = ((w.alone p none n).step p .fresh .roomy).1 := rfl

theorem after_congr {r r' : Course ε} {n : Nat} (token : ∀ m, m < n → r.token m = r'.token m)
    (channel : ∀ m, m < n → r.channel m = r'.channel m) : w.after p r n = w.after p r' n := by
  induction n with
  | zero => rfl
  | succ n ih =>
      have before := ih (fun m less => token m (Nat.lt_succ_of_lt less)) fun m less =>
        channel m (Nat.lt_succ_of_lt less)
      have last := Nat.lt_succ_self n
      rw [after, after, before, token n last, channel n last]

theorem looks_settled {phase : Phase ε} (look : looks phase = true) : phase.settled = phase := by
  cases phase <;> simp_all [looks, Phase.settled]

theorem settled_of_ended {o : Outcome} (h : w.phase = .ended o) : w.settled.phase = .ended o := by
  rw [settled_phase, h]
  rfl

/-- A walk by itself that is cancelled goes on as if it were not up to its next look. -/
theorem alone_stopped {n : Nat} (look : looks (w.alone p none n).phase = true) :
    w.alone p (some n) (n + 1) = (w.alone p none n).fail p Token.stop := by
  have before : w.alone p (some n) n = w.alone p none n := by
    refine after_congr (fun m less => ?_) fun _ _ => rfl
    simp [Course.alone, less]
  have flagged : ((Course.alone (some n) : Course ε).token n).check = .error Token.stop := by
    simp [Course.alone, Token.check]
  have next : w.alone p (some n) (n + 1) = ((w.alone p (some n) n).step p
      ((Course.alone (some n) : Course ε).token n) .roomy).1 := rfl
  rw [next, before, Trouble.step (.cancelled look flagged)]

/-- What a walk has come to is what it comes to by itself from `start`. It is cancelled there at
some step only if it has seen its token cancelled. -/
inductive Apart (p : Plan ε) (start : Walk ε) (cancelled : Bool) (w : Walk ε) : Prop where
  | free {n : Nat} (same : w.settled = start.alone p none n)
  | stopped {n : Nat} {o : Outcome} (seen : cancelled = true) (ended : w.phase = .ended o)
      (same : w.settled = start.alone p (some n) (n + 1))

theorem apart_self (p : Plan ε) (w : Walk ε) (cancelled : Bool) : Apart p w cancelled w :=
  .free (n := 0) rfl

theorem Apart.mono {start : Walk ε} {a b : Bool} (le : a = true → b = true)
    (h : Apart p start a w) : Apart p start b w := by
  cases h with
  | free same => exact .free same
  | stopped seen ended same => exact .stopped (le seen) ended same

theorem Apart.step {start : Walk ε} {cancelled : Bool} (h : Apart p start cancelled w)
    (seen : t.isCancelled = true → cancelled = true) (unsealed : ∀ f, c.signal ≠ .error f) :
    Apart p start cancelled (w.step p t c).1 := by
  cases h with
  | @stopped n o before ended same =>
      have rests : (w.step p t c).1 = w := by simp only [Walk.step, ended]
      rw [rests]
      exact .stopped before ended same
  | @free n same =>
      cases step_echoes p t w c with
      | attempt still => exact .free (n := n) (still.trans same)
      | one on => exact .free (n := n + 1) (by rw [on, same, alone_succ])
      | two on => exact .free (n := n + 2) (by rw [on, same, alone_succ, alone_succ])
      | cancelled look flagged failed =>
          obtain ⟨g, ended⟩ := fail_phase w p Token.stop
          have look : looks (start.alone p none n).phase = true := by
            rw [← same, settled_phase, looks_settled look]
            exact look
          rw [failed]
          exact .stopped (seen flagged) ended (by rw [settled_fail, same, alone_stopped look])
      | refused _ answer _ => exact absurd answer (unsealed _)

theorem Apart.after {start : Walk ε} {cancelled : Bool} {r : Course ε}
    (h : Apart p start cancelled w) (seen : ∀ n, (r.token n).isCancelled = true → cancelled = true)
    (unsealed : ∀ n f, (r.channel n).signal ≠ .error f) (n : Nat) :
    Apart p start cancelled (w.after p r n) := by
  induction n with
  | zero => exact h
  | succ n ih => exact ih.step (seen n) (unsealed n)

/-- Two walks that nobody has cancelled come to the same end. -/
theorem Apart.settled_eq {start : Walk ε} {o o' : Outcome} (h : Apart p start false w)
    (h' : Apart p start false w') (ended : w.phase = .ended o) (ended' : w'.phase = .ended o') :
    w.settled = w'.settled := by
  cases h with
  | stopped seen _ _ => cases seen
  | @free m same =>
      cases h' with
      | stopped seen _ _ => cases seen
      | @free n same' =>
          have last : (start.alone p none m).phase = .ended o := by
            rw [← same, settled_of_ended ended]
          have last' : (start.alone p none n).phase = .ended o' := by
            rw [← same', settled_of_ended ended']
          have meet : start.alone p none (max m n) = start.alone p none m :=
            after_of_ended last (Nat.le_max_left m n)
          have meet' : start.alone p none (max m n) = start.alone p none n :=
            after_of_ended last' (Nat.le_max_right m n)
          rw [same, same', ← meet, meet']

/-- Whatever comes in between, even a seal, a walk puts nothing that it does not put by itself. -/
theorem put_after (p : Plan ε) (w : Walk ε) (r : Course ε) (n : Nat) :
    ∃ m, (w.after p r n).put = (w.alone p none m).put := by
  suffices still : ∃ m, (w.after p r n).put = (w.alone p none m).put ∧
      ((∃ o, (w.after p r n).phase = .ended o) ∨ (w.after p r n).settled = w.alone p none m) from
    still.imp fun _ h => h.1
  induction n with
  | zero => exact ⟨0, (settled_put w).symm, Or.inr rfl⟩
  | succ n ih =>
      obtain ⟨m, put, ⟨o, ended⟩ | same⟩ := ih
      · have rests := after_of_ended ended (Nat.le_succ n)
        rw [Nat.succ_eq_add_one] at rests
        rw [rests]
        exact ⟨m, put, Or.inl ⟨o, ended⟩⟩
      · have onward : ∀ {m}, (w.after p r (n + 1)).settled = w.alone p none m →
            ∃ m, (w.after p r (n + 1)).put = (w.alone p none m).put ∧
              ((∃ o, (w.after p r (n + 1)).phase = .ended o) ∨
                (w.after p r (n + 1)).settled = w.alone p none m) :=
          fun same => ⟨_, by rw [← same, settled_put], Or.inr same⟩
        cases step_echoes p (r.token n) (w.after p r n) (r.channel n) with
        | attempt still => exact onward (Eq.trans still same)
        | one on => exact onward (m := m + 1) (Eq.trans on (by rw [same, alone_succ]))
        | two on =>
            exact onward (m := m + 2) (Eq.trans on (by rw [same, alone_succ, alone_succ]))
        | cancelled _ _ failed | refused _ _ failed =>
            obtain ⟨g, ended⟩ := fail_phase (w.after p r n) p _
            refine ⟨m, ?_, Or.inl ⟨.error g, ?_⟩⟩
            · rw [after, failed, fail_put, put]
            · rw [after, failed, ended]

/-- A walk that nothing stops puts, in the end, whatever the same walk puts that may be stopped. -/
theorem put_grows_to {r r' : Course ε} (free : ∀ n, (r'.token n).isCancelled = false)
    (unsealed : ∀ n f, (r'.channel n).signal ≠ .error f) {m : Nat} {o : Outcome}
    (ended : (w.after p r' m).phase = .ended o) (n : Nat) :
    (w.after p r n).put <+: (w.after p r' m).put := by
  obtain ⟨j, put⟩ := put_after p w r n
  have apart : Apart p w false (w.after p r' m) :=
    (apart_self p w false).after (fun n seen => by rwa [free n] at seen) unsealed m
  cases apart with
  | stopped seen _ _ => cases seen
  | @free k same =>
      have final : (w.alone p none k).phase = .ended o := by
        rw [← same, settled_of_ended ended]
      have still : w.alone p none (max j k) = w.alone p none k :=
        after_of_ended final (Nat.le_max_right j k)
      rw [put, ← settled_put (w.after p r' m), same, ← still]
      exact collect_after .put p w.settled (.alone none) (Nat.le_max_left j k)

end Walk
end FileCensus
