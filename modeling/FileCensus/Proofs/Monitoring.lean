import FileCensus.Proofs.Postings

/-!
A monitor and its failures. A walk does not look at what its monitor does, but for a report of each
failure; so two monitors that fail at different notifications cannot be told apart by anything but
these reports.
-/

namespace FileCensus

variable {ε : Type}

/-- The plan with a monitor that fails at these notifications. -/
def Plan.monitored (p : Plan ε) (fails : Nat → Bool) : Plan ε :=
    { p with monitor := some fails }

/-- A report of a failure of the monitor. -/
def Event.isUnmonitored : Event ε → Bool
  | .said (.unmonitored _) => true
  | _ => false

namespace Walk

/-- A walk that has forgotten the failures of its monitor. -/
def hushed (w : Walk ε) : Walk ε :=
    { w with events := w.events.filter (!·.isUnmonitored) }

@[simp] theorem hushed_phase (w : Walk ε) : w.hushed.phase = w.phase := rfl
@[simp] theorem hushed_progress (w : Walk ε) : w.hushed.progress = w.progress := rfl

theorem hushed_collect {α : Type} (k : Topic ε α) (w : Walk ε) :
    w.hushed.collect k = w.collect k := by
  simp only [collect, trace, hushed, List.filterMap_reverse, List.filterMap_filter]
  congr 2
  funext e
  cases e with
  | said n => simp [k.mute]
  | listed _ | visited _ | asked _ | turnedAway | put _ | counted | signalled | notified _ => rfl

theorem hushed_sheet (w : Walk ε) : w.hushed.sheet = w.sheet := by
  simp only [sheet_eq, hushed_collect]
  rfl

section Commuting

variable (p : Plan ε) (w : Walk ε)

theorem hushed_fail (f : Failure) : (w.fail p f).hushed = w.hushed.fail p f := by
  cases f <;> rfl

theorem hushed_examine : (w.examine p).hushed = w.hushed.examine p := by
  simp only [examine]
  split
  · next f _ => exact hushed_fail p w f
  · split <;> rfl

theorem hushed_enter (path : Path) (relative : List String) (depth : Nat) (key : Option Place) :
    (w.enter p path relative depth key).hushed = w.hushed.enter p path relative depth key := by
  simp only [enter]
  split
  · next f _ => exact hushed_fail p w f
  · rfl

theorem hushed_open (path : Path) (relative : List String) (depth : Nat) :
    (w.open_ p path relative depth).hushed = w.hushed.open_ p path relative depth := by
  have same : w.hushed.ancestors = w.ancestors := rfl
  simp only [open_, same]
  split
  · exact hushed_enter p w path relative depth none
  · split
    · next f _ => exact hushed_fail p w f
    · next s _ =>
      split
      · rfl
      · exact hushed_enter p { w with ancestors := s.identity :: w.ancestors } ..

theorem hushed_turn : (w.turn p).hushed = w.hushed.turn p := by
  have same : w.hushed.stack = w.stack := rfl
  simp only [turn, same]
  split
  · rfl
  · split <;> rfl

theorem hushed_visit (directory : Path) (e : Entry) (relative : List String) (depth : Nat) :
    (w.visit p directory e relative depth).hushed =
      w.hushed.visit p directory e relative depth := by
  have failing : ∀ f, ((w.sight directory e relative).fail p f).hushed =
      (w.hushed.sight directory e relative).fail p f :=
    fun f => hushed_fail p (w.sight directory e relative) f
  simp only [visit]
  split
  · next f _ => exact failing f
  · rfl
  · simp only [judgeKind]
    split
    · next f _ => exact failing f
    · split <;> rfl
    · split
      · next f _ => exact failing f
      · rfl
      · rfl
    · rfl

theorem hushed_judgeRoot : (w.judgeRoot p).hushed = w.hushed.judgeRoot p := by
  have failing : ∀ f, ((w.sightRoot p).fail p f).hushed = (w.hushed.sightRoot p).fail p f :=
    fun f => hushed_fail p (w.sightRoot p) f
  simp only [judgeRoot]
  split
  · next f _ => exact failing f
  · rfl
  · split
    · next f _ => exact failing f
    · rfl
    · rfl

theorem hushed_create (path : Path) : (w.create p path).hushed = w.hushed.create p path := by
  simp only [create]
  split <;> rfl

theorem hushed_unlessCancelled (t : Token) {next : Walk ε → Walk ε}
    (same : (next w).hushed = next w.hushed) :
    (w.unlessCancelled p t next).hushed = w.hushed.unlessCancelled p t next := by
  simp only [unlessCancelled]
  split
  · next f _ => exact hushed_fail p w f
  · exact same

theorem hushed_offer (path : Path) (e : ε) (c : Channel ε) :
    w.hushed.offer p path e c = ((w.offer p path e c).1.hushed, (w.offer p path e c).2) := by
  simp only [offer]
  split
  · next f _ => rw [hushed_fail]
  · split <;> rfl

theorem hushed_signal (path : Path) (e : ε) (c : Channel ε) :
    w.hushed.signal p path e c = ((w.signal p path e c).1.hushed, (w.signal p path e c).2) := by
  simp only [signal]
  split
  · next f _ => rw [hushed_fail]
  · rfl

/-- The only place where a walk asks its monitor. -/
theorem hushed_notify (fails : Nat → Bool) (path : Path) (e : ε) :
    (w.notify (p.monitored fails) path e).hushed =
      w.hushed.notify (p.monitored fun _ => false) path e := by
  simp only [notify, Plan.monitored]
  split <;> rfl

end Commuting

/-- A step under any monitor, the reports of its failures apart, is one under a monitor that never
fails. -/
theorem hushed_step (p : Plan ε) (fails : Nat → Bool) (w : Walk ε) (t : Token) (c : Channel ε) :
    w.hushed.step (p.monitored fun _ => false) t c =
      ((w.step (p.monitored fails) t c).1.hushed, (w.step (p.monitored fails) t c).2) := by
  cases phase : w.phase with
  | idle | counting path e => simp only [step, hushed_phase, phase]; rfl
  | ended o => simp only [step, hushed_phase, phase]
  | examining => simp only [step, hushed_phase, phase, ← hushed_examine]; rfl
  | opening path relative depth => simp only [step, hushed_phase, phase, ← hushed_open]; rfl
  | turning => simp only [step, hushed_phase, phase, ← hushed_turn]; rfl
  | creating path => simp only [step, hushed_phase, phase, ← hushed_create]; rfl
  | visiting directory e relative depth =>
      simp only [step, hushed_phase, phase]
      rw [← hushed_unlessCancelled _ _ _ (hushed_visit ..)]
      rfl
  | judging =>
      simp only [step, hushed_phase, phase]
      rw [← hushed_unlessCancelled _ _ _ (hushed_judgeRoot ..)]
      rfl
  | offering path e =>
      have go : ∀ v : Walk ε, (v.go (.putting path e)).hushed = v.hushed.go (.putting path e) :=
        fun _ => rfl
      simp only [step, hushed_phase, phase]
      rw [← hushed_unlessCancelled _ _ _ (go w)]
      rfl
  | putting path e => simp only [step, hushed_phase, phase, hushed_offer]; rfl
  | signalling path e => simp only [step, hushed_phase, phase, hushed_signal]; rfl
  | notifying path e => simp only [step, hushed_phase, phase, hushed_notify p w fails]

theorem hushed_after (p : Plan ε) (fails : Nat → Bool) (w : Walk ε) (r : Course ε) (n : Nat) :
    w.hushed.after (p.monitored fun _ => false) r n = (w.after (p.monitored fails) r n).hushed := by
  induction n with
  | zero => rfl
  | succ n ih => rw [after, ih, hushed_step p fails, after]

/-- What a step leaves of the channel that it finds. -/
def leaves (w : Walk ε) (p : Plan ε) (r : Course ε) (n : Nat) : Channel ε :=
    ((w.after p r n).step p (r.token n) (r.channel n)).2

/-- Two walks that differ in nothing but what has been reported of a monitor. -/
structure Matched (p q : Plan ε) (r : Course ε) (w : Walk ε) (n : Nat) : Prop where
  phase : (w.after q r n).phase = (w.after p r n).phase
  progress : (w.after q r n).progress = (w.after p r n).progress
  sheet : (w.after q r n).sheet = (w.after p r n).sheet
  channel : w.leaves q r n = w.leaves p r n

theorem matched_of_monitored (p : Plan ε) (fails fails' : Nat → Bool) (w : Walk ε) (r : Course ε)
    (n : Nat) : Matched (p.monitored fails) (p.monitored fails') r w n := by
  have same : (w.after (p.monitored fails') r n).hushed =
      (w.after (p.monitored fails) r n).hushed :=
    (hushed_after p fails' w r n).symm.trans (hushed_after p fails w r n)
  constructor
  · rw [← hushed_phase, same, hushed_phase]
  · rw [← hushed_progress, same, hushed_progress]
  · rw [← hushed_sheet, same, hushed_sheet]
  · have left := fun fails => congrArg Prod.snd
      (hushed_step p fails (w.after (p.monitored fails) r n) (r.token n) (r.channel n))
    have before := left fails'
    rw [same] at before
    exact before.symm.trans (left fails)

/-- Whatever monitor takes the place of a walk's own, the rest stays as it is. -/
theorem matched_of_isSome {p : Plan ε} (monitor : p.monitor.isSome = true) (fails : Nat → Bool)
    (w : Walk ε) (r : Course ε) (n : Nat) : Matched p (p.monitored fails) r w n := by
  obtain ⟨own, found⟩ := Option.isSome_iff_exists.mp monitor
  have same : p.monitored own = p := by rw [Plan.monitored, ← found]
  have matched := matched_of_monitored p own fails w r n
  rwa [same] at matched

end Walk
end FileCensus
