import FileCensus.Proofs.Termination

/-!
What a walk has on record. A topic picks the events of one sort and leaves out reports, so that the
record of a topic grows only where such an event happens. The entries that are put are counted
twice, by the walk and, a step later, for all walks together.
-/

namespace FileCensus

variable {ε α : Type}

structure Topic (ε α : Type) where
  of : Event ε → Option α
  mute : ∀ n, of (.said n) = none

namespace Topic

def listed : Topic ε Path where
  of
    | .listed path => some path
    | _ => none
  mute _ := rfl

def judged : Topic ε (List String) where
  of
    | .visited relative => some relative
    | _ => none
  mute _ := rfl

def asked : Topic ε Path where
  of
    | .asked path => some path
    | _ => none
  mute _ := rfl

def put : Topic ε ε where
  of
    | .put entry => some entry
    | _ => none
  mute _ := rfl

end Topic

namespace Walk

def collect (k : Topic ε α) (w : Walk ε) : List α :=
    w.trace.filterMap k.of

/-- The directories that have been listed. -/
def listed (w : Walk ε) : List Path :=
    w.collect .listed

/-- The entries that have been judged, by their relative paths. -/
def judged (w : Walk ε) : List (List String) :=
    w.collect .judged

theorem asked_eq (w : Walk ε) : w.asked = w.collect .asked := rfl

theorem put_eq (w : Walk ε) : w.put = w.collect .put := rfl

section Collect

variable (k : Topic ε α) (w : Walk ε) (p : Plan ε)

/-- Nothing but the events of a walk is on record. -/
@[simp] theorem collect_mk {phase : Phase ε} {progress : Progress Float} {stack : List Frame}
    {ancestors : List Place} {entered : Bool} {notifications : Nat} :
    (⟨phase, progress, stack, ancestors, entered, notifications, w.events⟩ : Walk ε).collect k =
      w.collect k := rfl

@[simp] theorem collect_go (phase : Phase ε) : (w.go phase).collect k = w.collect k := rfl
@[simp] theorem collect_skip : w.skip.collect k = w.collect k := rfl
@[simp] theorem collect_finish (o : Outcome) : (w.finish p o).collect k = w.collect k := rfl

@[simp] theorem collect_happen (e : Event ε) :
    (w.happen e).collect k = w.collect k ++ (k.of e).toList := by
  cases found : k.of e <;> simp [collect, trace, happen, found]

@[simp] theorem collect_say (n : Notice) : (w.say n).collect k = w.collect k := by
  simp [say, k.mute]

@[simp] theorem collect_complete : (w.complete p).collect k = w.collect k := by
  simp [complete]

@[simp] theorem collect_begin : (w.begin_ p).collect k = w.collect k :=
  collect_say k _ _

@[simp] theorem collect_fail (f : Failure) : (w.fail p f).collect k = w.collect k := by
  cases f <;> simp [fail]

@[simp] theorem collect_sight (directory : Path) (e : Entry) (relative : List String) :
    (w.sight directory e relative).collect k = w.collect k ++ (k.of (.visited relative)).toList :=
  collect_happen k _ _

@[simp] theorem collect_sightRoot :
    (w.sightRoot p).collect k = w.collect k ++ (k.of (.visited [p.root.name])).toList :=
  collect_happen k _ _

@[simp] theorem collect_pushed (f : Frame) (ancestors : List Place) :
    (w.pushed f ancestors).collect k = w.collect k ++ (k.of (.listed f.path)).toList :=
  collect_happen k _ _

theorem collect_notify (path : Path) (entry : ε) (deaf : k.of (.notified entry) = none) :
    (w.notify p path entry).collect k = w.collect k := by
  simp only [notify]
  split
  · rfl
  · next fails _ =>
    have told : ∀ n, ({ w with notifications := n }.happen (.notified entry)).collect k =
        w.collect k := by
      intro n
      rw [collect_happen, deaf]
      exact List.append_nil _
    split
    · rw [collect_go, collect_say, told]
    · rw [collect_go, told]

end Collect

section Growth

variable (k : Topic ε α) {p : Plan ε} {t : Token} {w w' : Walk ε} {c : Channel ε}

theorem notify_grows (w : Walk ε) (path : Path) (entry : ε) :
    w.collect k <+: (w.notify p path entry).collect k := by
  simp only [notify]
  split
  · exact List.prefix_refl _
  · split <;> simp

theorem Trouble.collect_grows {f : Failure} (h : Trouble p t w c w' f) :
    w.collect k <+: w'.collect k := by
  cases h with
  | cancelled _ _ | rootStatus _ _ | status _ _ _ | listing _ _ _ | refused _ _ | latched _ _ =>
      exact List.prefix_refl _
  | excluding _ _ _ | sorting _ _ _ _ | including _ _ _ _ _ | excludingRoot _ _ _
  | includingRoot _ _ _ _ => simp

theorem Dropped.collect_grows {directory : Path} {e : Entry} {relative : List String} {depth : Nat}
    (h : Dropped p w directory e relative depth w') : w.collect k <+: w'.collect k := by
  cases h <;> simp

/-- What is on record stays there. -/
theorem Advance.collect_grows {r : Walk ε × Channel ε} (a : Advance p t w c r) :
    w.collect k <+: r.1.collect k := by
  cases a with
  | fails trouble => simpa using trouble.collect_grows k
  | drops _ _ dropped => exact dropped.collect_grows k
  | notifies _ => exact notify_grows k w _ _
  | leaves _ _ _ | rests _ => exact List.prefix_refl _
  | _ => simp

section Deaf

variable {k : Topic ε α} (deaf : ∀ relative, k.of (.visited relative) = none)
include deaf

theorem Trouble.collect_eq {f : Failure} (h : Trouble p t w c w' f) :
    w'.collect k = w.collect k := by
  cases h with
  | cancelled _ _ | rootStatus _ _ | status _ _ _ | listing _ _ _ | refused _ _ | latched _ _ => rfl
  | excluding _ _ _ | sorting _ _ _ _ | including _ _ _ _ _ | excludingRoot _ _ _
  | includingRoot _ _ _ _ => simp [deaf]

theorem Dropped.collect_eq {directory : Path} {e : Entry} {relative : List String} {depth : Nat}
    (h : Dropped p w directory e relative depth w') : w'.collect k = w.collect k := by
  cases h <;> simp [deaf]

end Deaf

theorem collect_after (p : Plan ε) (w : Walk ε) (r : Course ε) {m n : Nat} (le : m ≤ n) :
    (w.after p r m).collect k <+: (w.after p r n).collect k := by
  induction le with
  | refl => exact List.prefix_refl _
  | step _ ih => exact ih.trans ((step_advances p _ _ _).collect_grows k)

end Growth

/-- One if an entry has been put that is not yet counted among all entries. -/
def uncounted : Phase ε → Nat
  | .counting .. => 1
  | _ => 0

/-- A step puts these entries, and the counts follow. -/
structure Delivers (w : Walk ε) (c : Channel ε) (r : Walk ε × Channel ε) (new : List ε) : Prop where
  put : r.1.put = w.put ++ new
  queued : r.1.progress.queued = w.progress.queued + new.length
  items : r.2.items = c.items ++ new
  total : r.2.total + uncounted r.1.phase = c.total + uncounted w.phase + new.length

section Delivers

variable {p : Plan ε} {t : Token} {w w' : Walk ε} {c : Channel ε}

theorem delivers_nothing (put : w'.put = w.put) (queued : w'.progress.queued = w.progress.queued)
    (counted : uncounted w'.phase = uncounted w.phase) : Delivers w c (w', c) [] where
  put := put.trans (List.append_nil _).symm
  queued := queued
  items := (List.append_nil _).symm
  total := by rw [counted]; rfl

theorem fail_queued (w : Walk ε) (f : Failure) :
    (w.fail p f).progress.queued = w.progress.queued := by
  cases f <;> rfl

theorem notify_progress (w : Walk ε) (path : Path) (e : ε) :
    (w.notify p path e).progress = w.progress := by
  simp only [notify]
  split
  · rfl
  · split <;> rfl

theorem Trouble.uncounted {f : Failure} (h : Trouble p t w c w' f) : uncounted w.phase = 0 := by
  cases h with
  | cancelled look _ =>
      cases phase : w.phase <;> simp_all [looks, Walk.uncounted]
  | latched phase _ | rootStatus phase _ | status phase _ _ | listing phase _ _
  | excluding phase _ _ | sorting phase _ _ _ | including phase _ _ _ _ | excludingRoot phase _ _
  | includingRoot phase _ _ _ | refused phase _ =>
      rw [phase]
      rfl

theorem Trouble.queued {f : Failure} (h : Trouble p t w c w' f) :
    w'.progress.queued = w.progress.queued := by
  cases h <;> rfl

theorem Advance.delivers {r : Walk ε × Channel ε} (a : Advance p t w c r) :
    ∃ new, Delivers w c r new := by
  cases a with
  | @fails w' f trouble =>
      obtain ⟨g, ended⟩ := fail_phase w' p f
      have put : w'.put = w.put := trouble.collect_eq (k := .put) fun _ => rfl
      refine ⟨[], delivers_nothing ?_ ?_ ?_⟩
      · rw [fail_put, put]
      · rw [fail_queued, trouble.queued]
      · rw [ended, trouble.uncounted]
        rfl
  | drops h _ dropped =>
      refine ⟨[], delivers_nothing dropped.put ?_ (by simp [h, dropped.phase, uncounted])⟩
      cases dropped <;> rfl
  | puts h _ _ =>
      refine ⟨[_], ?_, rfl, rfl, ?_⟩
      · simp only [go_put, happen_put_put]
        rfl
      · rw [h]
        rfl
  | counts h =>
      refine ⟨[], ?_, rfl, (List.append_nil _).symm, ?_⟩
      · simp [happen_put]
      · rw [h]
        rfl
  | @signals path e c' h signalled =>
      obtain ⟨-, latch, rfl⟩ := Channel.signal_ok signalled
      refine ⟨[], by simp [happen_put], rfl, (List.append_nil _).symm, ?_⟩
      rw [h]
      rfl
  | notifies h =>
      exact ⟨[], delivers_nothing (by simp) (by rw [notify_progress]) (by simp [h, uncounted])⟩
  | leaves _ _ _ | rests _ => exact ⟨[], delivers_nothing rfl rfl rfl⟩
  | begins h | rootDirectory h _ _ | rootFile h _ _ | rootOther h _ _ _ | loops h _ _ _
  | enters h _ _ | completes h _ | takes h _ _ | descends h _ _ _ _ | accepts h _ _ _ _
  | dropsRoot h _ _ | acceptsRoot h _ _ _ | unmade h _ | makes h _ | tries h _
  | turnedAway h _ _ =>
      refine ⟨[], delivers_nothing ?_ rfl (by simp [h, uncounted])⟩
      simp only [put_eq]
      simp [Topic.put]

end Delivers

end Walk
end FileCensus
