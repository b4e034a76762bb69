import FileCensus.Proofs.Record
import FileCensus.Proofs.Termination
import Mathlib.Algebra.Order.Group.Basic
import Mathlib.Algebra.Order.Group.Int

/-!
How long a job takes. The history of a job is the list of the changes of its progress; of these its
start and its end read the clock, and what is measured depends on the two readings alone. Every walk
has a history with one start and at most one end after it. Times are exact, of any ordered group,
and nothing is asked of what the clock shows. The one flaw is that a time of zero cannot be asked
for: the clock is read in its place.
-/

namespace FileCensus
namespace Progress

/-- A change of a job's progress. -/
inductive Change (τ : Type) where
  | start (now : τ)
  | finish (now : τ)
  | visit
  | skip
  | enqueue
  | record (path : String) (f : Failure)
  | reach (path : String)

/-- Whether a change reads the clock. -/
def Change.isTimed {τ : Type} : Change τ → Bool
  | .start _ | .finish _ => true
  | .visit | .skip | .enqueue | .record _ _ | .reach _ => false

/-- How far a job has come, as far as the clock is concerned. -/
inductive Timing (τ : Type) where
  | waiting
  | running (start : τ)
  | finished (start stop : τ)

variable {τ : Type}

def change (p : Progress τ) : Change τ → Progress τ
  | .start now => p.start now
  | .finish now => p.finish now
  | .visit => p.visit
  | .skip => p.skip
  | .enqueue => p.enqueue
  | .record path f => p.record path f
  | .reach path => { p with currentPath := some path }

def follow (p : Progress τ) (cs : List (Change τ)) : Progress τ :=
    cs.foldl change p

def timed (cs : List (Change τ)) : List (Change τ) :=
    cs.filter Change.isTimed

def times (p : Progress τ) : Option τ × Option τ :=
    (p.startTime, p.endTime)

def Timing.changes : Timing τ → List (Change τ)
  | .waiting => []
  | .running a => [.start a]
  | .finished a b => [.start a, .finish b]

def Timing.times : Timing τ → Option τ × Option τ
  | .waiting => (none, none)
  | .running a => (some a, none)
  | .finished a b => (some a, some b)

section History

variable {p q : Progress τ} {c : Change τ} {cs : List (Change τ)}

theorem follow_append (p : Progress τ) (cs ds : List (Change τ)) :
    p.follow (cs ++ ds) = (p.follow cs).follow ds :=
  List.foldl_append

theorem timed_append (cs ds : List (Change τ)) : timed (cs ++ ds) = timed cs ++ timed ds :=
  List.filter_append ..

theorem change_untimed (untimed : c.isTimed = false) : (p.change c).times = p.times := by
  cases c with
  | start | finish => cases untimed
  | visit | skip | enqueue | record | reach => rfl

theorem change_times (same : p.times = q.times) : (p.change c).times = (q.change c).times := by
  obtain ⟨start, stop⟩ := Prod.mk.inj same
  cases c with
  | start now => exact congrArg (some now, ·) stop
  | finish now => exact congrArg (·, some now) start
  | visit | skip | enqueue | record | reach => exact same

/-- The times come from those changes alone that read the clock. -/
theorem follow_times (same : p.times = q.times) (cs : List (Change τ)) :
    (p.follow cs).times = (q.follow (timed cs)).times := by
  -- The counts of the two sides part at the first change that is left out, so both are general.
  induction cs generalizing p q with
  | nil => exact same
  | cons c cs ih =>
      cases reads : c.isTimed with
      | true =>
          rw [timed, List.filter_cons_of_pos reads]
          exact ih (change_times same)
      | false =>
          rw [timed, List.filter_cons_of_neg (by simp [reads])]
          exact ih ((change_untimed reads).trans same)

theorem times_of_timed (root : String) (t : Timing τ) (history : timed cs = t.changes) :
    ((fresh root).follow cs).times = t.times := by
  rw [follow_times rfl cs, history]
  cases t <;> rfl

end History

section Elapsed

variable {p : Progress τ} {a b clock now now' : τ}

theorem endPoint_of_ended [OfNat τ 0] [BEq τ] (ended : p.endTime = some b) (clock : τ)
    (asked : Option τ) : p.endPoint clock asked = b := by
  simp only [endPoint, ended]

theorem endPoint_unasked [OfNat τ 0] [BEq τ] (open_ : p.endTime = none) (clock : τ) :
    p.endPoint clock none = clock := by
  simp only [endPoint, open_]

/-- Once a job is over, neither the clock nor a time that is asked for matters. This holds of any
numbers, also of those that round. -/
theorem elapsed_of_ended [OfNat τ 0] [BEq τ] [Sub τ] [LT τ] [DecidableLT τ]
    (ended : p.endTime = some b) (clock clock' : τ) (asked asked' : Option τ) :
    p.elapsed clock asked = p.elapsed clock' asked' := by
  simp only [elapsed, endPoint_of_ended ended]

theorem statistics_of_ended {p : Progress Float} {b : Float} (ended : p.endTime = some b)
    (clock clock' : Float) : p.statistics clock = p.statistics clock' := by
  rw [statistics, elapsed_of_ended ended clock clock' none none]
  rfl

variable [AddCommGroup τ] [LinearOrder τ]

theorem elapsed_of_waiting (waiting : p.startTime = none) (clock : τ) (asked : Option τ) :
    p.elapsed clock asked = 0 := by
  rw [elapsed, waiting]

theorem elapsed_of_started (started : p.startTime = some a) (clock : τ) (asked : Option τ) :
    p.elapsed clock asked = max (p.endPoint clock asked - a) 0 := by
  rw [elapsed, started]
  exact (max_def_lt _ _).symm

/-- A time of zero is not told from none. -/
theorem endPoint_asked (open_ : p.endTime = none) (clock now : τ) :
    p.endPoint clock (some now) = if now = 0 then clock else now := by
  simp only [endPoint, open_, beq_iff_eq]

theorem elapsed_unasked (times : p.times = (Timing.running a).times) (clock : τ) :
    p.elapsed clock none = max (clock - a) 0 := by
  obtain ⟨started, open_⟩ := Prod.mk.inj times
  rw [elapsed_of_started started, endPoint_unasked open_]

theorem elapsed_asked (times : p.times = (Timing.running a).times) (clock now : τ) :
    p.elapsed clock (some now) = max ((if now = 0 then clock else now) - a) 0 := by
  obtain ⟨started, open_⟩ := Prod.mk.inj times
  rw [elapsed_of_started started, endPoint_asked open_]

theorem elapsed_finished (times : p.times = (Timing.finished a b).times) (clock : τ)
    (asked : Option τ) : p.elapsed clock asked = max (b - a) 0 := by
  obtain ⟨started, ended⟩ := Prod.mk.inj times
  rw [elapsed_of_started started, endPoint_of_ended ended]

theorem elapsed_nonneg (p : Progress τ) (clock : τ) (asked : Option τ) :
    0 ≤ p.elapsed clock asked := by
  cases started : p.startTime with
  | none => exact (elapsed_of_waiting started clock asked).ge
  | some a =>
      rw [elapsed_of_started started]
      exact le_max_right _ _

theorem endPoint_mono (p : Progress τ) (clock : τ) (le : now ≤ now')
    (alike : now = 0 ↔ now' = 0) : p.endPoint clock (some now) ≤ p.endPoint clock (some now') := by
  cases ended : p.endTime with
  | some b => rw [endPoint_of_ended ended, endPoint_of_ended ended]
  | none =>
      rw [endPoint_asked ended, endPoint_asked ended]
      by_cases zero : now = 0
      · rw [if_pos zero, if_pos (alike.mp zero)]
      · rw [if_neg zero, if_neg (mt alike.mpr zero)]
        exact le

theorem elapsed_mono [IsOrderedAddMonoid τ] (p : Progress τ) (clock : τ) (le : now ≤ now')
    (alike : now = 0 ↔ now' = 0) : p.elapsed clock (some now) ≤ p.elapsed clock (some now') := by
  cases started : p.startTime with
  | none => rw [elapsed_of_waiting started, elapsed_of_waiting started]
  | some a =>
      rw [elapsed_of_started started, elapsed_of_started started]
      exact max_le_max_right 0 (sub_le_sub_right (p.endPoint_mono clock le alike) a)

end Elapsed

end Progress

namespace Walk

open Progress (Change Timing timed)

variable {ε : Type} {p : Plan ε} {t : Token} {w w' : Walk ε} {c : Channel ε}

/-- The times of a walk in a phase. The clock stands still while a walk runs. -/
def timing (p : Plan ε) : Phase ε → Timing Float
  | .idle => .waiting
  | .ended _ => .finished p.now p.now
  | _ => .running p.now

/-- What is done between two states of a walk, as changes of its progress. -/
structure Recounts (p : Plan ε) (w w' : Walk ε) (cs : List (Change Float)) : Prop where
  progress : w'.progress = w.progress.follow cs
  clocked : (timing p w.phase).changes ++ timed cs = (timing p w'.phase).changes

theorem fail_progress (w : Walk ε) (p : Plan ε) (f : Failure) :
    (w.fail p f).progress = w.progress.finish p.now := by
  cases f <;> rfl

/-- A walk can only fail while it runs. -/
theorem Trouble.timing {f : Failure} (h : Trouble p t w c w' f) :
    timing p w.phase = .running p.now := by
  cases h with
  | cancelled look _ => cases phase : w.phase <;> simp [phase, looks] at look <;> rfl
  | rootStatus phase _ | status phase _ _ | listing phase _ _ | excluding phase _ _
  | sorting phase _ _ _ | including phase _ _ _ _ | excludingRoot phase _ _
  | includingRoot phase _ _ _ | refused phase _ | latched phase _ =>
      rw [phase]
      rfl

theorem Trouble.untimed {f : Failure} (h : Trouble p t w c w' f) :
    ∃ cs, w'.progress = w.progress.follow cs ∧ timed cs = [] := by
  cases h with
  | cancelled | rootStatus | status | listing | refused | latched => exact ⟨[], rfl, rfl⟩
  | excluding | sorting | including => exact ⟨[.visit, .reach _], rfl, rfl⟩
  | excludingRoot | includingRoot => exact ⟨[.visit], rfl, rfl⟩

theorem Dropped.untimed {directory : Path} {e : Entry} {relative : List String} {depth : Nat}
    (h : Dropped p w directory e relative depth w') :
    ∃ cs, w'.progress = w.progress.follow cs ∧ timed cs = [] := by
  cases h with
  | excluded | unwanted => exact ⟨[.visit, .reach _, .skip], rfl, rfl⟩
  | tooDeep | neither => exact ⟨[.visit, .reach _], rfl, rfl⟩

/-- A step reads the clock if it starts the walk or ends it. -/
theorem Advance.recounts {s : Walk ε × Channel ε} (a : Advance p t w c s) :
    ∃ cs, Recounts p w s.1 cs := by
  cases a with
  | @fails w' f trouble =>
      obtain ⟨cs, progress, untimed⟩ := trouble.untimed
      obtain ⟨g, ended⟩ := fail_phase w' p f
      refine ⟨cs ++ [.finish p.now], ?_, ?_⟩
      · rw [fail_progress, progress, Progress.follow_append]
        rfl
      · rw [trouble.timing, Progress.timed_append, untimed, ended]
        rfl
  | begins h => exact ⟨[.start p.now], rfl, by rw [h]; rfl⟩
  | rootOther h _ _ _ | completes h _ => exact ⟨[.finish p.now], rfl, by rw [h]; rfl⟩
  | drops h _ dropped =>
      obtain ⟨cs, progress, untimed⟩ := dropped.untimed
      exact ⟨cs, progress, by rw [h, dropped.phase, untimed]; rfl⟩
  | descends h _ _ _ _ | accepts h _ _ _ _ => exact ⟨[.visit, .reach _], rfl, by rw [h]; rfl⟩
  | dropsRoot h _ _ => exact ⟨[.visit, .skip], rfl, by rw [h]; rfl⟩
  | acceptsRoot h _ _ _ => exact ⟨[.visit], rfl, by rw [h]; rfl⟩
  | @unmade path f h _ => exact ⟨[.record path.text f], rfl, by rw [h]; rfl⟩
  | puts h _ _ => exact ⟨[.enqueue], rfl, by rw [h]; rfl⟩
  | notifies h => exact ⟨[], notify_progress _ _ _, by rw [h, notify_phase]; rfl⟩
  | leaves _ _ _ | rests _ => exact ⟨[], rfl, List.append_nil _⟩
  | rootDirectory h _ _ | rootFile h _ _ | loops h _ _ _ | enters h _ _ | takes h _ _ | makes h _
  | tries h _ | turnedAway h _ _ | counts h | signals h _ => exact ⟨[], rfl, by rw [h]; rfl⟩

/-- Every walk has a history that starts once and ends at most once. -/
theorem recounts_after (p : Plan ε) (w : Walk ε) (r : Course ε) (n : Nat) :
    ∃ cs, Recounts p w (w.after p r n) cs := by
  induction n with
  | zero => exact ⟨[], rfl, List.append_nil _⟩
  | succ n ih =>
      obtain ⟨cs, before⟩ := ih
      obtain ⟨ds, step⟩ := (step_advances p (r.token n) (w.after p r n) (r.channel n)).recounts
      refine ⟨cs ++ ds, ?_, ?_⟩
      · rw [Progress.follow_append, ← before.progress]
        exact step.progress
      · rw [Progress.timed_append, ← List.append_assoc, before.clocked]
        exact step.clocked

end Walk

namespace Progress

variable {τ : Type} [AddCommGroup τ] [LinearOrder τ]

/-- What the progress of a job tells of the time that it takes. -/
structure Measures (τ : Type) [AddCommGroup τ] [LinearOrder τ] (root : String) : Prop where
  waiting : ∀ cs, timed cs = [] → ∀ (clock : τ) asked,
    ((fresh root).follow cs).elapsed clock asked = 0
  asked : ∀ cs (a : τ), timed cs = [.start a] → ∀ clock now, now ≠ 0 →
    ((fresh root).follow cs).elapsed clock (some now) = max (now - a) 0
  unasked : ∀ cs (a : τ), timed cs = [.start a] → ∀ clock,
    ((fresh root).follow cs).elapsed clock none = max (clock - a) 0
  /-- A time of zero counts as none that is asked for. -/
  zero : ∀ cs (a : τ), timed cs = [.start a] → ∀ clock,
    ((fresh root).follow cs).elapsed clock (some 0) = max (clock - a) 0
  /-- When the answer is the one for the time that is asked for. -/
  asked_iff : ∀ cs (a : τ), timed cs = [.start a] → ∀ clock now,
    (((fresh root).follow cs).elapsed clock (some now) = max (now - a) 0 ↔
      (now = 0 → max (clock - a) 0 = max (0 - a) 0))
  finished : ∀ cs (a b : τ), timed cs = [.start a, .finish b] → ∀ clock asked,
    ((fresh root).follow cs).elapsed clock asked = max (b - a) 0
  nonneg : ∀ cs (clock : τ) asked, 0 ≤ ((fresh root).follow cs).elapsed clock asked
  monotone : ∀ cs (clock now now' : τ), now ≤ now' → (now = 0 ↔ now' = 0) →
    ((fresh root).follow cs).elapsed clock (some now) ≤
      ((fresh root).follow cs).elapsed clock (some now')
  settled : ∀ cs (a b : Float), timed cs = [.start a, .finish b] → ∀ clock clock',
    ((fresh root).follow cs).statistics clock = ((fresh root).follow cs).statistics clock'
  /-- The progress of every walk comes about in this way. -/
  walked : ∀ {ε : Type} (p : Plan ε) (r : Course ε) n, ∃ cs,
    ((Walk.fresh p.root).after p r n).progress = (fresh p.root.text).follow cs ∧
      timed cs = (Walk.timing p ((Walk.fresh p.root).after p r n).phase).changes
  /-- What is reported of a walk that has ended stays as it is. -/
  final : ∀ {ε : Type} (p : Plan ε) (r : Course ε) n o,
    ((Walk.fresh p.root).after p r n).phase = .ended o → ∀ m, n ≤ m → ∀ clock clock',
      ((Walk.fresh p.root).after p r m).progress.statistics clock' =
        ((Walk.fresh p.root).after p r n).progress.statistics clock

/-- A job is measured up to the time that is asked for, except that zero cannot be asked for. -/
theorem elapsed_measures [IsOrderedAddMonoid τ] (root : String) : Measures τ root where
  waiting _ history clock asked :=
    elapsed_of_waiting (Prod.mk.inj (times_of_timed root .waiting history)).1 clock asked
  asked _ a history clock now given := by
    rw [elapsed_asked (times_of_timed root (.running a) history), if_neg given]
  unasked _ a history clock := elapsed_unasked (times_of_timed root (.running a) history) clock
  zero _ a history clock := by
    rw [elapsed_asked (times_of_timed root (.running a) history), if_pos rfl]
  asked_iff _ a history clock now := by
    rw [elapsed_asked (times_of_timed root (.running a) history)]
    by_cases zero : now = 0
    · subst zero
      rw [if_pos rfl]
      exact ⟨fun same _ => same, fun same => same rfl⟩
    · rw [if_neg zero]
      exact ⟨fun _ same => absurd same zero, fun _ => rfl⟩
  finished _ a b history clock asked :=
    elapsed_finished (times_of_timed root (.finished a b) history) clock asked
  nonneg _ clock asked := elapsed_nonneg _ clock asked
  monotone _ clock _ _ le alike := elapsed_mono _ clock le alike
  settled _ a b history clock clock' :=
    statistics_of_ended (Prod.mk.inj (times_of_timed root (.finished a b) history)).2 clock clock'
  walked p r n := by
    obtain ⟨cs, history⟩ := Walk.recounts_after p (Walk.fresh p.root) r n
    exact ⟨cs, history.progress, history.clocked⟩
  final p r n o ended m le clock clock' := by
    obtain ⟨cs, history⟩ := Walk.recounts_after p (Walk.fresh p.root) r n
    have clocked : timed cs = (Walk.timing p (.ended o)).changes := by
      rw [← ended]
      exact history.clocked
    have times := times_of_timed p.root.text (.finished p.now p.now) clocked
    rw [Walk.after_of_ended ended le, history.progress]
    exact statistics_of_ended (Prod.mk.inj times).2 clock' clock

theorem elapsed_measures_integers : Measures Int "data" ∧
    ((fresh "data").follow [.visit, .start (-3), .skip]).elapsed 9 (some (2 : Int)) = 5 ∧
    ((fresh "data").follow [.visit, .start (-3), .finish 4]).elapsed 9 (some (0 : Int)) = 7 :=
  ⟨elapsed_measures "data", by decide, by decide⟩

/-- By a clock that shows five, a job that has started at zero has taken five up to the time zero,
which is more than up to the time one. -/
theorem zero_reads_the_clock : timed [Change.start (0 : Int)] = [.start 0] ∧
    ((fresh "r").follow [.start 0]).elapsed 5 (some (0 : Int)) ≠ max (0 - 0) 0 ∧
    ¬ ((fresh "r").follow [.start 0]).elapsed 5 (some (0 : Int)) ≤
      ((fresh "r").follow [.start 0]).elapsed 5 (some 1) :=
  ⟨rfl, by decide, by decide⟩

end Progress
end FileCensus
