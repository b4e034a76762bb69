import FileCensus.Proofs.Handling

/-!
The callbacks of a job. Whoever makes the job done owes those that were added before and runs them
one after the other, while everything else may go on; one that is added later is run on the spot. So
each is run once, in the order in which they were added, and finds the job in the state that it will
show for good. What a callback does, and whether it fails, is left open.
-/

namespace FileCensus

variable {κ : Type}

/-- What an operation sets off: nothing, or all callbacks, if it makes the job done. -/
inductive Handle.Rings (h h' : Handle κ) : List κ → Prop where
  | quiet (callbacks : h'.future.callbacks = h.future.callbacks) (done : h'.isDone = h.isDone) :
      Rings h h' []
  | ends (callbacks : h'.future.callbacks = h.future.callbacks) (undone : h.isDone = false)
      (done : h'.isDone = true) : Rings h h' h.future.callbacks

theorem Handle.Change.rings {h h' : Handle κ} {ran : List κ} (c : h.Change h' ran) :
    h.Rings h' ran := by
  cases c with
  | keeps | flags => exact .quiet rfl rfl
  | withdraws pending =>
      refine .ends rfl ?_ rfl
      simp [isDone, Future.isDone, pending]
  | notes cancelled =>
      refine .quiet rfl ?_
      simp [isDone, Future.isDone, cancelled]

theorem Handle.Rings.nil_of_done {h h' : Handle κ} {cs : List κ} (rings : h.Rings h' cs)
    (done : h.isDone = true) : cs = [] := by
  cases rings with
  | quiet _ _ => rfl
  | ends _ undone _ => exact absurd (undone.symm.trans done) Bool.false_ne_true

/-- A job that is done has the same status for good. -/
theorem Handle.status_of_onward {h h' : Handle κ} (onward : Handling.Onward h h')
    (done : h.isDone = true) : h'.status = h.status := by
  obtain ⟨root, ⟨stage, callbacks⟩, token⟩ := h
  obtain ⟨root', ⟨stage', callbacks'⟩, token'⟩ := h'
  have way : stage.Onward stage' := onward.stage
  cases way with
  | stays | notes => rfl
  | leaves | finishes => cases done

/-- The statuses of a job that is done. -/
def JobStatus.isFinal : JobStatus → Bool
  | .completed | .failed | .cancelled => true
  | .pending | .running => false

theorem Handle.status_isFinal {h : Handle κ} (done : h.isDone = true) :
    h.status.isFinal = true := by
  obtain ⟨root, ⟨stage, callbacks⟩, token⟩ := h
  cases stage with
  | pending | running => cases done
  | cancelled | cancelledNoted => rfl
  | finished o =>
      cases o with
      | ok p => rfl
      | error f =>
          by_cases stopped : f.isCancellation = true <;>
            simp [status, isCancelled, stopped, JobStatus.isFinal]

namespace Handling

/-- The callbacks that a turn sets off. -/
def rung (x : Handling κ) : Turn κ → List κ
  | .settle o =>
      match x.handle.future.settle o with
      | .ok (_, ran) => ran
      | .error _ => []
  | .addCallback k => (x.handle.addCallback k).2
  | .goOn i =>
      match x.requests[i]? with
      | none => []
      | some c => (x.handle.cancelStep c).2.2
  | .start | .askResult | .askFailure | .request => []

theorem step_rings (x : Handling κ) {t : Turn κ} (other : ∀ k, t ≠ .addCallback k) :
    x.handle.Rings (x.step t).handle (x.rung t) := by
  cases t with
  | addCallback k => exact absurd rfl (other k)
  | askResult | askFailure | request => exact .quiet rfl rfl
  | start =>
      cases answer : x.handle.future.start with
      | error f => simpa only [step, rung, answer] using .quiet rfl rfl
      | ok r =>
          simp only [step, rung, answer]
          rcases Future.start_ok answer with ⟨before, after, -⟩ | ⟨before, after, -⟩
          all_goals
            refine .quiet ?_ (by simp [Handle.isDone, Future.isDone, before, after])
            simp only [Future.start, before] at answer
            cases answer
            rfl
  | settle o =>
      cases answer : x.handle.future.settle o with
      | error f => simpa only [step, rung, answer] using .quiet rfl rfl
      | ok r =>
          simp only [step, rung, answer]
          have undone := (Future.settle_ok answer).1
          simp only [Future.settle, undone, Bool.false_eq_true, if_false] at answer
          cases answer
          exact .ends rfl undone rfl
  | goOn i =>
      cases found : x.requests[i]? with
      | none => simpa only [step, rung, found] using .quiet rfl rfl
      | some c =>
          simp only [step, rung, found]
          exact (x.handle.cancelStep_change c).rings

end Handling

/-- A callback that was run, with the handle that it was given. -/
structure Run (κ : Type) where
  callback : κ
  handle : Handle κ
  /-- The job was done already when the callback was added. -/
  late : Bool

/-- A handle with its requests and its callbacks. -/
structure Watched (κ : Type) where
  handling : Handling κ
  /-- What whoever made the job done has still to run. -/
  owed : List κ
  runs : List (Run κ)

inductive Watched.Turn (κ : Type) where
  | act (t : Handling.Turn κ)
  /-- The job is withdrawn without a request, as a scanner does that stops. -/
  | withdraw
  /-- The first of the callbacks that are owed is run. -/
  | tell

namespace Watched

def fresh (root : Path) : Watched κ :=
    ⟨.fresh root, [], []⟩

def isDone (x : Watched κ) : Bool :=
    x.handling.handle.isDone

def withdrawn (x : Handling κ) : Handling κ :=
    { x with handle := { x.handle with future := x.handle.future.cancel.2.1 } }

/-- What was run of one sort. -/
def ran (x : Watched κ) (late : Bool) : List κ :=
    (x.runs.filter (·.late == late)).map (·.callback)

def step (x : Watched κ) : Turn κ → Watched κ
  | .act (.addCallback k) =>
      let after := x.handling.step (.addCallback k)
      { x with
        handling := after
        runs := x.runs ++ (x.handling.rung (.addCallback k)).map (⟨·, after.handle, true⟩) }
  | .act t => { x with handling := x.handling.step t, owed := x.owed ++ x.handling.rung t }
  | .withdraw =>
      { x with
        handling := withdrawn x.handling
        owed := x.owed ++ x.handling.handle.future.cancel.2.2 }
  | .tell =>
      match x.owed with
      | [] => x
      | k :: rest =>
          { x with owed := rest, runs := x.runs ++ [⟨k, x.handling.handle, false⟩] }

def follow (turns : List (Turn κ)) (x : Watched κ) : Watched κ :=
    turns.foldl step x

theorem follow_append (before after : List (Turn κ)) (x : Watched κ) :
    x.follow (before ++ after) = (x.follow before).follow after :=
  List.foldl_append

/-- The callbacks that turns add, in their order: those that are added while the job is done, or
those that are added while it is not. -/
def added (late : Bool) : Watched κ → List (Turn κ) → List κ
  | _, [] => []
  | x, t :: turns =>
      (match t with
        | .act (.addCallback k) => if x.isDone = late then [k] else []
        | _ => []) ++ added late (x.step t) turns

theorem added_append (late : Bool) (before after : List (Turn κ)) (x : Watched κ) :
    x.added late (before ++ after) = x.added late before ++ (x.follow before).added late after := by
  induction before generalizing x with
  | nil => rfl
  | cons t before ih => simp only [List.cons_append, added, ih, List.append_assoc]; rfl

/-- What is known of a handle to which these callbacks were added, before the job was done and
after. -/
structure Kept (root : Path) (early late : List κ) (x : Watched κ) : Prop where
  root : x.handling.handle.root = root
  waiting : x.isDone = false →
    x.handling.handle.future.callbacks = early ∧ x.owed = [] ∧ x.runs = []
  told : x.isDone = true → x.ran false ++ x.owed = early
  late : x.ran true = late
  seen : ∀ r ∈ x.runs, r.handle.isDone = true ∧ Handling.Onward r.handle x.handling.handle

theorem Kept.of_done {root : Path} {early late : List κ} {x : Watched κ} (done : x.isDone = true)
    (root_eq : x.handling.handle.root = root) (told : x.ran false ++ x.owed = early)
    (late_eq : x.ran true = late)
    (seen : ∀ r ∈ x.runs, r.handle.isDone = true ∧ Handling.Onward r.handle x.handling.handle) :
    x.Kept root early late where
  root := root_eq
  waiting undone := absurd (undone.symm.trans done) Bool.false_ne_true
  told _ := told
  late := late_eq
  seen := seen

theorem kept_fresh (root : Path) : (fresh root : Watched κ).Kept root [] [] where
  root := rfl
  waiting _ := ⟨rfl, rfl, rfl⟩
  told done := by cases done
  late := rfl
  seen r hr := by simp [fresh] at hr

variable {root : Path} {early late : List κ} {x : Watched κ}

theorem ran_snoc (x : Watched κ) (owed : List κ) (h : Handling κ) (r : Run κ) (sort : Bool) :
    (⟨h, owed, x.runs ++ [r]⟩ : Watched κ).ran sort =
      x.ran sort ++ if r.late = sort then [r.callback] else [] := by
  by_cases same : r.late = sort <;> simp [ran, same]

/-- An operation runs nothing itself: what it sets off is owed from then on. -/
theorem Kept.rings (kept : x.Kept root early late) {y : Handling κ} {cs : List κ}
    (rings : x.handling.handle.Rings y.handle cs)
    (onward : Handling.Onward x.handling.handle y.handle) :
    Kept root early late { x with handling := y, owed := x.owed ++ cs } where
  root := onward.root.trans kept.root
  waiting undone := by
    cases rings with
    | quiet callbacks done =>
        obtain ⟨same, owed, runs⟩ := kept.waiting (done.symm.trans undone)
        exact ⟨callbacks.trans same, by simp [owed], runs⟩
    | ends _ _ done => exact absurd (undone.symm.trans done) Bool.false_ne_true
  told done := by
    cases rings with
    | quiet _ same =>
        rw [List.append_nil]
        exact kept.told (same.symm.trans done)
    | ends _ undone _ =>
        obtain ⟨same, owed, runs⟩ := kept.waiting undone
        simp [ran, runs, owed, same]
  late := kept.late
  seen r hr := ⟨(kept.seen r hr).1, (kept.seen r hr).2.trans onward⟩

theorem Kept.tells (kept : x.Kept root early late) : (x.step .tell).Kept root early late := by
  simp only [step]
  split
  · exact kept
  · next k rest owed =>
    have done : x.isDone = true := by
      by_contra undone
      have empty := (kept.waiting (by simpa using undone)).2.1
      simp [owed] at empty
    refine .of_done done kept.root ?_ ?_ ?_
    · rw [ran_snoc, ← kept.told done, owed]
      simp
    · rw [ran_snoc, ← kept.late]
      simp
    · intro r hr
      rcases List.mem_append.mp hr with old | new
      · exact kept.seen r old
      · cases List.mem_singleton.mp new
        exact ⟨done, .refl _⟩

/-- A callback that is added to a job that is done is run on the spot. -/
theorem step_addCallback (done : x.isDone = true) (k : κ) :
    x.step (.act (.addCallback k)) =
      { x with runs := x.runs ++ [⟨k, x.handling.handle, true⟩] } := by
  have finished : x.handling.handle.future.isDone = true := done
  have same : x.handling.handle.addCallback k = (x.handling.handle, [k]) := by
    simp [Handle.addCallback, Handle.withFuture, Future.addCallback, finished]
  simp [step, Handling.rung, Handling.step, same]

theorem Kept.adds (kept : x.Kept root early late) (k : κ) :
    (x.step (.act (.addCallback k))).Kept root
      (early ++ if x.isDone = false then [k] else [])
      (late ++ if x.isDone = true then [k] else []) := by
  have onward := x.handling.step_onward (.addCallback k)
  cases done : x.isDone with
  | false =>
      obtain ⟨same, owed, runs⟩ := kept.waiting done
      have added : x.handling.handle.addCallback k =
          ({ x.handling.handle with future := { x.handling.handle.future with
            callbacks := early ++ [k] } }, []) := by
        have undone : x.handling.handle.future.isDone = false := done
        simp [Handle.addCallback, Handle.withFuture, Future.addCallback, undone, same]
      have after : x.step (.act (.addCallback k)) = { x with
          handling := { x.handling with handle := (x.handling.handle.addCallback k).1 } } := by
        simp [step, Handling.rung, Handling.step, added]
      rw [after, added]
      refine ⟨kept.root, fun _ => ⟨?_, owed, runs⟩, ?_, ?_, ?_⟩
      · simp
      · intro still
        exact absurd (done.symm.trans still) Bool.false_ne_true
      · exact kept.late.trans (List.append_nil late).symm
      · intro r hr
        rw [runs] at hr
        cases hr
  | true =>
      rw [step_addCallback done]
      refine .of_done done kept.root ?_ ?_ ?_
      · rw [ran_snoc]
        simpa using kept.told done
      · rw [ran_snoc, kept.late]
      · intro r hr
        rcases List.mem_append.mp hr with old | new
        · exact kept.seen r old
        · cases List.mem_singleton.mp new
          exact ⟨done, .refl _⟩

theorem step_onward (x : Watched κ) (t : Turn κ) :
    Handling.Onward x.handling.handle (x.step t).handling.handle := by
  cases t with
  | act t =>
      have onward := x.handling.step_onward t
      cases t with
      | addCallback k | start | settle o | askResult | askFailure | request | goOn i => exact onward
  | withdraw => exact ⟨rfl, x.handling.handle.cancel_change.onward, id⟩
  | tell =>
      simp only [step]
      split <;> exact .refl _

theorem follow_onward (turns : List (Turn κ)) (x : Watched κ) :
    Handling.Onward x.handling.handle (x.follow turns).handling.handle := by
  induction turns generalizing x with
  | nil => exact .refl _
  | cons t turns ih => exact (x.step_onward t).trans (ih (x.step t))

def Turn.isTell : Turn κ → Bool
  | .tell => true
  | .act _ | .withdraw => false

/-- A turn that neither adds a callback nor runs one: what it sets off is owed from then on. -/
structure Plain (x : Watched κ) (t : Turn κ) (y : Handling κ) (cs : List κ) : Prop where
  step : x.step t = { x with handling := y, owed := x.owed ++ cs }
  rings : x.handling.handle.Rings y.handle cs
  added : ∀ late, x.added late [t] = []
  isTell : t.isTell = false

theorem step_cases (x : Watched κ) (t : Turn κ) :
    t = .tell ∨ (∃ k, t = .act (.addCallback k)) ∨ ∃ y cs, x.Plain t y cs := by
  cases t with
  | tell => exact Or.inl rfl
  | withdraw =>
      have rings := x.handling.handle.cancel_change.rings
      exact Or.inr (Or.inr ⟨_, _, rfl, rings, fun _ => rfl, rfl⟩)
  | act t =>
      cases t with
      | addCallback k => exact Or.inr (Or.inl ⟨k, rfl⟩)
      | start | settle _ | askResult | askFailure | request | goOn _ =>
          refine Or.inr (Or.inr ⟨_, _, rfl, ?_, fun _ => rfl, rfl⟩)
          exact x.handling.step_rings (fun _ => nofun)

theorem Kept.step (kept : x.Kept root early late) (t : Turn κ) :
    (x.step t).Kept root (early ++ x.added false [t]) (late ++ x.added true [t]) := by
  rcases x.step_cases t with rfl | ⟨k, rfl⟩ | ⟨y, cs, plain⟩
  · simpa only [added, List.append_nil] using kept.tells
  · simpa only [added, List.append_nil] using kept.adds k
  · have onward := x.step_onward t
    rw [plain.step] at onward ⊢
    simpa only [plain.added, List.append_nil] using kept.rings plain.rings onward

theorem Kept.follow (kept : x.Kept root early late) (turns : List (Turn κ)) :
    (x.follow turns).Kept root (early ++ x.added false turns) (late ++ x.added true turns) := by
  induction turns using List.reverseRecOn with
  | nil =>
      simp only [added, List.append_nil]
      exact kept
  | append_singleton turns t ih =>
      rw [follow_append, added_append, added_append, ← List.append_assoc, ← List.append_assoc]
      exact ih.step t

/-- A job that is done stays so. -/
theorem step_isDone (done : x.isDone = true) (t : Turn κ) : (x.step t).isDone = true :=
    (Handle.looksLike_of_onward (x.step_onward t) done).isDone.trans done

theorem follow_isDone (done : x.isDone = true) (turns : List (Turn κ)) :
    (x.follow turns).isDone = true :=
    (Handle.looksLike_of_onward (follow_onward turns x) done).isDone.trans done

/-- A callback that is added to a job that is done is a late one. -/
theorem added_of_done (done : x.isDone = true) (turns : List (Turn κ)) :
    x.added false turns = [] := by
  induction turns generalizing x with
  | nil => rfl
  | cons t turns ih =>
      simp only [added, done, ih (step_isDone done t), Bool.true_eq_false, if_false]
      split <;> rfl

/-- Once the job is done, nothing comes to what is owed. -/
theorem step_owed (done : x.isDone = true) (t : Turn κ) :
    (x.step t).owed = if t.isTell then x.owed.tail else x.owed := by
  rcases x.step_cases t with rfl | ⟨k, rfl⟩ | ⟨y, cs, plain⟩
  · cases owed : x.owed <;> simp [step, owed, Turn.isTell]
  · rfl
  · simp [plain.step, plain.rings.nil_of_done done, plain.isTell]

theorem follow_owed (done : x.isDone = true) (turns : List (Turn κ)) :
    (x.follow turns).owed = x.owed.drop (turns.countP (·.isTell)) := by
  induction turns generalizing x with
  | nil => rfl
  | cons t turns ih =>
      have next : (x.follow (t :: turns)).owed = _ := ih (step_isDone done t)
      rw [next, step_owed done]
      cases tells : t.isTell <;> simp [tells]

/-- How the callbacks of a job are run: `early` were added before it was done, `late` after that. -/
structure RunsOnce (root : Path) (early late : List κ) (x : Watched κ) : Prop where
  silent : x.isDone = false → x.owed = [] ∧ x.runs = []
  /-- The turn that makes the job done sets off all that were added before, whichever turn it is. -/
  ends : ∀ t, x.isDone = false → (x.step t).isDone = true →
    (x.step t).owed = early ∧ (x.step t).runs = []
  told : x.isDone = true → x.ran false ++ x.owed = early
  /-- Whatever comes between, those that are owed have been run after as many turns. -/
  drains : x.isDone = true → ∀ turns : List (Turn κ), x.owed.length ≤ turns.countP (·.isTell) →
    (x.follow turns).owed = [] ∧ (x.follow turns).ran false = early
  after : x.ran true = late
  atOnce : x.isDone = true → ∀ k, x.step (.act (.addCallback k)) =
    { x with runs := x.runs ++ [⟨k, x.handling.handle, true⟩] }
  /-- Nothing else sets a callback off again, such as the worker that meets a withdrawn job. -/
  quiet : x.isDone = true → ∀ t, t ≠ .tell → (∀ k, t ≠ .act (.addCallback k)) →
    (x.step t).owed = x.owed ∧ (x.step t).runs = x.runs
  notStarted : ∀ f, x.handling.handle.future.start = .error f → x.step (.act .start) = x
  notSettled : ∀ o f, x.handling.handle.future.settle o = .error f → x.step (.act (.settle o)) = x
  /-- A callback is given this handle, in the status that it has for good. -/
  seen : ∀ r ∈ x.runs, r.handle.root = root ∧ r.handle.status.isFinal = true ∧
    ∀ later, (x.follow later).handling.handle.status = r.handle.status ∧
      (x.follow later).handling.handle.LooksLike r.handle

theorem addCallback_isDone (x : Watched κ) (k : κ) :
    (x.step (.act (.addCallback k))).isDone = x.isDone := by
  have same := Future.addCallback_stage x.handling.handle.future k
  simp only [isDone, step, Handling.step, Handle.isDone, Future.isDone, Handle.addCallback,
    Handle.withFuture, same]

theorem Kept.ends (kept : x.Kept root early late) {t : Turn κ} (undone : x.isDone = false)
    (done : (x.step t).isDone = true) : (x.step t).owed = early ∧ (x.step t).runs = [] := by
  obtain ⟨same, owed, runs⟩ := kept.waiting undone
  rcases x.step_cases t with rfl | ⟨k, rfl⟩ | ⟨y, cs, plain⟩
  · have rests : x.step .tell = x := by simp only [Watched.step, owed]
    rw [rests, undone] at done
    cases done
  · rw [addCallback_isDone, undone] at done
    cases done
  · rw [plain.step] at done ⊢
    cases plain.rings with
    | quiet _ still => exact absurd ((still.trans undone).symm.trans done) Bool.false_ne_true
    | ends _ _ _ => exact ⟨by simp [owed, same], runs⟩

theorem Kept.drains (kept : x.Kept root early late) (done : x.isDone = true)
    {turns : List (Turn κ)} (enough : x.owed.length ≤ turns.countP (·.isTell)) :
    (x.follow turns).owed = [] ∧ (x.follow turns).ran false = early := by
  have empty : (x.follow turns).owed = [] := by
    rw [follow_owed done]
    exact List.drop_eq_nil_of_le enough
  have told := (kept.follow turns).told (follow_isDone done turns)
  rw [empty, added_of_done done, List.append_nil, List.append_nil] at told
  exact ⟨empty, told⟩

/-- Whatever is done with a job and its handle, and in whatever order: a callback that is added
before the job is done is run once, by whoever makes it done, in the order in which they were added;
one that is added later is run once, on the spot; none is run while the job is not done; and each
finds the job in the status that it has for good. -/
theorem follow_runsOnce (root : Path) (turns : List (Turn κ)) :
    ((fresh root).follow turns).RunsOnce root ((fresh root).added false turns)
      ((fresh root).added true turns) := by
  have kept := (kept_fresh (κ := κ) root).follow turns
  simp only [List.nil_append] at kept
  generalize (fresh root).follow turns = x at kept ⊢
  constructor
  case silent => exact fun undone => (kept.waiting undone).2
  case ends => exact fun t => kept.ends
  case told => exact kept.told
  case drains => exact fun done turns => kept.drains done
  case after => exact kept.late
  case atOnce =>
    intro done k
    exact step_addCallback done k
  case quiet =>
    intro done t other notAdding
    rcases x.step_cases t with rfl | ⟨k, rfl⟩ | ⟨y, cs, plain⟩
    · exact absurd rfl other
    · exact absurd rfl (notAdding k)
    · simp [plain.step, plain.rings.nil_of_done done]
  case notStarted =>
    intro f refused
    simp [step, Handling.step, Handling.rung, refused]
  case notSettled =>
    intro o f refused
    simp [step, Handling.step, Handling.rung, refused]
  case seen =>
    intro r hr
    obtain ⟨done, onward⟩ := kept.seen r hr
    refine ⟨onward.root.symm.trans kept.root, Handle.status_isFinal done, fun later => ?_⟩
    have way := onward.trans (follow_onward later x)
    exact ⟨Handle.status_of_onward way done, Handle.looksLike_of_onward way done⟩

/-- The job is withdrawn while a callback is added, and the worker meets it after that. -/
example :
    let x := (fresh ⟨.here, ["t"]⟩ : Watched Nat).follow
      [.act (.addCallback 1), .act (.addCallback 2), .withdraw, .tell, .act (.addCallback 3), .tell,
        .act .start, .tell]
    x.runs.map (fun r => (r.callback, r.late, r.handle.status)) =
      [(1, false, .cancelled), (3, true, .cancelled), (2, false, .cancelled)] ∧ x.owed = [] :=
  ⟨rfl, rfl⟩

end Watched
end FileCensus
