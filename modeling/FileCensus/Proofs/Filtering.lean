import FileCensus.Command.Run
import FileCensus.Proofs.Changes
import FileCensus.Proofs.Traffic

/-!
Which filters a job gets. While the worker, submissions and stops go on, settings are changed by
calls; the filters of a job are made of the settings at one moment within its submission, and no
later call reaches them. A command has two such calls, one for its configuration file and one for
its words.
-/

namespace FileCensus
namespace Settings

/-- What a mapping gives to each setting: the reading of its value, and nothing for one that has no
key in it. -/
structure Given.IsRead (given : Options.Given) (g : Given) : Prop where
  include_ : g.include_ = (Options.valueOf given .includePattern Datum.toPatterns).getD []
  exclude : g.exclude = (Options.valueOf given .excludePattern Datum.toPatterns).getD []
  ignoreHidden : g.ignoreHidden = (Options.valueOf given .includeHidden Datum.toSwitch).map (!·)
  ignoreSystem : g.ignoreSystem = (Options.valueOf given .includeSystem Datum.toSwitch).map (!·)
  followLinks : g.followLinks = Options.valueOf given .followLinks Datum.toSwitch
  maxDepth : g.maxDepth = Options.valueOf given .maxDepth Datum.toDepth
  absent : Options.lookup given .maxDepth = none → g.maxDepth = none
  unbounded : ∀ key, Options.lookup given .maxDepth = some (key, .null) → g.maxDepth = some none

theorem Given.isRead {given : Options.Given} {g : Given} (h : (Op.configure given).gives = some g) :
    g.IsRead given := by
  have asks := Op.asks_of_gives h
  cases read : Options.ofGiven given with
  | error e =>
      rw [Op.asks, read] at asks
      cases asks
  | ok o =>
      have same : g = .ofOptions o := by
        rw [Op.asks, read] at asks
        exact (Except.ok.inj asks).symm
      have reads := Options.ofGiven_reads read
      subst same
      refine ⟨?_, ?_, ?_, ?_, reads.followLinks, reads.maxDepth, fun none => ?_, fun key null => ?_⟩
      · rw [Given.ofOptions, reads.includePattern]
      · rw [Given.ofOptions, reads.excludePattern]
      · rw [Given.ofOptions, reads.includeHidden]
      · rw [Given.ofOptions, reads.includeSystem]
      · simp [Given.ofOptions, reads.maxDepth, Options.valueOf, none]
      · simp only [Given.ofOptions, reads.maxDepth, Options.valueOf, null]
        rfl

/-- The filters that settings make for a root. -/
structure IsSnapshot (s : Settings) (supportsMarks : Path → Except Failure Bool) (root : Path)
    (f : FilterSet) : Prop where
  exclude : ∃ marks, (s.ignoreHidden = true → supportsMarks root = .ok marks) ∧
    f.exclude = (if s.ignoreHidden then [.hidden] else []) ++
      (if s.ignoreHidden && marks then [.marked] else []) ++
      (if s.ignoreSystem then [.system] else []) ++ s.exclude.map .glob
  include_ : f.include_ = s.include_.map .glob
  maxDepth : f.maxDepth = s.maxDepth.map Int.ofNat
  nonnegative : ∀ depth, f.maxDepth = some depth → 0 ≤ depth
  followLinks : f.followLinks = s.followLinks

theorem isSnapshot_filters (s : Settings) {supportsMarks : Path → Except Failure Bool}
    {root : Path} (marks : Bool) (asked : s.ignoreHidden = true → supportsMarks root = .ok marks) :
    s.IsSnapshot supportsMarks root ⟨s.ignored marks ++ s.exclude.map .glob,
      s.include_.map .glob, s.maxDepth.map Int.ofNat, s.followLinks⟩ := by
  refine ⟨⟨marks, asked, ?_⟩, rfl, rfl, fun depth limit => ?_, rfl⟩
  · cases hidden : s.ignoreHidden <;> cases marks <;> simp [ignored, hidden]
  · obtain ⟨n, -, rfl⟩ := Option.map_eq_some_iff.mp limit
    exact Int.natCast_nonneg n

theorem filterSet_isSnapshot {s : Settings} {supportsMarks : Path → Except Failure Bool}
    {root : Path} {f : FilterSet} (h : s.filterSet supportsMarks root = .ok f) :
    s.IsSnapshot supportsMarks root f := by
  cases hidden : s.ignoreHidden with
  | false =>
      simp only [filterSet, hidden] at h
      cases h
      exact s.isSnapshot_filters false (by simp [hidden])
  | true =>
      simp only [filterSet, hidden, if_true] at h
      obtain ⟨marks, asked, made⟩ := ok_of_bind h
      cases made
      exact s.isSnapshot_filters marks fun _ => asked

end Settings

namespace Scanner

variable {ε : Type} (s : Scanner ε)

theorem submitStep_settings (w : Surroundings ε) (root : Path) (phase : Submission ε) :
    (s.submitStep w root phase).2.settings = s.settings := by
  cases phase with
  | asking | accepted | refused => rfl
  | preparing =>
      cases plan : s.plan w root <;> simp [submitStep, prepare, plan, bind, Except.bind]
  | entering p =>
      simp only [submitStep]
      repeat' split
      all_goals rfl

end Scanner

namespace Traffic

variable {ε : Type} {w : Surroundings ε} {x : Traffic ε}

/-- A turn that puts other settings in place of those that are there. -/
def Turn.replaces : Turn → Bool
  | .set _ => true
  | _ => false

/-- A turn of those around a scanner whose settings are changed by calls only. -/
inductive Act where
  | edit (op : Settings.Op)
  | turn (t : Turn) (keeps : t.replaces = false)

namespace Act

def op? : Act → Option Settings.Op
  | .edit op => some op
  | .turn _ _ => none

def onSettings (s : Settings) : Act → Turn
  | .edit op => .set (op.edit.after s)
  | .turn t _ => t

def submit (i : Nat) : Act :=
    .turn (.submit i) rfl

end Act

def act (w : Surroundings ε) (x : Traffic ε) (a : Act) : Traffic ε :=
    x.step w (a.onSettings x.scanner.settings)

def after (w : Surroundings ε) (x : Traffic ε) (acts : List Act) : Traffic ε :=
    acts.foldl (fun x a => x.act w a) x

theorem after_snoc (x : Traffic ε) (acts : List Act) (a : Act) :
    x.after w (acts ++ [a]) = (x.after w acts).act w a := by
  simp [after]

theorem step_settings {t : Turn} (keeps : t.replaces = false) :
    (x.step w t).scanner.settings = x.scanner.settings := by
  cases t with
  | set => cases keeps
  | work => exact x.scanner.workStep_settings
  | scan | cancel | stop => rfl
  | submit i =>
      simp only [step]
      split
      · rfl
      · exact x.scanner.submitStep_settings w _ _
  | goOn i =>
      simp only [step]
      split
      · rfl
      · simp only [CancelRequest.step]
        split
        · exact x.scanner.perform_settings _
        · exact x.scanner.cancelStep_settings _ _
  | wind i =>
      simp only [step]
      split
      · rfl
      · simp only [StopRequest.step]
        split
        · exact x.scanner.perform_settings _
        · exact x.scanner.stopStep_settings _ _
  | wait | get =>
      simp only [step]
      split <;> rfl

theorem after_isFold (acts : List Act) (h : x.scanner.settings = .usual) :
    (x.after w acts).scanner.settings.IsFold (acts.filterMap Act.op?) := by
  induction acts using List.reverseRecOn with
  | nil => exact (show (x.after w []).scanner.settings = .usual from h) ▸ Settings.isFold_usual
  | append_singleton acts a ih =>
      rw [after_snoc]
      cases a with
      | edit op =>
          rw [List.filterMap_append]
          exact ih.step op
      | turn t keeps =>
          have same : ((x.after w acts).act w (.turn t keeps)).scanner.settings =
              (x.after w acts).scanner.settings := step_settings keeps
          rw [same, List.filterMap_append]
          simpa [List.filterMap_cons, Act.op?] using ih

/-- The plans of all jobs, in the order of submission. -/
abbrev plans (x : Traffic ε) : List (Plan ε) :=
    x.scanner.core.plans

/-- What a step of a submission does to the plans. -/
inductive Submits (w : Surroundings ε) (s : Scanner ε) (root : Path) (phase : Submission ε) :
    Submission ε → List (Plan ε) → Prop
  | asks (asking : phase = .asking) : Submits w s root phase .preparing s.core.plans
  | refuses {f : Failure} (open_ : ∀ n, phase ≠ .accepted n) :
      Submits w s root phase (.refused f) s.core.plans
  | stays : Submits w s root phase phase s.core.plans
  | prepares {p : Plan ε} (preparing : phase = .preparing) (made : s.plan w root = .ok p) :
      Submits w s root phase (.entering p) s.core.plans
  | enters {p : Plan ε} (entering : phase = .entering p) :
      Submits w s root phase (.accepted s.core.plans.length) (s.core.plans ++ [p])

theorem submitStep_submits (s : Scanner ε) (root : Path) (phase : Submission ε) :
    Submits w s root phase (s.submitStep w root phase).1
      (s.submitStep w root phase).2.core.plans := by
  cases phase with
  | asking =>
      cases closed : s.isClosed with
      | true =>
          simp only [Scanner.submitStep, closed, if_true]
          exact .refuses (by simp)
      | false =>
          simp only [Scanner.submitStep, closed, Bool.false_eq_true, if_false]
          exact .asks rfl
  | accepted | refused => exact .stays
  | preparing =>
      cases made : s.plan w root with
      | error f =>
          have same : s.submitStep w root .preparing = (.refused f, s) := by
            simp [Scanner.submitStep, Scanner.prepare, made, bind, Except.bind]
          rw [same]
          exact .refuses (by simp)
      | ok p =>
          have same : s.submitStep w root .preparing =
              (.entering p, { s with announced := s.announced ++ [root] }) := by
            simp [Scanner.submitStep, Scanner.prepare, made, bind, Except.bind]
          rw [same]
          exact .prepares rfl made
  | entering p =>
      cases closed : s.isClosed with
      | true =>
          simp only [Scanner.submitStep, closed, if_true]
          exact .refuses (by simp)
      | false =>
          cases halted : s.isStopped with
          | true =>
              simp only [Scanner.submitStep, closed, halted, Bool.false_eq_true, if_false, if_true]
              exact .refuses (by simp)
          | false =>
              have plans : (s.enter p).core.plans = s.core.plans ++ [p] := by
                simp [Core.plans, Scanner.core, Scanner.enter, Job.fresh]
              have count : s.jobs.length = s.core.plans.length := by simp [Core.plans, Scanner.core]
              simp only [Scanner.submitStep, closed, halted, Bool.false_eq_true, if_false]
              rw [plans, count]
              exact .enters rfl

/-- What a turn does to the submissions and the plans. -/
inductive Books (w : Surroundings ε) (x : Traffic ε) (t : Turn) :
    List (Path × Submission ε) → List (Plan ε) → Prop
  | rests : Books w x t x.submissions x.plans
  | opens {root : Path} : Books w x t (x.submissions ++ [(root, .asking)]) x.plans
  | submits {i : Nat} {root : Path} {phase next : Submission ε} {plans : List (Plan ε)}
      (turn : t = .submit i) (found : x.submissions[i]? = some (root, phase))
      (step : Submits w x.scanner root phase next plans) :
      Books w x t (x.submissions.set i (root, next)) plans

theorem Books.same {t : Turn} {y : Traffic ε} (submissions : y.submissions = x.submissions)
    (plans : y.plans = x.plans) : Books w x t y.submissions y.plans := by
  rw [submissions, plans]
  exact .rests

theorem step_books (t : Turn) : Books w x t (x.step w t).submissions (x.step w t).plans := by
  cases t with
  | scan root => exact .opens
  | cancel | stop | set => exact .rests
  | work =>
      refine .same rfl ?_
      rcases x.scanner.workStep_cases with ⟨-, move⟩ | tell
      · exact move.plans
      · exact tell.plans
  | submit i =>
      cases found : x.submissions[i]? with
      | none =>
          simp only [step, found]
          exact .rests
      | some q =>
          obtain ⟨root, phase⟩ := q
          simp only [step, found]
          exact .submits rfl found (submitStep_submits x.scanner root phase)
  | goOn i =>
      simp only [step]
      split
      · exact .rests
      · refine .same rfl ?_
        simp only [CancelRequest.step]
        split
        · exact congrArg (List.map (·.plan)) (x.scanner.perform_performs _).jobs
        · exact (x.scanner.cancelStep_moves _ _).plans
  | wind i =>
      simp only [step]
      split
      · exact .rests
      · refine .same rfl ?_
        simp only [StopRequest.step]
        split
        · exact congrArg (List.map (·.plan)) (x.scanner.perform_performs _).jobs
        · exact (x.scanner.stopStep_moves _ _).plans
  | wait | get =>
      simp only [step]
      split
      · exact .rests
      · exact .same rfl rfl

/-- The plan was made at a step of the submission, of the settings of that moment. -/
def IsMade (w : Surroundings ε) (x : Traffic ε) (acts : List Act) (i : Nat) (root : Path)
    (p : Plan ε) : Prop :=
    ∃ before more, acts = before ++ .submit i :: more ∧
      (x.after w before).submissions[i]? = some (root, .preparing) ∧
      (x.after w before).scanner.plan w root = .ok p

theorem IsMade.mono {acts : List Act} {i : Nat} {root : Path} {p : Plan ε}
    (h : IsMade w x acts i root p) (a : Act) : IsMade w x (acts ++ [a]) i root p := by
  obtain ⟨before, more, split, preparing, made⟩ := h
  exact ⟨before, more ++ [a], by rw [split, List.append_assoc, List.cons_append], preparing, made⟩

/-- Every plan comes from a submission, whether its job is there already or not. -/
structure Submitted (w : Surroundings ε) (x : Traffic ε) (acts : List Act) : Prop where
  entering : ∀ i root p, (x.after w acts).submissions[i]? = some (root, .entering p) →
    IsMade w x acts i root p
  accepted : ∀ n p, (x.after w acts).plans[n]? = some p →
    ∃ i root, (x.after w acts).submissions[i]? = some (root, .accepted n) ∧
      IsMade w x acts i root p

theorem Act.eq_submit {s : Settings} {a : Act} {i : Nat} (h : a.onSettings s = .submit i) :
    a = .submit i := by
  cases a with
  | edit => cases h
  | turn t _ =>
      cases (show t = .submit i from h)
      rfl

theorem Submitted.step {acts : List Act} (h : Submitted w x acts) (a : Act) :
    Submitted w x (acts ++ [a]) := by
  have books := step_books (w := w) (x := x.after w acts)
    (a.onSettings (x.after w acts).scanner.settings)
  have next : (x.after w acts).step w (a.onSettings (x.after w acts).scanner.settings) =
      x.after w (acts ++ [a]) := (after_snoc x acts a).symm
  rw [next] at books
  generalize nowSubmissions : (x.after w (acts ++ [a])).submissions = submissions at books
  generalize nowPlans : (x.after w (acts ++ [a])).plans = plans at books
  constructor
  case entering =>
    intro i root p there
    rw [nowSubmissions] at there
    cases books with
    | rests => exact (h.entering i root p there).mono a
    | opens =>
        rcases getElem?_snoc_cases there with ⟨-, old⟩ | ⟨-, new⟩
        · exact (h.entering i root p old).mono a
        · cases new
    | submits turn found submits =>
        rcases getElem?_set_cases there with ⟨rfl, new⟩ | ⟨-, old⟩
        · cases Act.eq_submit turn
          cases submits with
          | asks _ | refuses _ | enters _ => cases new
          | stays =>
              cases new
              exact (h.entering i _ _ found).mono _
          | prepares preparing made =>
              cases new
              subst preparing
              exact ⟨acts, [], rfl, found, made⟩
        · exact (h.entering i root p old).mono a
  case accepted =>
    intro n p there
    rw [nowPlans] at there
    rw [nowSubmissions]
    cases books with
    | rests =>
        obtain ⟨i, root, accepted, made⟩ := h.accepted n p there
        exact ⟨i, root, accepted, made.mono a⟩
    | opens =>
        obtain ⟨i, root, accepted, made⟩ := h.accepted n p there
        refine ⟨i, root, ?_, made.mono a⟩
        rw [List.getElem?_append_left (List.getElem?_eq_some_iff.mp accepted).1, accepted]
    | @submits k root' phase next plans turn found submits =>
        have less := (List.getElem?_eq_some_iff.mp found).1
        -- a submission that has brought its job takes no step any more
        have kept (unmoved : next = phase ∨ ∀ m, phase ≠ .accepted m)
            (there : (x.after w acts).plans[n]? = some p) :
            ∃ i root, ((x.after w acts).submissions.set k (root', next))[i]? =
              some (root, .accepted n) ∧ IsMade w x (acts ++ [a]) i root p := by
          obtain ⟨i, root, accepted, made⟩ := h.accepted n p there
          refine ⟨i, root, ?_, made.mono a⟩
          by_cases same : k = i
          · subst same
            cases found.symm.trans accepted
            rcases unmoved with rfl | never
            · rw [List.getElem?_set_self less]
            · exact absurd rfl (never n)
          · rw [List.getElem?_set_ne same, accepted]
        cases submits with
        | stays => exact kept (.inl rfl) there
        | asks asking => exact kept (.inr (by rw [asking]; exact nofun)) there
        | refuses open_ => exact kept (.inr open_) there
        | prepares preparing _ => exact kept (.inr (by rw [preparing]; exact nofun)) there
        | @enters p' entering =>
            rcases getElem?_snoc_cases there with ⟨-, old⟩ | ⟨rfl, rfl⟩
            · exact kept (.inr (by rw [entering]; exact nofun)) old
            · subst entering
              refine ⟨k, root', ?_, (h.entering k root' p found).mono a⟩
              rw [List.getElem?_set_self less]

theorem submitted_fresh (w : Surroundings ε) (capacity : Option Nat) (latched : Bool)
    (acts : List Act) : Submitted w (fresh capacity latched) acts := by
  induction acts using List.reverseRecOn with
  | nil =>
      have nobody : ((fresh capacity latched).after w []).submissions = [] := rfl
      have nothing : ((fresh capacity latched).after w []).plans = [] := rfl
      constructor
      · intro i root p there
        rw [nobody, List.getElem?_nil] at there
        cases there
      · intro n p there
        rw [nothing, List.getElem?_nil] at there
        cases there
  | append_singleton acts a ih => exact ih.step a

/-- The turns of a history, each with the settings that it meets. -/
theorem after_follow (x : Traffic ε) (acts : List Act) :
    ∃ turns, x.after w acts = x.follow w turns := by
  induction acts generalizing x with
  | nil => exact ⟨[], rfl⟩
  | cons a acts ih =>
      obtain ⟨turns, same⟩ := ih (x.act w a)
      exact ⟨a.onSettings x.scanner.settings :: turns, same⟩

theorem after_append (x : Traffic ε) (acts more : List Act) :
    x.after w (acts ++ more) = (x.after w acts).after w more := by
  simp [after]

end Traffic

namespace Command

/-- Where the settings of a command come from: its words, else its configuration file, else what is
usual; patterns come from both. -/
structure IsLayered (fs : FileSystem) (r : Request) (s : Settings) (o : Options) : Prop where
  file : ∀ p, r.configFile = some p → Options.ofFile fs p = .ok o
  noFile : r.configFile = none → o = .none
  ignoreHidden : s.ignoreHidden = !((r.includeHidden.or o.includeHidden).getD false)
  ignoreSystem : s.ignoreSystem = !((r.includeSystem.or o.includeSystem).getD false)
  followLinks : s.followLinks = (r.followLinks.or o.followLinks).getD false
  maxDepth : s.maxDepth = ((r.maxDepth.map some).or o.maxDepth).getD none
  include_ : s.include_.map (·.pattern) = o.includePattern.getD [] ++ r.include_
  exclude : s.exclude.map (·.pattern) = o.excludePattern.getD [] ++ r.exclude

theorem configure_adds {s s' : Settings} {o : Options} (h : s.configure o = .ok s') :
    ∃ included excluded, Settings.compileAll (o.includePattern.getD []) = .ok included ∧
      Settings.compileAll (o.excludePattern.getD []) = .ok excluded ∧
      s' = s.adding (.ofOptions o) included excluded := by
  obtain ⟨g, included, excluded, given, inc, exc, same⟩ :=
    Settings.Op.result_ok (.apply o) h
  cases Settings.Op.asks_of_gives given
  exact ⟨included, excluded, inc, exc, same⟩

theorem options_includePattern (r : Request) : r.options.includePattern.getD [] = r.include_ := by
  cases empty : r.include_ <;> simp [Request.options, empty]

theorem options_excludePattern (r : Request) : r.options.excludePattern.getD [] = r.exclude := by
  cases empty : r.exclude <;> simp [Request.options, empty]

theorem layered {α : Type} (a b : Option α) (usual : α) :
    a.getD (b.getD usual) = (a.or b).getD usual := by
  cases a <;> rfl

theorem layered_not (a b : Option Bool) :
    (a.map (!·)).getD ((b.map (!·)).getD true) = !((a.or b).getD false) := by
  cases a with
  | some _ => rfl
  | none => cases b <;> rfl

theorem isLayered_of_configured {fs : FileSystem} {r : Request} {o : Options} {s' s : Settings}
    (file : ∀ p, r.configFile = some p → Options.ofFile fs p = .ok o)
    (noFile : r.configFile = none → o = .none) (first : Settings.usual.configure o = .ok s')
    (second : s'.configure r.options = .ok s) : IsLayered fs r s o := by
  obtain ⟨included, excluded, inc, exc, rfl⟩ := configure_adds first
  obtain ⟨included', excluded', inc', exc', rfl⟩ := configure_adds second
  rw [options_includePattern] at inc'
  rw [options_excludePattern] at exc'
  refine ⟨file, noFile, layered_not _ _, layered_not _ _, layered _ _ _, layered _ _ _, ?_, ?_⟩
  · simp [Settings.adding, Settings.usual, (Settings.compileAll_patterns inc).1,
      (Settings.compileAll_patterns inc').1]
  · simp [Settings.adding, Settings.usual, (Settings.compileAll_patterns exc).1,
      (Settings.compileAll_patterns exc').1]

theorem settingsOf_isLayered {fs : FileSystem} {r : Request} {s : Settings}
    (h : settingsOf fs r = .ok s) : ∃ o, IsLayered fs r s o := by
  cases configFile : r.configFile with
  | none =>
      simp only [settingsOf, configFile] at h
      obtain ⟨o, none, rest⟩ := ok_of_bind h
      obtain ⟨s', first, second⟩ := ok_of_bind rest
      cases none
      exact ⟨.none, isLayered_of_configured (by simp [configFile]) (fun _ => rfl) first second⟩
  | some p =>
      simp only [settingsOf, configFile] at h
      obtain ⟨o, read, rest⟩ := ok_of_bind h
      obtain ⟨s', first, second⟩ := ok_of_bind rest
      refine ⟨o, isLayered_of_configured ?_ (by simp [configFile]) first second⟩
      rintro _ same
      cases configFile.symm.trans same
      exact read

end Command

namespace Traffic

variable {ε : Type} {w : Surroundings ε} {x : Traffic ε}

/-- What holds of the settings and of the filters of all jobs after a history of a scanner. -/
structure Settled (w : Surroundings ε) (start : Traffic ε) (acts : List Act) : Prop where
  fold : (start.after w acts).scanner.settings.IsFold (acts.filterMap Act.op?)
  snapshot : ∀ (n : Nat) j, (start.after w acts).scanner.jobs[n]? = some j →
    ∃ i root before more, acts = before ++ .submit i :: more ∧
      (start.after w before).submissions[i]? = some (root, .preparing) ∧
      (start.after w acts).submissions[i]? = some (root, .accepted n) ∧
      (start.after w before).scanner.settings.IsSnapshot w.supportsMarks root j.plan.filters
  kept : ∀ (more : List Act) (n : Nat) j, (start.after w acts).scanner.jobs[n]? = some j →
    ∃ j', (start.after w (acts ++ more)).scanner.jobs[n]? = some j' ∧ j'.plan = j.plan

/-- Settings are the fold of the calls that succeeded, a call that fails changes nothing, and the
filters of a job are made of the settings within its submission, for good. -/
theorem after_settled (w : Surroundings ε) (capacity : Option Nat) (latched : Bool)
    (acts : List Act) :
    Settled w (fresh capacity latched) acts ∧
      (∀ (op : Settings.Op) (s : Settings), op.gives = none ↔
        ∃ f, (op.edit.run s).1 = .error f) ∧
      (∀ (op : Settings.Op) (s : Settings), op.gives = none → op.edit.after s = s) ∧
      (∀ given g, (Settings.Op.configure given).gives = some g → g.IsRead given) ∧
      (∀ n : Int, n < 0 → (Settings.Op.maxDepth (.int n)).gives = none) ∧
      ∀ fs r s, Command.settingsOf fs r = .ok s → ∃ o, Command.IsLayered fs r s o := by
  refine ⟨⟨after_isFold acts rfl, ?_, ?_⟩, fun op s => ?_, fun op s => op.after_of_fails s,
    fun given g => Settings.Given.isRead, fun n negative => ?_, fun fs r s =>
    Command.settingsOf_isLayered⟩
  · intro n j job
    have planned : ((fresh capacity latched).after w acts).plans[n]? = some j.plan := by
      simp [plans, Core.plans, Scanner.core, job]
    obtain ⟨i, root, accepted, before, more, split, preparing, made⟩ :=
      (submitted_fresh w capacity latched acts).accepted n j.plan planned
    obtain ⟨filters, asked, same⟩ := ok_of_bind made
    refine ⟨i, root, before, more, split, preparing, accepted, ?_⟩
    rw [← Except.ok.inj same]
    exact Settings.filterSet_isSnapshot asked
  · intro more n j job
    obtain ⟨turns, same⟩ := after_follow (w := w) (fresh capacity latched) acts
    obtain ⟨turns', same'⟩ := after_follow (w := w) ((fresh capacity latched).after w acts) more
    have regular : ((fresh capacity latched).after w acts).Regular := by
      rw [same]
      exact ((regular_fresh capacity latched).follow w turns).regular
    obtain ⟨j', job', later⟩ := (regular.follow w turns').later n j job
    rw [after_append, same']
    exact ⟨j', job', later.plan⟩
  · cases op.ends s with
    | fails nothing run => simp [nothing, run]
    | succeeds given _ _ run => simp [given, run]
  · have asks : (Settings.Op.maxDepth (.int n)).asks =
        .error (.config (.option OptionName.maxDepth.key .belowZero)) := by
      have read : Settings.readDepth (.int n) = .error .belowZero := by
        simp [Settings.readDepth, negative]
      rw [Settings.Op.asks, read]
      rfl
    exact Settings.Op.gives_of_fails asks

end Traffic
end FileCensus
