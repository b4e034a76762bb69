import FileCensus.Scanner.Settings

/-!
Settings are what has been given, call by call. What a call gives does not depend on the settings it
meets, and whether it fails is known before it writes anything: a call that fails leaves the settings
as they were. Each switch and the depth limit are the last ones given, and the patterns are all that
were given, in their order.
-/

namespace FileCensus

theorem ok_of_bind {κ α β : Type} {x : Except κ α} {f : α → Except κ β} {b : β}
    (h : x >>= f = .ok b) : ∃ a, x = .ok a ∧ f a = .ok b := by
  cases x with
  | error _ => cases h
  | ok a => exact ⟨a, rfl, h⟩

namespace Options

/-- What the keys of an option say, read by the rules of the option. -/
def valueOf {α : Type} {κ : Type} (given : Given) (n : OptionName) (read : Datum → Except κ α) :
    Option α :=
    (lookup given n).bind fun kv => (read kv.2).toOption

theorem readWith_ok {α : Type} {given : Given} {n : OptionName}
    {read : Datum → Except (Option Nat × OptionFault) α} {v : Option α}
    (h : readWith given n read = .ok v) : v = valueOf given n read := by
  unfold readWith at h
  cases found : lookup given n with
  | none =>
      rw [found] at h
      cases h
      simp [valueOf, found]
  | some kv =>
      obtain ⟨key, d⟩ := kv
      simp only [found] at h
      cases value : read d with
      | ok x =>
          rw [value] at h
          cases h
          simp [valueOf, found, value, Except.toOption]
      | error e =>
          obtain ⟨index, fault⟩ := e
          rw [value] at h
          cases index <;> cases h

theorem valueOf_whole {α : Type} (given : Given) (n : OptionName)
    (read : Datum → Except OptionFault α) :
    valueOf given n (whole read) = valueOf given n read := by
  unfold valueOf
  congr
  funext kv
  cases value : read kv.2 <;> simp [whole, value, Except.toOption]

/-- The options that were read from what was given. -/
structure AreRead (given : Given) (o : Options) : Prop where
  includeHidden : o.includeHidden = valueOf given .includeHidden Datum.toSwitch
  includeSystem : o.includeSystem = valueOf given .includeSystem Datum.toSwitch
  includePattern : o.includePattern = valueOf given .includePattern Datum.toPatterns
  excludePattern : o.excludePattern = valueOf given .excludePattern Datum.toPatterns
  followLinks : o.followLinks = valueOf given .followLinks Datum.toSwitch
  maxDepth : o.maxDepth = valueOf given .maxDepth Datum.toDepth

theorem ofGiven_reads {given : Given} {o : Options} (h : ofGiven given = .ok o) :
    AreRead given o := by
  obtain ⟨hidden, isHidden, h⟩ := ok_of_bind h
  obtain ⟨system, isSystem, h⟩ := ok_of_bind h
  obtain ⟨include_, isInclude, h⟩ := ok_of_bind h
  obtain ⟨exclude, isExclude, h⟩ := ok_of_bind h
  obtain ⟨links, isLinks, h⟩ := ok_of_bind h
  obtain ⟨depth, isDepth, h⟩ := ok_of_bind h
  cases h
  exact ⟨(readWith_ok isHidden).trans (valueOf_whole ..),
    (readWith_ok isSystem).trans (valueOf_whole ..), readWith_ok isInclude, readWith_ok isExclude,
    (readWith_ok isLinks).trans (valueOf_whole ..), (readWith_ok isDepth).trans (valueOf_whole ..)⟩

end Options

namespace Settings

/-- What a call gives. -/
structure Given where
  include_ : List String := []
  exclude : List String := []
  ignoreHidden : Option Bool := none
  ignoreSystem : Option Bool := none
  followLinks : Option Bool := none
  maxDepth : Option (Option Nat) := none

def Given.ofOptions (o : Options) : Given where
  include_ := o.includePattern.getD []
  exclude := o.excludePattern.getD []
  ignoreHidden := o.includeHidden.map (!·)
  ignoreSystem := o.includeSystem.map (!·)
  followLinks := o.followLinks
  maxDepth := o.maxDepth

/-- A call that changes settings. -/
inductive Op where
  | configure (given : Options.Given)
  | apply (o : Options)
  | include_ (pattern : String)
  | exclude (pattern : String)
  | ignoreHidden (d : Datum)
  | ignoreSystem (d : Datum)
  | followLinks (d : Datum)
  | maxDepth (d : Datum)

namespace Op

/-- The steps of a call. -/
def edit : Op → Edit
  | .configure given => .configureGiven given
  | .apply o => .configure o
  | .include_ pattern => .addInclude pattern
  | .exclude pattern => .addExclude pattern
  | .ignoreHidden d => modify fun s => s.setIgnoreHidden d
  | .ignoreSystem d => modify fun s => s.setIgnoreSystem d
  | .followLinks d => modify fun s => s.setFollowLinks d
  | .maxDepth d => .setMaxDepth d

/-- What a call asks for, its patterns not yet looked at. -/
def asks : Op → Except Failure Given
  | .configure given => ((Options.ofGiven given).mapError .config).map .ofOptions
  | .apply o => .ok (.ofOptions o)
  | .include_ pattern => .ok { include_ := [pattern] }
  | .exclude pattern => .ok { exclude := [pattern] }
  | .ignoreHidden d => .ok { ignoreHidden := some d.isTrue }
  | .ignoreSystem d => .ok { ignoreSystem := some d.isTrue }
  | .followLinks d => .ok { followLinks := some d.isTrue }
  | .maxDepth d =>
      ((readDepth d).mapError fun fault => .config (.option OptionName.maxDepth.key fault)).map
        fun limit => { maxDepth := some limit }

/-- What a call gives, if it succeeds: it has to be readable and all its patterns well formed. -/
def gives (op : Op) : Option Given :=
    match op.asks with
    | .error _ => none
    | .ok g =>
        match compileAll g.include_, compileAll g.exclude with
        | .ok _, .ok _ => some g
        | _, _ => none

end Op

/-- The settings with what was given, the patterns being compiled already. -/
def adding (s : Settings) (g : Given) (included excluded : List Glob) : Settings where
  include_ := s.include_ ++ included
  exclude := s.exclude ++ excluded
  ignoreHidden := g.ignoreHidden.getD s.ignoreHidden
  ignoreSystem := g.ignoreSystem.getD s.ignoreSystem
  followLinks := g.followLinks.getD s.followLinks
  maxDepth := g.maxDepth.getD s.maxDepth

theorem compileAll_one (pattern : String) :
    compileAll [pattern] = (compile pattern).map fun g => [g] := by
  cases compiled : compile pattern <;>
    simp [compileAll, compiled, Except.map, bind, Except.bind]

namespace Edit

theorem run_bind_ok {α : Type} {x : Except Failure α} {a : α} (h : x = .ok a)
    (next : α → Edit) (s : Settings) :
    ((liftM x : ExceptT Failure (StateM Settings) α) >>= next).run s = (next a).run s := by
  subst h
  rfl

theorem run_bind_error {α : Type} {x : Except Failure α} {f : Failure} (h : x = .error f)
    (next : α → Edit) (s : Settings) :
    ((liftM x : ExceptT Failure (StateM Settings) α) >>= next).run s = (.error f, s) := by
  subst h
  rfl

theorem run_modify (write : Settings → Settings) (s : Settings) :
    (modify write : Edit).run s = (.ok (), write s) :=
  rfl

theorem run_modify_bind (write : Settings → Settings) (next : Unit → Edit) (s : Settings) :
    ((modify write : Edit) >>= next).run s = (next ()).run (write s) :=
  rfl

theorem run_writeGiven_bind {α : Type} (given : Option α) (write : Settings → α → Settings)
    (next : Unit → Edit) (s : Settings) :
    (writeGiven given write >>= next).run s = (next ()).run (given.elim s (write s)) := by
  cases given <;> rfl

/-- Options are written only once all their patterns are compiled. -/
theorem run_configure (o : Options) (s : Settings) :
    (∃ f, (configure o).run s = (.error f, s) ∧
      (compileAll (o.includePattern.getD []) = .error f ∨
        compileAll (o.excludePattern.getD []) = .error f)) ∨
    ∃ included excluded, compileAll (o.includePattern.getD []) = .ok included ∧
      compileAll (o.excludePattern.getD []) = .ok excluded ∧
      (configure o).run s = (.ok (), s.adding (.ofOptions o) included excluded) := by
  unfold configure
  cases isIncluded : compileAll (o.includePattern.getD []) with
  | error f => exact .inl ⟨f, run_bind_error rfl _ _, .inl rfl⟩
  | ok included =>
      cases isExcluded : compileAll (o.excludePattern.getD []) with
      | error f => exact .inl ⟨f, (run_bind_ok rfl _ _).trans (run_bind_error rfl _ _), .inr rfl⟩
      | ok excluded =>
          refine .inr ⟨included, excluded, rfl, rfl, ?_⟩
          rw [run_bind_ok rfl, run_bind_ok rfl, run_writeGiven_bind, run_writeGiven_bind,
            run_writeGiven_bind, run_writeGiven_bind, run_modify_bind, run_modify]
          cases hidden : o.includeHidden <;> cases system : o.includeSystem <;>
            cases links : o.followLinks <;> cases depth : o.maxDepth <;>
            simp [adding, Given.ofOptions, hidden, system, links, depth]

end Edit

namespace Op

/-- How a call ends. -/
inductive Ends (op : Op) (s : Settings) : Prop
  | fails {f : Failure} (nothing : op.gives = none) (run : op.edit.run s = (.error f, s))
  | succeeds {g : Given} {included excluded : List Glob} (given : op.gives = some g)
      (include_ : compileAll g.include_ = .ok included)
      (exclude : compileAll g.exclude = .ok excluded)
      (run : op.edit.run s = (.ok (), s.adding g included excluded))

variable {op : Op} {s : Settings}

theorem gives_of_fails {f : Failure} (h : op.asks = .error f) : op.gives = none := by
  rw [gives, h]

theorem gives_of_compiles (op : Op) {g : Given} {included excluded : List Glob} (asks : op.asks = .ok g)
    (include_ : compileAll g.include_ = .ok included)
    (exclude : compileAll g.exclude = .ok excluded) : op.gives = some g := by
  simp only [gives, asks, include_, exclude]

theorem asks_of_gives {g : Given} (h : op.gives = some g) : op.asks = .ok g := by
  unfold gives at h
  split at h
  · cases h
  next g' asks =>
    split at h
    · cases h
      exact asks
    · cases h

theorem gives_of_malformed {g : Given} {f : Failure} (asks : op.asks = .ok g)
    (h : compileAll g.include_ = .error f ∨ compileAll g.exclude = .error f) :
    op.gives = none := by
  simp only [gives, asks]
  rcases h with h | h
  · rw [h]
  · rw [h]
    cases compileAll g.include_ <;> rfl

/-- A call that only writes. -/
theorem ends_of_writes (op : Op) {g : Given} (asks : op.asks = .ok g) (none : g.include_ = [])
    (none' : g.exclude = []) (run : op.edit.run s = (.ok (), s.adding g [] [])) : op.Ends s :=
  .succeeds (op.gives_of_compiles asks (by rw [none]; rfl) (by rw [none']; rfl))
    (by rw [none]; rfl) (by rw [none']; rfl) run

theorem ends_of_options (op : Op) {o : Options} (asks : op.asks = .ok (.ofOptions o))
    (run : op.edit.run s = (Edit.configure o).run s) : op.Ends s := by
  rcases Edit.run_configure o s with ⟨f, same, bad⟩ | ⟨included, excluded, inc, exc, written⟩
  · exact .fails (gives_of_malformed asks bad) (run.trans same)
  · exact .succeeds (op.gives_of_compiles asks inc exc) inc exc (run.trans written)

/-- Every call ends in one of the two ways, whatever the settings are. -/
theorem ends (op : Op) (s : Settings) : op.Ends s := by
  cases op with
  | configure given =>
      cases read : Options.ofGiven given with
      | error e =>
          have asks : (configure given).asks = .error (.config e) := by
            rw [Op.asks, read]
            rfl
          refine .fails (gives_of_fails asks) (Edit.run_bind_error (f := .config e) ?_ _ _)
          rw [read]
          rfl
      | ok o =>
          have asks : (configure given).asks = .ok (.ofOptions o) := by
            rw [Op.asks, read]
            rfl
          refine ends_of_options _ asks (Edit.run_bind_ok ?_ _ _)
          rw [read]
          rfl
  | apply o => exact ends_of_options (.apply o) rfl rfl
  | include_ pattern =>
      have all := compileAll_one pattern
      cases compiled : compile pattern with
      | error f =>
          rw [compiled] at all
          exact .fails (gives_of_malformed (f := f) rfl (.inl all))
            (Edit.run_bind_error compiled _ _)
      | ok g =>
          rw [compiled] at all
          refine .succeeds (Op.include_ pattern |>.gives_of_compiles rfl all rfl) all rfl
            ((Edit.run_bind_ok compiled _ _).trans ?_)
          simp [Edit.run_modify, adding]
  | exclude pattern =>
      have all := compileAll_one pattern
      cases compiled : compile pattern with
      | error f =>
          rw [compiled] at all
          exact .fails (gives_of_malformed (f := f) rfl (.inr all))
            (Edit.run_bind_error compiled _ _)
      | ok g =>
          rw [compiled] at all
          refine .succeeds (Op.exclude pattern |>.gives_of_compiles rfl rfl all) rfl all
            ((Edit.run_bind_ok compiled _ _).trans ?_)
          simp [Edit.run_modify, adding]
  | ignoreHidden d =>
      refine ends_of_writes (.ignoreHidden d) rfl rfl rfl ?_
      simp [edit, Edit.run_modify, adding, setIgnoreHidden]
  | ignoreSystem d =>
      refine ends_of_writes (.ignoreSystem d) rfl rfl rfl ?_
      simp [edit, Edit.run_modify, adding, setIgnoreSystem]
  | followLinks d =>
      refine ends_of_writes (.followLinks d) rfl rfl rfl ?_
      simp [edit, Edit.run_modify, adding, setFollowLinks]
  | maxDepth d =>
      cases read : readDepth d with
      | error fault =>
          have asks : (maxDepth d).asks =
              .error (.config (.option OptionName.maxDepth.key fault)) := by
            rw [Op.asks, read]
            rfl
          exact .fails (gives_of_fails asks)
            (Edit.run_bind_error (x := (readDepth d).mapError _) (by rw [read]; rfl) _ _)
      | ok limit =>
          have asks : (maxDepth d).asks = .ok { maxDepth := some limit } := by
            rw [Op.asks, read]
            rfl
          refine ends_of_writes _ asks rfl rfl
            ((Edit.run_bind_ok (x := (readDepth d).mapError _) (by rw [read]; rfl) _ _).trans ?_)
          simp [Edit.run_modify, adding]

/-- A call that fails, for whatever reason, changes no setting at all. -/
theorem after_of_fails (s : Settings) (h : op.gives = none) : op.edit.after s = s := by
  cases op.ends s with
  | fails _ run => rw [Edit.after, run]
  | succeeds given => rw [h] at given; cases given

theorem result_ok (op : Op) {s' : Settings} (h : op.edit.result s = .ok s') :
    ∃ g included excluded, op.gives = some g ∧ compileAll g.include_ = .ok included ∧
      compileAll g.exclude = .ok excluded ∧ s' = s.adding g included excluded := by
  cases op.ends s with
  | fails _ run => simp [Edit.result, run, Except.map] at h
  | succeeds given inc exc run =>
      simp only [Edit.result, Edit.after, run, Except.map] at h
      cases h
      exact ⟨_, _, _, given, inc, exc, rfl⟩

end Op

theorem compile_pattern {pattern : String} {g : Glob} (h : compile pattern = .ok g) :
    g.pattern = pattern ∧ Glob.compile g.pattern = .ok g := by
  cases compiled : Glob.compile pattern with
  | error e =>
      rw [compile, compiled] at h
      cases h
  | ok g' =>
      rw [compile, compiled] at h
      cases h
      have same : g.pattern = pattern := by
        unfold Glob.compile at compiled
        split at compiled
        · cases compiled
        · obtain ⟨lines, -, rest⟩ := ok_of_bind compiled
          obtain ⟨alternatives, -, last⟩ := ok_of_bind rest
          cases last
          rfl
      exact ⟨same, same ▸ compiled⟩

theorem compileAll_patterns {patterns : List String} {globs : List Glob}
    (h : compileAll patterns = .ok globs) :
    globs.map (·.pattern) = patterns ∧ ∀ g ∈ globs, Glob.compile g.pattern = .ok g := by
  induction patterns generalizing globs with
  | nil =>
      cases h
      exact ⟨rfl, nofun⟩
  | cons pattern patterns ih =>
      obtain ⟨g, compiled, rest⟩ := ok_of_bind h
      obtain ⟨more, others, last⟩ := ok_of_bind rest
      cases last
      have one := compile_pattern compiled
      have all := ih others
      exact ⟨by rw [List.map_cons, one.1, all.1], List.forall_mem_cons.mpr ⟨one.2, all.2⟩⟩

/-- All that the calls have given, in order. -/
def givenBy (ops : List Op) : List Given :=
    ops.filterMap Op.gives

/-- The last value that the calls have given to a setting. -/
def lastGiven {α : Type} (field : Given → Option α) (ops : List Op) : Option α :=
    ((givenBy ops).filterMap field).getLast?

/-- The settings are the fold of the calls: what was given last, and all patterns in order. -/
structure IsFold (ops : List Op) (s : Settings) : Prop where
  include_ : s.include_.map (·.pattern) = (givenBy ops).flatMap (·.include_)
  exclude : s.exclude.map (·.pattern) = (givenBy ops).flatMap (·.exclude)
  compiled : ∀ g ∈ s.include_ ++ s.exclude, Glob.compile g.pattern = .ok g
  ignoreHidden : s.ignoreHidden = (lastGiven (·.ignoreHidden) ops).getD true
  ignoreSystem : s.ignoreSystem = (lastGiven (·.ignoreSystem) ops).getD true
  followLinks : s.followLinks = (lastGiven (·.followLinks) ops).getD false
  maxDepth : s.maxDepth = (lastGiven (·.maxDepth) ops).getD none

theorem isFold_usual : usual.IsFold [] where
  include_ := rfl
  exclude := rfl
  compiled := nofun
  ignoreHidden := rfl
  ignoreSystem := rfl
  followLinks := rfl
  maxDepth := rfl

theorem givenBy_fails {ops : List Op} {op : Op} (h : op.gives = none) :
    givenBy (ops ++ [op]) = givenBy ops := by
  simp [givenBy, h]

theorem givenBy_succeeds {ops : List Op} {op : Op} {g : Given} (h : op.gives = some g) :
    givenBy (ops ++ [op]) = givenBy ops ++ [g] := by
  simp [givenBy, h]

theorem lastGiven_succeeds {α : Type} {ops : List Op} {op : Op} {g : Given}
    (h : op.gives = some g) (field : Given → Option α) (usual : α) :
    (lastGiven field (ops ++ [op])).getD usual =
      (field g).getD ((lastGiven field ops).getD usual) := by
  rw [lastGiven, givenBy_succeeds h, List.filterMap_append]
  cases value : field g <;> simp [value, lastGiven]

theorem IsFold.step {ops : List Op} {s : Settings} (h : s.IsFold ops) (op : Op) :
    (op.edit.after s).IsFold (ops ++ [op]) := by
  cases op.ends s with
  | fails nothing run =>
      rw [op.after_of_fails s nothing]
      have same : ∀ {α : Type} (field : Given → Option α),
          lastGiven field (ops ++ [op]) = lastGiven field ops := by
        intro α field
        rw [lastGiven, givenBy_fails nothing, lastGiven]
      refine ⟨?_, ?_, h.compiled, ?_, ?_, ?_, ?_⟩
      · rw [givenBy_fails nothing]; exact h.include_
      · rw [givenBy_fails nothing]; exact h.exclude
      · rw [same]; exact h.ignoreHidden
      · rw [same]; exact h.ignoreSystem
      · rw [same]; exact h.followLinks
      · rw [same]; exact h.maxDepth
  | @succeeds g included excluded given inc exc run =>
      have after : op.edit.after s = s.adding g included excluded := by rw [Edit.after, run]
      have patterns := compileAll_patterns inc
      have patterns' := compileAll_patterns exc
      rw [after]
      refine ⟨?_, ?_, ?_, ?_, ?_, ?_, ?_⟩
      · simp [adding, givenBy_succeeds given, h.include_, patterns.1]
      · simp [adding, givenBy_succeeds given, h.exclude, patterns'.1]
      · intro glob member
        simp only [adding, List.mem_append] at member
        rcases member with (old | new) | (old | new)
        · exact h.compiled glob (List.mem_append_left _ old)
        · exact patterns.2 glob new
        · exact h.compiled glob (List.mem_append_right _ old)
        · exact patterns'.2 glob new
      · rw [lastGiven_succeeds given, ← h.ignoreHidden]; rfl
      · rw [lastGiven_succeeds given, ← h.ignoreSystem]; rfl
      · rw [lastGiven_succeeds given, ← h.followLinks]; rfl
      · rw [lastGiven_succeeds given, ← h.maxDepth]; rfl

end Settings
end FileCensus
