import FileCensus.Proofs.Changes

/-!
The two ways to set the depth limit: by itself, and as an option among others. For integers and for
null they come to the same. They part where a switch is given: options take it for the number that
it counts as, while the limit by itself is an integer or nothing.
-/

namespace FileCensus

/-- A depth limit as it is given: an integer of any size, or null for no limit. -/
def Datum.ofDepth : Option Int → Datum
  | none => .null
  | some n => .int n

namespace Settings

/-- How a request for a depth limit ends. Nothing but the limit is ever changed, and a refusal blames
the option of that name. -/
inductive Limits (s : Settings) (e : Edit) : Option (Option Nat) → Prop
  | sets {limit : Option Nat} (run : e.run s = (.ok (), { s with maxDepth := limit })) :
      Limits s e (some limit)
  | refuses {fault : OptionFault}
      (run : e.run s = (.error (.config (.option OptionName.maxDepth.key fault)), s)) :
      Limits s e none

/-- A depth limit as an option, with no other option beside it. -/
def Edit.configureDepth (d : Datum) : Edit :=
    configureGiven [(OptionName.maxDepth.key, d)]

variable {s : Settings} {d : Datum} {limit : Option Nat} {fault : OptionFault}

theorem limits_setMaxDepth_ok (h : readDepth d = .ok limit) :
    Limits s (Edit.setMaxDepth d) (some limit) :=
  .sets (Edit.run_bind_ok (a := limit) (by rw [h]; rfl) _ _)

theorem limits_setMaxDepth_error (h : readDepth d = .error fault) :
    Limits s (Edit.setMaxDepth d) none :=
  .refuses (Edit.run_bind_error (by rw [h]; rfl) _ _)

/-- What the option of the limit says where it stands alone. -/
theorem ofGiven_depth (d : Datum) :
    Options.ofGiven [(OptionName.maxDepth.key, d)] =
      match d.toDepth with
      | .ok limit => .ok { Options.none with maxDepth := some limit }
      | .error fault => .error (.option OptionName.maxDepth.key fault) := by
  have found : Options.lookup [(OptionName.maxDepth.key, d)] .maxDepth =
      some (OptionName.maxDepth.key, d) := rfl
  have last : Options.readWith [(OptionName.maxDepth.key, d)] .maxDepth
        (Options.whole Datum.toDepth) =
      match d.toDepth with
      | .ok limit => .ok (some limit)
      | .error fault => .error (.option OptionName.maxDepth.key fault) := by
    simp only [Options.readWith, found, Options.whole]
    cases d.toDepth <;> rfl
  -- the keys of the options before it are not there
  change (Options.readWith [(OptionName.maxDepth.key, d)] .maxDepth
    (Options.whole Datum.toDepth) >>= fun maxDepth =>
      .ok { Options.none with maxDepth := maxDepth }) = _
  rw [last]
  cases d.toDepth <;> rfl

theorem limits_configureDepth_ok (h : d.toDepth = .ok limit) :
    Limits s (Edit.configureDepth d) (some limit) := by
  let given : Options := { Options.none with maxDepth := some limit }
  refine .sets ((Edit.run_bind_ok (a := given) ?_ _ _).trans ?_)
  · rw [ofGiven_depth, h]
    rfl
  · rcases Edit.run_configure { Options.none with maxDepth := some limit } s with
      ⟨f, -, bad⟩ | ⟨included, excluded, inc, exc, written⟩
    · rcases bad with bad | bad <;> cases bad
    · cases inc
      cases exc
      rw [written]
      simp [adding, Given.ofOptions, Options.none]

theorem limits_configureDepth_error (h : d.toDepth = .error fault) :
    Limits s (Edit.configureDepth d) none :=
  .refuses (Edit.run_bind_error (by rw [ofGiven_depth, h]; rfl) _ _)

/-- The limit that an integer or null stands for, if it stands for one. -/
def limitOf : Option Int → Option (Option Nat)
  | none => some none
  | some n => if n < 0 then none else some (some n.toNat)

theorem limits_setMaxDepth (s : Settings) (v : Option Int) :
    Limits s (Edit.setMaxDepth (.ofDepth v)) (limitOf v) := by
  cases v with
  | none => exact limits_setMaxDepth_ok rfl
  | some n =>
      by_cases negative : n < 0
      · rw [limitOf, if_pos negative]
        exact limits_setMaxDepth_error (if_pos negative)
      · rw [limitOf, if_neg negative]
        exact limits_setMaxDepth_ok (if_neg negative)

theorem limits_configureDepth (s : Settings) (v : Option Int) :
    Limits s (Edit.configureDepth (.ofDepth v)) (limitOf v) := by
  cases v with
  | none => exact limits_configureDepth_ok rfl
  | some n =>
      by_cases negative : n < 0
      · rw [limitOf, if_pos negative]
        exact limits_configureDepth_error (if_pos negative)
      · rw [limitOf, if_neg negative]
        exact limits_configureDepth_ok (if_neg negative)

theorem Limits.result_ok {e : Edit} (h : Limits s e (some limit)) :
    e.result s = .ok { s with maxDepth := limit } := by
  cases h with
  | sets run => simp [Edit.result, Edit.after, run, Except.map]

theorem Limits.result_error {e : Edit} (h : Limits s e none) :
    ∃ fault, e.result s = .error (.config (.option OptionName.maxDepth.key fault)) := by
  cases h with
  | @refuses fault run => exact ⟨fault, by simp [Edit.result, run, Except.map]⟩

/-- The configuration is refused, and the option of the depth limit is blamed. -/
structure BlamesDepth (f : Failure) : Prop where
  kind : f.kind = "ScanConfigError"
  option : f.option? = some "maxDepth"

/-- Whether a value is given by itself or as an option makes no difference: both ways set the same
limit and nothing else, or both blame the option. -/
structure WaysAgree (s : Settings) (d : Datum) : Prop where
  succeed : (∃ s', s.setMaxDepth d = .ok s') ↔
    ∃ s', s.configureGiven [(OptionName.maxDepth.key, d)] = .ok s'
  itself : ∀ f, s.setMaxDepth d = .error f → BlamesDepth f
  option : ∀ f, s.configureGiven [(OptionName.maxDepth.key, d)] = .error f → BlamesDepth f
  same : ∀ s', s.setMaxDepth d = .ok s' →
    s.configureGiven [(OptionName.maxDepth.key, d)] = .ok s' ∧
      s' = { s with maxDepth := s'.maxDepth }

theorem waysAgree_of_limits {verdict : Option (Option Nat)}
    (itself : Limits s (Edit.setMaxDepth d) verdict)
    (option : Limits s (Edit.configureDepth d) verdict) : WaysAgree s d := by
  cases verdict with
  | some limit =>
      have set : s.setMaxDepth d = .ok { s with maxDepth := limit } := itself.result_ok
      have set' : s.configureGiven [(OptionName.maxDepth.key, d)] =
          .ok { s with maxDepth := limit } := option.result_ok
      constructor
      · simp [set, set']
      · simp [set]
      · simp [set']
      · intro s' given
        cases set.symm.trans given
        exact ⟨set', rfl⟩
  | none =>
      obtain ⟨fault, refused⟩ := itself.result_error
      obtain ⟨fault', refused'⟩ := option.result_error
      have refused : s.setMaxDepth d = _ := refused
      have refused' : s.configureGiven [(OptionName.maxDepth.key, d)] = _ := refused'
      constructor
      · simp [refused, refused']
      · intro f answer
        cases refused.symm.trans answer
        exact ⟨rfl, rfl⟩
      · intro f answer
        cases refused'.symm.trans answer
        exact ⟨rfl, rfl⟩
      · simp [refused]

/-- For an integer of any size and for null the two ways agree, and the limit is the one that was
given. A switch is refused as a limit by itself, while options count it as one or zero. -/
theorem depth_ways_agree (s : Settings) (v : Option Int) (b : Bool) :
    WaysAgree s (.ofDepth v) ∧
      (s.setMaxDepth (.ofDepth v)).toOption = (limitOf v).map (fun l => { s with maxDepth := l }) ∧
      (∃ f, s.setMaxDepth (.bool b) = .error f ∧ BlamesDepth f) ∧
      s.configureGiven [(OptionName.maxDepth.key, .bool b)] =
        .ok { s with maxDepth := some b.toNat } := by
  have itself := limits_setMaxDepth s v
  refine ⟨waysAgree_of_limits itself (limits_configureDepth s v), ?_, ?_, ?_⟩
  · cases limit : limitOf v with
    | none =>
        rw [limit] at itself
        obtain ⟨fault, refused⟩ := itself.result_error
        rw [setMaxDepth, refused]
        rfl
    | some l =>
        rw [limit] at itself
        rw [setMaxDepth, itself.result_ok]
        rfl
  · have refused : Limits s (Edit.setMaxDepth (.bool b)) none := limits_setMaxDepth_error rfl
    obtain ⟨fault, refused⟩ := refused.result_error
    exact ⟨_, refused, rfl, rfl⟩
  · have set : Limits s (Edit.configureDepth (.bool b)) (some (some b.toNat)) :=
      limits_configureDepth_ok (by cases b <;> rfl)
    exact set.result_ok

/-- A switch sets a limit as an option and is refused by itself. -/
theorem switch_parts_ways : ¬ WaysAgree usual (.bool true) := by
  intro agree
  have option : usual.configureGiven [(OptionName.maxDepth.key, .bool true)] =
      .ok { usual with maxDepth := some 1 } := rfl
  have itself : usual.setMaxDepth (.bool true) =
      .error (.config (.option OptionName.maxDepth.key (.integerExpected "True"))) := rfl
  obtain ⟨s', set⟩ := agree.succeed.mpr ⟨_, option⟩
  cases itself.symm.trans set

end Settings
end FileCensus
