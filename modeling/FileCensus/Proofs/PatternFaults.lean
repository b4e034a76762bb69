import FileCensus.Proofs.Alternatives

/-!
Why a pattern is refused. A pattern has to be visible, its groups have to be closed, and every
escape in a line has to have something to escape; all this is reported as an error of the option.
A range of characters whose ends are reversed is found by another part, and is not.
-/

namespace FileCensus.Glob

/-- The bracket expressions of a segment, in order. There is no answer if the escape at its end has
nothing to escape. -/
def brackets? : List Char → Option (List CharSet)
  | [] => some []
  | c :: rest =>
      if c == '\\' then
        match rest with
        | [] => none
        | _ :: rest => brackets? rest
      else if c == '[' then
        match _h : bracket? rest with
        | some (set, after) => (brackets? after).map (set :: ·)
        | none => brackets? rest
      else brackets? rest
termination_by cs => cs.length
decreasing_by
  all_goals simp only [List.length_cons]
  all_goals first
    | omega
    | exact Nat.lt_succ_of_lt (bracket?_length (by assumption))

/-- The bracket expressions of all parts of a line. -/
def bracketsOf {α : Type} (read : α → Option (List CharSet)) : List α → Option (List CharSet)
  | [] => some []
  | a :: rest => (read a).bind fun first => (bracketsOf read rest).map (first ++ ·)

/-- The sets that an expression tests characters with. -/
def sets (r : Regex) : List CharSet :=
    r.charTests.filterMap fun
      | .within s => some s
      | _ => none

section Sets

@[simp] theorem sets_empty : sets .empty = [] := rfl
@[simp] theorem sets_edge : sets .edge = [] := rfl
@[simp] theorem sets_within (s : CharSet) : sets (.one (.within s)) = [s] := rfl
@[simp] theorem sets_exactly (c : Char) : sets (.one (.exactly c)) = [] := rfl
@[simp] theorem sets_notSlash : sets (.one .notSlash) = [] := rfl
@[simp] theorem sets_notNewline : sets (.one .notNewline) = [] := rfl
@[simp] theorem sets_manyNotSlash : sets (.many .notSlash) = [] := rfl
@[simp] theorem sets_manyNotNewline : sets (.many .notNewline) = [] := rfl

@[simp] theorem sets_slash : sets slash = [] := rfl

@[simp] theorem sets_seq (a b : Regex) : sets (.seq a b) = sets a ++ sets b := by
  simp [sets, Regex.charTests]

@[simp] theorem sets_either (a b : Regex) : sets (.either a b) = sets a ++ sets b := by
  simp [sets, Regex.charTests]

theorem reversedRange?_eq (r : Regex) :
    reversedRange? r = (sets r).findSome? CharSet.reversed? := by
  unfold reversedRange? sets
  induction r.charTests with
  | nil => rfl
  | cons test tests ih =>
      cases test with
      | within s => cases found : s.reversed? <;> simp [found, ih]
      | exactly c => simpa using ih
      | notSlash => simpa using ih
      | notNewline => simpa using ih

end Sets

theorem brackets?_escape (c : Char) (rest : List Char) :
    brackets? ('\\' :: c :: rest) = brackets? rest := by
  rw [brackets?, if_pos (by decide)]

theorem brackets?_bracket {rest after : List Char} {set : CharSet}
    (h : bracket? rest = some (set, after)) :
    brackets? ('[' :: rest) = (brackets? after).map (set :: ·) := by
  rw [brackets?.eq_def]
  simp only [Char.reduceBEq, Bool.false_eq_true, ↓reduceIte]
  split
  · next same => cases h.symm.trans same; rfl
  · next other => cases h.symm.trans other

theorem brackets?_unclosed {rest : List Char} (h : bracket? rest = none) :
    brackets? ('[' :: rest) = brackets? rest := by
  rw [brackets?.eq_def]
  simp only [Char.reduceBEq, Bool.false_eq_true, ↓reduceIte]
  split
  · next other => cases h.symm.trans other
  · rfl

theorem brackets?_plain {c : Char} (escape : c ≠ '\\') (bracket : c ≠ '[') (rest : List Char) :
    brackets? (c :: rest) = brackets? rest := by
  rw [brackets?.eq_def]
  simp [escape, bracket]

theorem sets_segmentRegex (cs : List Char) : (segmentRegex? cs).map sets = brackets? cs := by
  fun_induction segmentRegex? cs with
  | case1 => simp [brackets?]
  | case2 => simp_all [brackets?]
  | case3 c escape d rest ih =>
      cases beq_iff_eq.mp escape
      simp [brackets?_escape, ← ih, Function.comp_def]
  | case4 c rest escape star ih =>
      cases beq_iff_eq.mp star
      simp [brackets?_plain, ← ih, Function.comp_def]
  | case5 c rest escape star one ih =>
      cases beq_iff_eq.mp one
      simp [brackets?_plain, ← ih, Function.comp_def]
  | case6 c rest escape star one opening set after found ih =>
      cases beq_iff_eq.mp opening
      simp [brackets?_bracket found, ← ih, Function.comp_def]
  | case7 c rest escape star one opening unclosed ih =>
      cases beq_iff_eq.mp opening
      simp [brackets?_unclosed unclosed, ← ih, Function.comp_def]
  | case8 c rest escape star one opening ih =>
      simp only [beq_iff_eq] at escape opening
      simp [brackets?_plain escape opening, ← ih, Function.comp_def]

/-- The bracket expressions of a segment in its normal form. -/
def Segment.brackets? : Segment → Option (List CharSet)
  | .name cs => Glob.brackets? cs
  | .spanning | .anyName => some []

theorem sets_nameRegex (s : Segment) : (nameRegex? s).map sets = s.brackets? := by
  cases s with
  | name cs => exact sets_segmentRegex cs
  | spanning | anyName => simp [nameRegex?, Segment.brackets?, someOfName]

theorem sets_ending (s : Segment) : sets (ending s) = [] := by
  cases s <;> simp [ending, Regex.optional, slash]

theorem brackets?_ofChars (cs : List Char) : (Segment.ofChars cs).brackets? = brackets? cs := by
  unfold Segment.ofChars
  split
  · next spanning =>
    cases beq_iff_eq.mp spanning
    simp [Segment.brackets?, brackets?]
  · split
    · next any =>
      cases beq_iff_eq.mp any
      simp [Segment.brackets?, brackets?]
    · rfl

theorem bracketsOf_map {α β : Type} (f : α → β) (read : β → Option (List CharSet)) (as : List α) :
    bracketsOf read (as.map f) = bracketsOf (fun a => read (f a)) as := by
  induction as with
  | nil => rfl
  | cons a as ih => simp [bracketsOf, ih]

theorem bracketsOf_collapse (segments : List Segment) :
    bracketsOf Segment.brackets? (collapse segments) = bracketsOf Segment.brackets? segments := by
  fun_induction collapse segments with
  | case1 a b rest both ih =>
      obtain ⟨rfl, rfl⟩ := both
      rw [ih]
      simp [bracketsOf, Segment.brackets?]
  | case2 a b rest other ih => simp only [bracketsOf, ih]
  | case3 => rfl

theorem bracketsOf_openEnd (pieces : List (List Char)) :
    bracketsOf brackets? (openEnd pieces) = bracketsOf brackets? pieces := by
  fun_induction openEnd pieces with
  | case1 => rfl
  | case2 p empty =>
      cases List.isEmpty_iff.mp empty
      simp [bracketsOf, brackets?]
  | case3 => rfl
  | case4 p rest _ ih => rw [bracketsOf, ih, bracketsOf]

theorem bracketsOf_anchorPieces (pieces : List (List Char)) :
    bracketsOf brackets? (anchorPieces pieces) = bracketsOf brackets? pieces := by
  unfold anchorPieces
  simp only
  split
  · simp [bracketsOf, brackets?]
  · split <;> simp [bracketsOf, brackets?]
  · split <;> simp [bracketsOf, brackets?]
  · rfl

/-- The normal form of a line has the bracket expressions of the line. -/
theorem bracketsOf_segmentsOf (pieces : List (List Char)) :
    bracketsOf Segment.brackets? (segmentsOf pieces) = bracketsOf brackets? pieces := by
  rw [segmentsOf, bracketsOf_collapse, bracketsOf_map]
  simp only [brackets?_ofChars]
  rw [bracketsOf_openEnd, bracketsOf_anchorPieces]

theorem sets_restRegex (joined : Bool) (segments : List Segment) :
    (restRegex? joined segments).map sets = bracketsOf Segment.brackets? segments := by
  fun_induction restRegex? joined segments with
  | case1 => rfl
  | case2 => rfl
  | case3 joined rest notLast ih =>
      simp [bracketsOf, ← ih, Segment.brackets?, Function.comp_def, Regex.optional, someOnLine]
  | case4 joined s rest _ _ ih =>
      have joint : sets (if joined then slash else .empty) = [] := by cases joined <;> rfl
      rw [bracketsOf, ← sets_nameRegex]
      cases nameRegex? s with
      | none => rfl
      | some r =>
          cases rest with
          | nil => simp [bracketsOf, sets_ending, joint]
          | cons t rest =>
              rw [← ih]
              cases restRegex? true (t :: rest) <;> simp [joint]

theorem sets_compileSegments (directory : Bool) (segments : List Segment) :
    (compileSegments? directory segments).map (fun c => sets c.regex) =
      bracketsOf Segment.brackets? segments := by
  unfold compileSegments?
  split
  · cases directory <;> rfl
  · rfl
  · rfl
  · next rest _ _ _ =>
    simp [bracketsOf, Segment.brackets?, ← sets_restRegex false rest, Function.comp_def,
      Compiled.regex, Regex.optional, someOnLine]
  · simp [← sets_restRegex false, Function.comp_def, Compiled.regex]

/-- The bracket expressions that the line of an alternative is written with. -/
def writtenSets? (alternative : String) : Option (List CharSet) :=
    bracketsOf brackets? (Path.cut (stripLine (lineOf alternative)))

/-- Every escape has something to escape, and no range is reversed. -/
def IsSound (alternative : String) : Prop :=
    ∃ sets, writtenSets? alternative = some sets ∧ sets.findSome? CharSet.reversed? = none

section Bodies

variable {pattern : String} {line body : List Char} {e : GlobError}

theorem compileBody_of_dangling (h : bracketsOf brackets? (Path.cut body) = none) :
    compileBody pattern line body = .error (.danglingEscape pattern (String.ofList line)) := by
  rw [← bracketsOf_segmentsOf, ← sets_compileSegments (directoryOnly (Path.cut body)),
    Option.map_eq_none_iff] at h
  simp only [compileBody, h]

theorem compileBody_of_sets {written : List CharSet}
    (h : bracketsOf brackets? (Path.cut body) = some written) :
    (∃ c, compileBody pattern line body = .ok c) ∧ written.findSome? CharSet.reversed? = none ∨
    ∃ low high, compileBody pattern line body = .error (.reversedRange low high) ∧
      written.findSome? CharSet.reversed? = some (low, high) := by
  rw [← bracketsOf_segmentsOf, ← sets_compileSegments (directoryOnly (Path.cut body)),
    Option.map_eq_some_iff] at h
  obtain ⟨c, compiled, rfl⟩ := h
  rw [← reversedRange?_eq]
  cases reversed : reversedRange? c.regex with
  | none => exact .inl ⟨⟨c, compileBody_ok_iff.mpr ⟨compiled, reversed⟩⟩, rfl⟩
  | some range => exact .inr ⟨range.1, range.2, by simp [compileBody, compiled, reversed], rfl⟩

end Bodies

section Lines

variable {pattern alternative : String}

theorem writtenSets?_of_blank (blank : Text.allBlank alternative = true) :
    writtenSets? alternative = some [] := by
  rw [writtenSets?, (lineOf_blank_iff alternative).mpr blank]
  simp [Path.cut, bracketsOf, brackets?]

theorem compileLine_of_sound (pattern : String) (h : IsSound alternative) :
    ∃ rule, compileLine pattern (lineOf alternative) = .ok rule := by
  cases blank : Text.allBlank alternative with
  | true => exact ⟨none, compileLine_of_blank pattern blank⟩
  | false =>
      obtain ⟨written, spelled, ordered⟩ := h
      rw [compileLine_of_visible pattern blank]
      rcases compileBody_of_sets spelled with ⟨⟨c, compiled⟩, -⟩ | ⟨low, high, -, reversed⟩
      · exact ⟨some ⟨true, c⟩, by rw [compiled]; rfl⟩
      · cases ordered.symm.trans reversed

theorem compileLine_of_dangling (pattern : String) (h : writtenSets? alternative = none) :
    compileLine pattern (lineOf alternative) =
      .error (.danglingEscape pattern (String.ofList (lineOf alternative))) := by
  cases blank : Text.allBlank alternative with
  | true => cases h.symm.trans (writtenSets?_of_blank blank)
  | false =>
      rw [compileLine_of_visible pattern blank, compileBody_of_dangling h]
      rfl

theorem compileLine_of_reversed (pattern : String) {written : List CharSet} {low high : Char}
    (spelled : writtenSets? alternative = some written)
    (reversed : written.findSome? CharSet.reversed? = some (low, high)) :
    compileLine pattern (lineOf alternative) = .error (.reversedRange low high) := by
  cases blank : Text.allBlank alternative with
  | true =>
      cases spelled.symm.trans (writtenSets?_of_blank blank)
      cases reversed
  | false =>
      rw [compileLine_of_visible pattern blank]
      rcases compileBody_of_sets spelled with ⟨-, ordered⟩ | ⟨low', high', refused, same⟩
      · cases reversed.symm.trans ordered
      · cases reversed.symm.trans same
        rw [refused]
        rfl

/-- The first line that is not sound decides how the whole fails. -/
theorem compileLines_of_unsound {before after : List String} {e : GlobError}
    (sound : ∀ b ∈ before, IsSound b)
    (refused : compileLine pattern (lineOf alternative) = .error e) :
    compileLines pattern ((before ++ alternative :: after).map lineOf) = .error e := by
  induction before with
  | nil => simp [compileLines, refused, bind, Except.bind]
  | cons b before ih =>
      obtain ⟨first, others⟩ := List.forall_mem_cons.mp sound
      obtain ⟨rule, line⟩ := compileLine_of_sound pattern first
      simp only [List.cons_append, List.map_cons, compileLines, line, ih others]
      rfl

end Lines

theorem exists_first_unsound {alternatives : List String} (h : ¬ ∀ a ∈ alternatives, IsSound a) :
    ∃ before faulty after, alternatives = before ++ faulty :: after ∧
      (∀ b ∈ before, IsSound b) ∧ ¬ IsSound faulty := by
  induction alternatives with
  | nil => exact absurd nofun h
  | cons a alternatives ih =>
      by_cases sound : IsSound a
      · obtain ⟨before, faulty, after, rfl, earlier, unsound⟩ := ih fun others =>
          h (List.forall_mem_cons.mpr ⟨sound, others⟩)
        exact ⟨a :: before, faulty, after, rfl, List.forall_mem_cons.mpr ⟨sound, earlier⟩, unsound⟩
      · exact ⟨[], a, alternatives, rfl, nofun, sound⟩

/-- A pattern that makes a glob. -/
def IsWellFormed (pattern : String) : Prop :=
    Text.allBlank pattern = false ∧
      ∃ alternatives, expandBraces pattern = .ok alternatives ∧ ∀ a ∈ alternatives, IsSound a

/-- In the first alternative that is not sound every escape has something to escape, but there is a
range from `low` down to `high`, and it is the first that is reversed. -/
def Reverses (pattern : String) (low high : Char) : Prop :=
    Text.allBlank pattern = false ∧
      ∃ before faulty after written, expandBraces pattern = .ok (before ++ faulty :: after) ∧
        (∀ b ∈ before, IsSound b) ∧ writtenSets? faulty = some written ∧
        written.findSome? CharSet.reversed? = some (low, high)

section Compile

variable {pattern : String}

theorem compile_of_lines {alternatives : List String} (nonblank : Text.allBlank pattern = false)
    (expanded : expandBraces pattern = .ok alternatives) :
    compile pattern =
      (compileLines pattern (alternatives.map lineOf)).map fun rules => ⟨pattern, rules⟩ := by
  cases lines : compileLines pattern (alternatives.map lineOf) <;>
    simp [compile, nonblank, expanded, lines, bind, Except.bind, Except.map]

theorem compile_of_wellFormed (h : IsWellFormed pattern) : ∃ g, compile pattern = .ok g := by
  obtain ⟨nonblank, alternatives, expanded, sound⟩ := h
  obtain ⟨rules, lines⟩ := compileLines_of_each fun a member =>
    compileLine_of_sound pattern (sound a member)
  exact ⟨⟨pattern, rules⟩, by rw [compile_of_lines nonblank expanded, lines]; rfl⟩

theorem compile_of_reverses {low high : Char} (h : Reverses pattern low high) :
    compile pattern = .error (.reversedRange low high) := by
  obtain ⟨nonblank, before, faulty, after, written, expanded, sound, spelled, reversed⟩ := h
  rw [compile_of_lines nonblank expanded,
    compileLines_of_unsound sound (compileLine_of_reversed pattern spelled reversed)]
  rfl

/-- What is refused otherwise is refused as a pattern. -/
theorem compile_refused (malformed : ¬ IsWellFormed pattern)
    (ordered : ∀ low high, ¬ Reverses pattern low high) :
    ∃ e, compile pattern = .error e ∧ e.isRefusal = true := by
  cases blank : Text.allBlank pattern with
  | true => exact ⟨.blank pattern, by simp [compile, blank, bind, Except.bind], rfl⟩
  | false =>
      rcases expandBraces_cases pattern with ⟨stretches, cut⟩ | ⟨-, e, refused, blames⟩
      · have expanded := expandBraces_of_cuts cut
        obtain ⟨before, faulty, after, all, sound, unsound⟩ := exists_first_unsound fun sound =>
          malformed ⟨blank, _, expanded, sound⟩
        rw [all] at expanded
        cases spelled : writtenSets? faulty with
        | none =>
            refine ⟨.danglingEscape pattern (String.ofList (lineOf faulty)), ?_, rfl⟩
            rw [compile_of_lines blank expanded,
              compileLines_of_unsound sound (compileLine_of_dangling pattern spelled)]
            rfl
        | some written =>
            cases reversed : written.findSome? CharSet.reversed? with
            | none => exact absurd ⟨written, spelled, reversed⟩ unsound
            | some range =>
                refine absurd ?_ (ordered range.1 range.2)
                exact ⟨blank, before, faulty, after, written, expanded, sound, spelled, reversed⟩
      · exact ⟨e, by simp [compile, blank, refused, bind, Except.bind], blames⟩

end Compile

/-- How an attempt to use a pattern ends. A pattern that is not well formed is an error of the
option; only a reversed range escapes as another kind of error. -/
structure EndsFor {α : Type} (pattern : String) (result : Except Failure α) : Prop where
  succeeds : IsWellFormed pattern → ∃ a, result = .ok a
  refused : ¬ IsWellFormed pattern → (∀ low high, ¬ Reverses pattern low high) →
    ∃ f, result = .error f ∧ f.kind = "ScanConfigError" ∧ f.option? = some "pattern"
  escapes : ∀ low high, Reverses pattern low high →
    result = .error (.glob (.reversedRange low high))

/-- What succeeds with the pattern and passes its error on ends as the pattern makes it end. -/
theorem endsFor_of_compile {α : Type} {pattern : String} {result : Except Failure α}
    (ok : ∀ g, compile pattern = .ok g → ∃ a, result = .ok a)
    (error : ∀ e, compile pattern = .error e → result = .error (.glob e)) :
    EndsFor pattern result where
  succeeds h := by
    obtain ⟨g, compiled⟩ := compile_of_wellFormed h
    exact ok g compiled
  refused malformed ordered := by
    obtain ⟨e, failed, blames⟩ := compile_refused malformed ordered
    exact ⟨.glob e, error e failed, by simp [Failure.kind, blames],
      by simp [Failure.option?, blames]⟩
  escapes low high h := error _ (compile_of_reverses h)

/-- The call offers the pattern to a scanner; what else it offers is in order. -/
inductive Offers (pattern : String) : Settings.Op → Prop
  | include_ : Offers pattern (.include_ pattern)
  | exclude : Offers pattern (.exclude pattern)
  | configure {given : Options.Given} {o : Options} {before after : List String}
      (read : Options.ofGiven given = .ok o)
      (patterns : o.includePattern.getD [] ++ o.excludePattern.getD [] = before ++ pattern :: after)
      (others : ∀ p ∈ before ++ after, IsWellFormed p) : Offers pattern (.configure given)

open Settings in
/-- Patterns are compiled up to the first that fails. -/
theorem compileAll_cases (patterns : List String) :
    (∃ globs, Settings.compileAll patterns = .ok globs ∧ ∀ p ∈ patterns, ∃ g, compile p = .ok g) ∨
    ∃ p ∈ patterns, ∃ e, compile p = .error e ∧
      Settings.compileAll patterns = .error (.glob e) := by
  induction patterns with
  | nil => exact .inl ⟨[], rfl, nofun⟩
  | cons p patterns ih =>
      cases first : compile p with
      | error e =>
          refine .inr ⟨p, List.mem_cons_self .., e, first, ?_⟩
          simp [compileAll, Settings.compile, first, Except.mapError, bind, Except.bind]
      | ok g =>
          rcases ih with ⟨globs, later, all⟩ | ⟨q, member, e, failed, later⟩
          · refine .inl ⟨g :: globs, ?_, List.forall_mem_cons.mpr ⟨⟨g, first⟩, all⟩⟩
            simp [compileAll, Settings.compile, first, later, Except.mapError, bind, Except.bind]
          · refine .inr ⟨q, List.mem_cons_of_mem p member, e, failed, ?_⟩
            simp [compileAll, Settings.compile, first, later, Except.mapError, bind, Except.bind]

theorem compiled_of_compileAll {patterns : List String} {globs : List Glob}
    (h : Settings.compileAll patterns = .ok globs) : ∀ p ∈ patterns, ∃ g, compile p = .ok g := by
  rcases compileAll_cases patterns with ⟨-, -, all⟩ | ⟨p, -, e, -, refused⟩
  · exact all
  · cases h.symm.trans refused

theorem failed_of_compileAll {patterns : List String} {f : Failure}
    (h : Settings.compileAll patterns = .error f) :
    ∃ p ∈ patterns, ∃ e, compile p = .error e ∧ f = .glob e := by
  rcases compileAll_cases patterns with ⟨globs, all, -⟩ | ⟨p, member, e, failed, refused⟩
  · cases h.symm.trans all
  · cases h.symm.trans refused
    exact ⟨p, member, e, failed, rfl⟩

/-- A call that offers the pattern ends as the pattern itself does, and changes nothing if it
fails. -/
theorem Offers.run {pattern : String} {op : Settings.Op} (h : Offers pattern op) (s : Settings) :
    (∃ g s', compile pattern = .ok g ∧ op.edit.run s = (.ok (), s')) ∨
      ∃ e, compile pattern = .error e ∧ op.edit.run s = (.error (.glob e), s) := by
  cases h with
  | include_ | exclude =>
      cases compiled : compile pattern with
      | ok g =>
          refine .inl ⟨g, _, rfl, Settings.Edit.run_bind_ok (a := g) ?_ _ _⟩
          rw [Settings.compile, compiled]
          rfl
      | error e =>
          refine .inr ⟨e, rfl, Settings.Edit.run_bind_error ?_ _ _⟩
          rw [Settings.compile, compiled]
          rfl
  | @configure given o before after read patterns others =>
      have runs : (Settings.Op.configure given).edit.run s = (Settings.Edit.configure o).run s :=
        Settings.Edit.run_bind_ok (by rw [read]; rfl) _ _
      rw [runs]
      rcases Settings.Edit.run_configure o s with ⟨f, fails, bad⟩ | ⟨inc, exc, hinc, hexc, written⟩
      · have faulty : ∃ p ∈ before ++ pattern :: after, ∃ e, compile p = .error e ∧
            f = .glob e := by
          rw [← patterns]
          rcases bad with bad | bad
          · obtain ⟨p, member, failed⟩ := failed_of_compileAll bad
            exact ⟨p, List.mem_append_left _ member, failed⟩
          · obtain ⟨p, member, failed⟩ := failed_of_compileAll bad
            exact ⟨p, List.mem_append_right _ member, failed⟩
        obtain ⟨p, member, e, failed, rfl⟩ := faulty
        have same : p = pattern := by
          by_contra different
          have sound := others p (by simpa [different] using member)
          obtain ⟨g, compiled⟩ := compile_of_wellFormed sound
          cases compiled.symm.trans failed
        exact .inr ⟨e, same ▸ failed, fails⟩
      · have all := List.forall_mem_append.mpr
          ⟨compiled_of_compileAll hinc, compiled_of_compileAll hexc⟩
        obtain ⟨g, compiled⟩ := all pattern (by simp [patterns])
        exact .inl ⟨g, _, compiled, written⟩

/-- How a pattern is dealt with wherever it is given: by itself, and in a call that offers it to a
scanner. Such a call keeps the settings if it fails. -/
structure IsReported (pattern : String) : Prop where
  compiled : EndsFor pattern (Settings.compile pattern)
  offered : ∀ op s, Offers pattern op → EndsFor pattern (op.edit.result s)
  kept : ∀ op s f, Offers pattern op → op.edit.result s = .error f → op.edit.after s = s

theorem pattern_reported (pattern : String) : IsReported pattern where
  compiled := by
    refine endsFor_of_compile (fun g compiled => ⟨g, ?_⟩) fun e failed => ?_
    · rw [Settings.compile, compiled]
      rfl
    · rw [Settings.compile, failed]
      rfl
  offered op s offers := by
    refine endsFor_of_compile (fun g compiled => ?_) fun e failed => ?_
    · rcases offers.run s with ⟨-, s', -, run⟩ | ⟨e, failed, -⟩
      · exact ⟨_, by rw [Settings.Edit.result, run]; rfl⟩
      · cases compiled.symm.trans failed
    · rcases offers.run s with ⟨g, -, compiled, -⟩ | ⟨e', failed', run⟩
      · cases failed.symm.trans compiled
      · cases failed.symm.trans failed'
        rw [Settings.Edit.result, run]
        rfl
  kept op s f offers failed := by
    rcases offers.run s with ⟨-, s', -, run⟩ | ⟨e, -, run⟩
    · rw [Settings.Edit.result, run] at failed
      cases failed
    · rw [Settings.Edit.after, run]

/-- A reversed range is not reported as an error of the option. -/
theorem reversed_range_escapes : ∃ f, Settings.compile "[z-a]" = .error f ∧
    f.kind ≠ "ScanConfigError" ∧ f.option? = none := by
  have bracket : bracket? ['z', '-', 'a', ']'] = some (⟨false, [('z', 'a')]⟩, []) := by decide
  have line : stripLine (lineOf "[z-a]") = ['[', 'z', '-', 'a', ']'] := by decide
  have spelled : writtenSets? "[z-a]" = some [⟨false, [('z', 'a')]⟩] := by
    simp [writtenSets?, line, Path.cut, bracketsOf, brackets?_bracket bracket, brackets?]
  have alone : expandBraces "[z-a]" = .ok ["[z-a]"] := expandBraces_of_plain (by decide)
  have reverses : Reverses "[z-a]" 'z' 'a' :=
    ⟨by decide, [], _, [], _, alone, by simp, spelled, by decide⟩
  refine ⟨.glob (.reversedRange 'z' 'a'), ?_, by decide, rfl⟩
  rw [Settings.compile, compile_of_reverses reverses]
  rfl

end FileCensus.Glob
