import FileCensus.Proofs.PatternFaults
import FileCensus.Proofs.Segments

/-!
Patterns without a slash and the same patterns with a slash in front. The first match below any
directory what the second match at the root; a line feed in the name of a directory that has to be
passed, for which nothing is said here, and an alternative that is blank stand in the way. A blank
alternative is no line of its own, but with a slash in front it is the pattern of everything.
-/

namespace FileCensus.Glob

open FileCensus.Path

theorem trimEnd_cons {p : Char → Bool} {c : Char} (visible : p c = false) (cs : List Char) :
    Text.trimEnd p (c :: cs) = c :: Text.trimEnd p cs := by
  rw [Text.trimEnd, List.reverse_cons, List.dropWhile_append, Text.trimEnd]
  split
  · next nothing => simp [List.isEmpty_iff.mp nothing, visible]
  · simp

theorem stripLine_cons {c : Char} {cs : List Char} (visible : Text.isBlank c = false)
    (h : c :: cs ≠ ['\\', ' ']) : stripLine (c :: cs) = c :: stripLine cs := by
  have same : ['\\', ' '].isSuffixOf (c :: cs) = ['\\', ' '].isSuffixOf cs := by
    rw [Bool.eq_iff_iff, List.isSuffixOf_iff_suffix, List.isSuffixOf_iff_suffix,
      List.suffix_cons_iff]
    simp [Ne.symm h]
  rw [stripLine, stripLine, same]
  split
  · rfl
  · exact trimEnd_cons visible cs

section Lines

variable {a : String}

theorem lineOf_slash (a : String) : lineOf ("/" ++ a) = '/' :: a.toList := by
  simp [lineOf, literalLead]

theorem stripLine_slash (a : String) :
    stripLine (lineOf ("/" ++ a)) = '/' :: stripLine a.toList := by
  rw [lineOf_slash, stripLine_cons (by decide) (by simp)]

/-- The line of an alternative differs from the alternative in a backslash before a mark. -/
theorem stripLine_lineOf (a : String) : stripLine (lineOf a) = stripLine a.toList ∨
    ∃ mark rest, (mark = '!' ∨ mark = '#') ∧ stripLine a.toList = mark :: rest ∧
      stripLine (lineOf a) = '\\' :: mark :: rest := by
  unfold lineOf
  cases a.toList with
  | nil => exact .inl rfl
  | cons mark rest =>
      simp only [literalLead]
      split
      · next lead =>
        have marked : mark = '!' ∨ mark = '#' := by simpa using lead
        have visible : Text.isBlank mark = false := by rcases marked with rfl | rfl <;> decide
        have unescaped : mark :: rest ≠ ['\\', ' '] := by
          rcases marked with rfl | rfl <;> simp
        have stripped := stripLine_cons visible unescaped
        refine .inr ⟨mark, stripLine rest, marked, stripped, ?_⟩
        rw [stripLine_cons (by decide), stripped]
        rcases marked with rfl | rfl <;> simp
      · exact .inl rfl

theorem segmentRegex_mark {mark : Char} (h : mark = '!' ∨ mark = '#') (rest : List Char) :
    segmentRegex? ('\\' :: mark :: rest) = segmentRegex? (mark :: rest) := by
  have plain : mark ∉ ['\\', '*', '?', '['] := by rcases h with rfl | rfl <;> decide
  rw [segmentRegex_escape, segmentRegex_plain plain]

end Lines

/-- A match of one name. -/
def wholeAnyName : Regex :=
    .seq .empty (.seq someOfName (.seq (.optional slash) .edge))

/-- What a line without a slash is compiled to, and what it is with a slash in front. -/
inductive Lifts : Compiled → Compiled → Prop
  | everything : Lifts (.anywhere (.one .notNewline)) (.anywhere (.one .notNewline))
  | anyName : Lifts (.anywhere (.one .notNewline)) (.atHead wholeAnyName)
  | name (r : Regex) : Lifts (.atHead (.seq directories (wholeName r))) (.atHead (wholeName r))

section Lifts

variable {floating anchored : Compiled} {segments above below : List (List Char)}

theorem occursIn_notNewline (s : List Char) :
    (Regex.one .notNewline).occursIn s = true ↔ ∃ c ∈ s, c ≠ '\n' := by
  simp only [Regex.occursIn_iff, Regex.Leaves, CharTest.holds, bne_iff_ne]
  constructor
  · rintro ⟨_, ⟨x, rfl⟩, t, c, visible, rfl⟩
    exact ⟨c, by simp, visible⟩
  · rintro ⟨c, member, visible⟩
    obtain ⟨x, t, rfl⟩ := List.append_of_mem member
    exact ⟨c :: t, ⟨x, rfl⟩, t, c, visible, rfl⟩

theorem wholeAnyName_matches {name : List Char} (nonempty : name ≠ []) (free : '/' ∉ name) :
    wholeAnyName.matchesHead name = true := by
  obtain ⟨c, cs, rfl⟩ := List.exists_cons_of_ne_nil nonempty
  simp only [List.mem_cons, not_or] at free
  refine (Regex.matchesHead_iff _ _).mpr ⟨[], c :: cs, rfl, [], ?_, [], .inr rfl, rfl, rfl⟩
  refine ⟨cs, ⟨c, ?_, rfl⟩, cs, fun d member => ?_, by simp⟩
  · simpa [CharTest.holds] using Ne.symm free.1
  · have other : d ≠ '/' := fun same => free.2 (same ▸ member)
    simpa [CharTest.holds] using other

/-- What matches below a directory matches the rest of the path when it is anchored. -/
theorem Lifts.found (h : Lifts floating anchored) (named : AreSegments segments)
    (matching : floating.accepts (joined segments) = true) :
    ∃ above below, segments = above ++ below ∧ below ≠ [] ∧
      anchored.accepts (joined below) = true := by
  cases h with
  | everything => exact ⟨[], segments, rfl, named.1, matching⟩
  | anyName =>
      obtain ⟨init, last, rfl⟩ := List.eq_nil_or_concat' segments |>.resolve_left named.1
      have proper := named.2 last (by simp)
      refine ⟨init, [last], rfl, by simp, ?_⟩
      rw [joined_one]
      exact wholeAnyName_matches (by rintro rfl; cases proper.1) proper.2
  | name r =>
      obtain ⟨above, below, eq, hb, -, matching⟩ := (matchesHead_below r named).mp matching
      exact ⟨above, below, eq, hb, matching⟩

/-- What matches when it is anchored matches below directories without a line feed. -/
theorem Lifts.reaches (h : Lifts floating anchored) (named : AreSegments (above ++ below))
    (hb : below ≠ []) (lines : ∀ d ∈ above, '\n' ∉ d)
    (visible : ∃ c ∈ joined (above ++ below), c ≠ '\n')
    (matching : anchored.accepts (joined below) = true) :
    floating.accepts (joined (above ++ below)) = true := by
  cases h with
  | everything | anyName => exact (occursIn_notNewline _).mpr visible
  | name r => exact (matchesHead_below r named).mpr ⟨above, below, rfl, hb, lines, matching⟩

end Lifts

section Alternative

variable {a : String}

theorem stripLine_lineOf_star {star : List Char} (h : stripLine a.toList = '*' :: star) :
    stripLine (lineOf a) = '*' :: star := by
  rcases stripLine_lineOf a with same | ⟨mark, rest, marked, eq, -⟩
  · exact same.trans h
  · obtain ⟨rfl, -⟩ := List.cons.inj (eq.symm.trans h)
    rcases marked with marked | marked <;> cases marked

/-- The backslash before a mark changes nothing in the expression. -/
theorem segmentRegex_lineOf (a : String) :
    segmentRegex? (stripLine (lineOf a)) = segmentRegex? (stripLine a.toList) := by
  rcases stripLine_lineOf a with same | ⟨mark, rest, marked, eq, eq'⟩
  · rw [same]
  · rw [eq, eq', segmentRegex_mark marked]

theorem free_lineOf (free : '/' ∉ a.toList) : '/' ∉ stripLine (lineOf a) := by
  have free' : '/' ∉ stripLine a.toList := fun inside => free ((stripLine_isPrefix _).mem inside)
  rcases stripLine_lineOf a with same | ⟨mark, rest, -, eq, eq'⟩
  · rwa [same]
  · rw [eq] at free'
    rw [eq', List.mem_cons, not_or]
    exact ⟨by decide, free'⟩

theorem stripLine_lineOf_ne {cs : List Char} (h : ∀ c ∈ cs, c = '*')
    (other : stripLine a.toList ≠ cs) : stripLine (lineOf a) ≠ cs := by
  rcases stripLine_lineOf a with same | ⟨mark, rest, -, -, eq⟩
  · rwa [same]
  · rintro rfl
    have star := h '\\' (by simp [eq])
    cases star

/-- Every alternative without a slash that makes a line makes one with a slash in front, too. -/
theorem Compiles.lifts {floating : Compiled} (free : '/' ∉ a.toList)
    (visible : Text.allBlank a = false) (h : Compiles a floating) :
    ∃ anchored, Compiles ("/" ++ a) anchored ∧ Lifts floating anchored := by
  obtain ⟨segments, ordered⟩ := h
  have nonempty : stripLine a.toList ≠ [] := by
    rw [ne_eq, stripLine_eq_nil_iff, ← List.all_eq_true]
    simpa [Text.allBlank] using visible
  have free' : '/' ∉ stripLine a.toList := fun inside => free ((stripLine_isPrefix _).mem inside)
  simp only [Compiles, stripLine_slash]
  by_cases spanning : stripLine a.toList = ['*', '*']
  · rw [stripLine_lineOf_star spanning] at segments
    cases segments
    exact ⟨.anywhere (.one .notNewline), by rw [spanning]; exact ⟨rfl, rfl⟩, .everything⟩
  by_cases any : stripLine a.toList = ['*']
  · rw [stripLine_lineOf_star any] at segments
    cases segments
    exact ⟨.atHead wholeAnyName, by rw [any]; exact ⟨rfl, rfl⟩, .anyName⟩
  have filled : stripLine (lineOf a) ≠ [] := by
    rw [ne_eq, lineOf_blank_iff, visible]
    decide
  rw [compileSegments_floating (free_lineOf free) filled
    (stripLine_lineOf_ne (by simp) spanning) (stripLine_lineOf_ne (by simp) any),
    segmentRegex_lineOf] at segments
  obtain ⟨r, found, rfl⟩ := Option.map_eq_some_iff.mp segments
  refine ⟨.atHead (wholeName r), ⟨?_, ?_⟩, .name r⟩
  · rw [compileSegments_anchored free' nonempty spanning any, found]
    rfl
  · rw [reversedRange?_eq] at ordered ⊢
    simpa [Compiled.regex, directories, Regex.optional, someOnLine] using ordered

/-- With a slash in front a blank alternative is a line for everything. -/
theorem compiles_slash_blank (blank : Text.allBlank a = true) :
    Compiles ("/" ++ a) (.anywhere (.one .notNewline)) := by
  have nothing : stripLine a.toList = [] := by
    rw [stripLine_eq_nil_iff, ← List.all_eq_true]
    exact blank
  simp only [Compiles, stripLine_slash, nothing]
  exact ⟨rfl, rfl⟩

end Alternative

section Expansion

open Stretch

variable {pattern : String} {alternatives : List String}

/-- A slash in front of a pattern stands in front of each alternative. -/
theorem expandBraces_slash (h : expandBraces pattern = .ok alternatives) :
    expandBraces ("/" ++ pattern) = .ok (alternatives.map ("/" ++ ·)) := by
  rcases expandBraces_cases pattern with ⟨stretches, cut⟩ | ⟨-, e, refused, -⟩
  · cases h.symm.trans (expandBraces_of_cuts cut)
    have front : ∃ literal rest, stretches = .literal literal :: rest ∧
        Alternate (.literal (.plain '/' :: literal) :: rest) := by
      cases cut.alternate with
      | @last literal plain =>
          exact ⟨literal, [], rfl, .last (by simpa [Sign.openBrace] using plain)⟩
      | @group literal _ rest plain nonempty free more =>
          exact ⟨literal, _, rfl, .group (by simpa [Sign.openBrace] using plain) nonempty free more⟩
    obtain ⟨literal, rest, rfl, alternate⟩ := front
    have cut' : Cuts (Sign.ofChars ("/" ++ pattern).toList)
        (.literal (.plain '/' :: literal) :: rest) := by
      refine ⟨alternate, ?_⟩
      have signs : Sign.ofChars ("/" ++ pattern).toList =
          .plain '/' :: Sign.ofChars pattern.toList := by
        have chars : ("/" ++ pattern).toList = '/' :: pattern.toList := by simp
        rw [chars, Sign.ofChars.eq_def]
        rfl
      rw [signs, ← cut.written]
      simp [Stretch.signs]
    rw [expandBraces_of_cuts cut']
    have text (signs : List Sign) :
        Sign.text (.plain '/' :: signs) = "/" ++ Sign.text signs := by
      simp [Sign.text, Sign.chars]
    simp [combinations, choices, text, Function.comp_def]
  · cases h.symm.trans refused

theorem free_of_expansion (free : '/' ∉ pattern.toList)
    (h : expandBraces pattern = .ok alternatives) : ∀ a ∈ alternatives, '/' ∉ a.toList := by
  rcases expandBraces_cases pattern with ⟨stretches, cut⟩ | ⟨-, e, refused, -⟩
  · cases h.symm.trans (expandBraces_of_cuts cut)
    intro a member slash
    rw [combinations_eq, List.map_map] at member
    obtain ⟨choice, -, rfl⟩ := List.mem_map.mp member
    simp only [Function.comp_apply, Sign.text, String.toList_ofList, List.mem_flatMap] at slash
    obtain ⟨sign, chosen_, inside⟩ := slash
    have within := (chosen_sublist stretches choice).mem chosen_
    rw [cut.written] at within
    refine free ?_
    rw [← Sign.chars_ofChars pattern.toList]
    exact List.mem_flatMap.mpr ⟨sign, within, inside⟩
  · cases h.symm.trans refused

end Expansion

/-- A visible alternative matches the path when a slash is put in front of it. -/
def MatchesOnTop (alternatives : List String) (path : String) : Prop :=
    ∃ a ∈ alternatives, Text.allBlank a = false ∧
      ∃ top, compile ("/" ++ a) = .ok top ∧ top.accepts path = true

/-- What a pattern without a slash, compiled to `g`, has to do with the pattern that has a slash in
front, compiled to `top`. Nothing is said of a match that has to pass a directory with a line feed
in its name, or that finds nothing but line feeds. -/
structure Floats (pattern : String) (g : Glob) (alternatives : List String) (top : Glob) :
    Prop where
  expanded : expandBraces pattern = .ok alternatives
  anchored : compile ("/" ++ pattern) = .ok top
  found : ∀ names, names ≠ [] → (∀ n ∈ names, IsProper n) →
    g.accepts (Walk.relativeText names) = true →
      ∃ above below, names = above ++ below ∧ below ≠ [] ∧
        MatchesOnTop alternatives (Walk.relativeText below)
  reaches : ∀ above below, below ≠ [] → (∀ n ∈ above ++ below, IsProper n) →
    (∀ d ∈ above, '\n' ∉ d.toList) →
    (∃ c ∈ (Walk.relativeText (above ++ below)).toList, c ≠ '\n') →
    MatchesOnTop alternatives (Walk.relativeText below) →
      g.accepts (Walk.relativeText (above ++ below)) = true
  depth : (∀ a ∈ alternatives, Text.allBlank a = false) →
    ∀ names, names ≠ [] → (∀ n ∈ names, IsProper n) → (∀ d ∈ names.dropLast, '\n' ∉ d.toList) →
      (∃ c ∈ (Walk.relativeText names).toList, c ≠ '\n') →
        (g.accepts (Walk.relativeText names) = true ↔
          ∃ above below, names = above ++ below ∧ below ≠ [] ∧
            top.accepts (Walk.relativeText below) = true)
  top_all : (∃ a ∈ alternatives, Text.allBlank a = true) →
    ∀ names, names ≠ [] → (∀ n ∈ names, IsProper n) →
      (∃ c ∈ (Walk.relativeText names).toList, c ≠ '\n') →
        top.accepts (Walk.relativeText names) = true
  lifted : ∀ above name, (∀ n ∈ above ++ [name], IsProper n) → (∀ d ∈ above, '\n' ∉ d.toList) →
    g.accepts name = true → g.accepts (Walk.relativeText (above ++ [name])) = true

/-- The alternative makes this line, and one that lifts it when a slash is put in front. -/
def LiftsLine (a : String) (rule : Rule) : Prop :=
    rule.selects = true ∧ ∃ anchored, Compiles ("/" ++ a) anchored ∧
      compile ("/" ++ a) = .ok ⟨"/" ++ a, [⟨true, anchored⟩]⟩ ∧ Lifts rule.compiled anchored

theorem visible_slash (a : String) : Text.allBlank ("/" ++ a) = false := by
  have slash : Text.isBlank '/' = false := by decide
  simp [Text.allBlank, slash]

theorem liftsLine_of_isLineOf {a : String} {rule : Rule} (free : '/' ∉ a.toList)
    (visible : Text.allBlank a = false) (alone : expandBraces a = .ok [a])
    (line : IsLineOf a rule) : LiftsLine a rule := by
  obtain ⟨selects, compiled⟩ := line
  obtain ⟨-, -, _, expanded, lines⟩ := compile_ok_iff.mp compiled
  cases expanded.symm.trans alone
  have one : compileLines a [lineOf a] = .ok [rule] := lines
  obtain ⟨r, more, first, others, eq⟩ := compileLines_cons_ok one
  obtain ⟨c, rfl, compiles⟩ := compiles_of_compileLine visible first
  cases others
  cases eq
  obtain ⟨anchored, compiles', lifts⟩ := compiles.lifts free visible
  have alone' : expandBraces ("/" ++ a) = .ok ["/" ++ a] := expandBraces_slash alone
  have compiled' := compile_of_compiles alone' (visible_slash a) compiles'
  exact ⟨selects, anchored, compiles', compiled', lifts⟩

section Glob

variable {pattern : String} {g : Glob} {alternatives : List String}

theorem liftsLines_of_compile (free : '/' ∉ pattern.toList) (h : compile pattern = .ok g) :
    ∃ alternatives, expandBraces pattern = .ok alternatives ∧
      List.Forall₂ LiftsLine (visible alternatives) g.rules := by
  obtain ⟨alternatives, expanded, lines⟩ := rules_of_compile h
  refine ⟨alternatives, expanded, ?_⟩
  have plain : ∀ a ∈ visible alternatives, '/' ∉ a.toList ∧ Text.allBlank a = false ∧
      expandBraces a = .ok [a] := by
    intro a shown
    obtain ⟨member, nonblank⟩ := mem_visible.mp shown
    exact ⟨free_of_expansion free expanded a member, nonblank,
      expandBraces_alternative expanded a member⟩
  refine ((List.forall₂_and_left _ _).mpr ⟨plain, lines⟩).imp fun a rule both => ?_
  obtain ⟨⟨free, nonblank, alone⟩, line⟩ := both
  exact liftsLine_of_isLineOf free nonblank alone line

/-- With a slash in front the pattern is a glob as well, which joins the alternatives with a slash
in front. -/
theorem exists_anchored (expanded : expandBraces pattern = .ok alternatives)
    (lifts : ∀ a ∈ visible alternatives, ∃ rule, LiftsLine a rule) :
    ∃ top, compile ("/" ++ pattern) = .ok top ∧
      ∀ path, top.accepts path = true ↔ ∃ a ∈ alternatives, ∃ one,
        compile ("/" ++ a) = .ok one ∧ one.accepts path = true := by
  have compiles : ∀ a ∈ alternatives, ∃ c, Compiles ("/" ++ a) c := by
    intro a member
    cases blank : Text.allBlank a with
    | true => exact ⟨_, compiles_slash_blank blank⟩
    | false =>
        obtain ⟨rule, -, anchored, compiles, -, -⟩ := lifts a (mem_visible.mpr ⟨member, blank⟩)
        exact ⟨anchored, compiles⟩
  have lines : ∀ b ∈ alternatives.map ("/" ++ ·), ∃ rule,
      compileLine ("/" ++ pattern) (lineOf b) = .ok rule := by
    intro b listed
    obtain ⟨a, member, rfl⟩ := List.mem_map.mp listed
    obtain ⟨c, compiles⟩ := compiles a member
    exact ⟨_, compileLine_of_compiles _ (visible_slash a) compiles⟩
  have expanded' := expandBraces_slash expanded
  obtain ⟨rules, lines⟩ := compileLines_of_each lines
  refine ⟨⟨"/" ++ pattern, rules⟩,
    compile_ok_iff.mpr ⟨visible_slash pattern, rfl, _, expanded', lines⟩, fun path => ?_⟩
  have joins := rules_of_compileLines (expandBraces_alternative expanded') lines
  rw [accepts_iff_of_lines (g := ⟨"/" ++ pattern, rules⟩) joins]
  simp [visible_slash]

theorem selects_of_lines {rules : List Rule}
    (lines : List.Forall₂ LiftsLine (visible alternatives) rules) :
    ∀ r ∈ rules, r.selects = true := by
  intro r inside
  obtain ⟨a, -, line⟩ := (exists_mem_of_forall₂ lines).2 r inside
  exact line.1

theorem found_of_lines (lines : List.Forall₂ LiftsLine (visible alternatives) g.rules)
    {names : List String} (some_ : names ≠ []) (proper : ∀ n ∈ names, IsProper n)
    (matching : g.accepts (Walk.relativeText names) = true) :
    ∃ above below, names = above ++ below ∧ below ≠ [] ∧
      MatchesOnTop alternatives (Walk.relativeText below) := by
  have named := areSegments_names some_ proper
  obtain ⟨-, ofRule⟩ := exists_mem_of_forall₂ lines
  rw [accepts_of_selecting (selects_of_lines lines), relativeText_toList,
    subject_joined named] at matching
  obtain ⟨rule, inside, matching⟩ := matching
  obtain ⟨a, shown, -, anchored, -, compiled, lifts⟩ := ofRule rule inside
  obtain ⟨member, nonblank⟩ := mem_visible.mp shown
  obtain ⟨above, below, eq, hb, matching⟩ := lifts.found named matching
  obtain ⟨names₁, names₂, rfl, rfl, rfl⟩ := List.map_eq_append_iff.mp eq
  refine ⟨names₁, names₂, rfl, by simpa using hb, a, member, nonblank, _, compiled, ?_⟩
  rw [accepts_one _ rfl, relativeText_toList]
  rw [List.map_append] at named
  rwa [subject_joined (named.below hb)]

theorem reaches_of_lines (lines : List.Forall₂ LiftsLine (visible alternatives) g.rules)
    {above below : List String} (hb : below ≠ []) (proper : ∀ n ∈ above ++ below, IsProper n)
    (feedless : ∀ d ∈ above, '\n' ∉ d.toList)
    (more : ∃ c ∈ (Walk.relativeText (above ++ below)).toList, c ≠ '\n')
    (matching : MatchesOnTop alternatives (Walk.relativeText below)) :
    g.accepts (Walk.relativeText (above ++ below)) = true := by
  have named := areSegments_names (by simp [hb]) proper
  obtain ⟨ofAlternative, -⟩ := exists_mem_of_forall₂ lines
  obtain ⟨a, member, nonblank, top, compiled, matching⟩ := matching
  obtain ⟨rule, inside, -, anchored, -, compiled', lifts⟩ :=
    ofAlternative a (mem_visible.mpr ⟨member, nonblank⟩)
  cases compiled.symm.trans compiled'
  have subject₁ := subject_joined named
  rw [relativeText_toList, List.map_append] at more
  rw [List.map_append] at named subject₁
  have hb' : below.map String.toList ≠ [] := by simpa using hb
  rw [accepts_one _ rfl, relativeText_toList, subject_joined (named.below hb')] at matching
  rw [accepts_of_selecting (selects_of_lines lines), relativeText_toList, List.map_append, subject₁]
  refine ⟨rule, inside, lifts.reaches named hb' (fun d listed => ?_) more matching⟩
  obtain ⟨n, within, rfl⟩ := List.mem_map.mp listed
  exact feedless n within

/-- A blank alternative is everything once a slash is in front. -/
theorem anything_of_blank {a : String} (alone : expandBraces a = .ok [a])
    (blank : Text.allBlank a = true) {names : List String} (some_ : names ≠ [])
    (proper : ∀ n ∈ names, IsProper n)
    (visible : ∃ c ∈ (Walk.relativeText names).toList, c ≠ '\n') :
    ∃ one, compile ("/" ++ a) = .ok one ∧ one.accepts (Walk.relativeText names) = true := by
  have compiled := compile_of_compiles (expandBraces_slash alone) (visible_slash a)
    (compiles_slash_blank blank)
  refine ⟨_, compiled, ?_⟩
  rw [relativeText_toList] at visible
  rw [accepts_one _ rfl, relativeText_toList, subject_joined (areSegments_names some_ proper)]
  exact (occursIn_notNewline _).mpr visible

theorem lifted_of_lines (lines : List.Forall₂ LiftsLine (visible alternatives) g.rules)
    {above : List String} {name : String} (proper : ∀ n ∈ above ++ [name], IsProper n)
    (feedless : ∀ d ∈ above, '\n' ∉ d.toList) (matching : g.accepts name = true) :
    g.accepts (Walk.relativeText (above ++ [name])) = true := by
  have alone : Walk.relativeText [name] = name := by simp [Walk.relativeText]
  have onTop : MatchesOnTop alternatives (Walk.relativeText [name]) := by
    obtain ⟨before, after, eq, ha, onTop⟩ := found_of_lines lines (List.cons_ne_nil name [])
      (fun n inside => proper n (List.mem_append_right above inside)) (by rwa [alone])
    have none : before = [] := by
      cases before with
      | nil => rfl
      | cons n before => simp_all
    rw [eq, none]
    exact onTop
  cases above with
  | nil => rwa [List.nil_append, alone]
  | cons d above =>
      refine reaches_of_lines lines (List.cons_ne_nil name []) proper feedless ?_ onTop
      -- the name of the first directory begins with something to see
      obtain ⟨c, cs, chars, other⟩ := (proper d (by simp)).leading
      refine ⟨c, ?_, ?_⟩
      · rw [relativeText_toList, mem_joined other]
        exact ⟨d.toList, by simp, by simp [chars]⟩
      · rintro rfl
        exact feedless d (by simp) (by simp [chars])

/-- A pattern without a slash that is a glob matches below any directory what it matches at the root
with a slash in front. -/
theorem floats_of_compile (free : '/' ∉ pattern.toList) (h : compile pattern = .ok g) :
    ∃ alternatives top, Floats pattern g alternatives top := by
  obtain ⟨alternatives, expanded, lines⟩ := liftsLines_of_compile free h
  obtain ⟨top, anchored, joins⟩ := exists_anchored expanded fun a shown => by
    obtain ⟨rule, -, line⟩ := (exists_mem_of_forall₂ lines).1 a shown
    exact ⟨rule, line⟩
  refine ⟨alternatives, top, expanded, anchored, fun names => found_of_lines lines,
    fun above below => reaches_of_lines lines, fun nonblank names some_ proper feedless more => ?_,
    ?_, fun above name => lifted_of_lines lines⟩
  · have onTop : ∀ path, top.accepts path = true ↔ MatchesOnTop alternatives path := fun path => by
      rw [joins]
      exact exists_congr fun a => and_congr_right fun member => by simp [nonblank a member]
    simp only [onTop]
    refine ⟨found_of_lines lines some_ proper, ?_⟩
    rintro ⟨above, below, rfl, hb, matching⟩
    refine reaches_of_lines lines hb proper (fun d inside => feedless d ?_) more matching
    rw [List.dropLast_append_of_ne_nil hb]
    exact List.mem_append_left _ inside
  · rintro ⟨a, member, blank⟩ names some_ proper visible
    have alone := expandBraces_alternative expanded a member
    exact (joins _).mpr ⟨a, member, anything_of_blank alone blank some_ proper visible⟩

end Glob

theorem floats_of_compile_marks : '/' ∉ "\x7b!a,*\x7d".toList ∧ ∃ g alternatives top,
    compile "\x7b!a,*\x7d" = .ok g ∧ Floats "\x7b!a,*\x7d" g alternatives top := by
  have free : '/' ∉ "\x7b!a,*\x7d".toList := by decide
  have compiled : ∃ g, compile "\x7b!a,*\x7d" = .ok g := by
    have expanded : expandBraces "\x7b!a,*\x7d" = .ok ["!a", "*"] := by cbv
    exact ⟨⟨_, _⟩, compile_ok_iff.mpr ⟨by decide, rfl, _, expanded, by cbv⟩⟩
  obtain ⟨g, compiled⟩ := compiled
  obtain ⟨alternatives, top, floats⟩ := floats_of_compile free compiled
  exact ⟨free, g, alternatives, top, compiled, floats⟩

/-- A pattern does not always match below what it matches with a slash in front. A blank alternative
makes no line until a slash is put in front of it, and then it is everything; and nothing is looked
for below a directory with a line feed in its name. -/
theorem not_floats_everywhere :
    (∃ g top, compile "\x7b,a\x7d" = .ok g ∧ compile "/\x7b,a\x7d" = .ok top ∧
      g.accepts "b" = false ∧ top.accepts "b" = true) ∧
    ∃ g top, compile "a" = .ok g ∧ compile "/a" = .ok top ∧
      g.accepts (Walk.relativeText ["x\ny", "a"]) = false ∧
      top.accepts (Walk.relativeText ["a"]) = true :=
  ⟨⟨_, _, by cbv, by cbv, by decide, by decide⟩, ⟨_, _, by cbv, by cbv, by cbv, by cbv⟩⟩

end FileCensus.Glob
