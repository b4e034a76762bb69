import FileCensus.Proofs.BraceLanguage
import FileCensus.Proofs.Changes

/-!
A glob as an ignore file with a line for each of its alternatives. In such a file a line may be a
comment, may negate, and the last line that matches decides; but the first character of an
alternative is made to stand for itself, and what is stripped is taken from the end, so that every
line selects and the glob selects what one of its alternatives selects.
-/

namespace FileCensus.Glob

theorem trimEnd_isPrefix (p : Char → Bool) (cs : List Char) : Text.trimEnd p cs <+: cs := by
  rw [← List.reverse_suffix, Text.trimEnd, List.reverse_reverse]
  exact List.dropWhile_suffix p

theorem stripLine_isPrefix (cs : List Char) : stripLine cs <+: cs := by
  unfold stripLine
  split
  · exact List.prefix_rfl
  · exact trimEnd_isPrefix Text.isBlank cs

/-- A line is empty once it is stripped exactly if it is blank. -/
theorem stripLine_eq_nil_iff (cs : List Char) :
    stripLine cs = [] ↔ ∀ c ∈ cs, Text.isBlank c = true := by
  unfold stripLine
  split
  · next escaped =>
    have backslash : '\\' ∈ cs := (List.isSuffixOf_iff_suffix.mp escaped).mem (by simp)
    constructor
    · rintro rfl
      cases backslash
    · exact fun blank => absurd (blank _ backslash) (by decide)
  · exact Text.trimEnd_eq_nil_iff Text.isBlank cs

/-- What is left of a line begins as the line does. -/
theorem stripLine_leading {cs rest : List Char} {c : Char} (h : stripLine cs = c :: rest) :
    ∃ more, cs = c :: more := by
  obtain ⟨tail, eq⟩ := stripLine_isPrefix cs
  exact ⟨rest ++ tail, by rw [← eq, h, List.cons_append]⟩

theorem literalLead_leading {cs rest : List Char} {c : Char} (h : literalLead cs = c :: rest) :
    c ≠ '!' ∧ c ≠ '#' := by
  cases cs with
  | nil => cases h
  | cons d cs =>
      simp only [literalLead] at h
      split at h
      · obtain ⟨rfl, -⟩ := List.cons.inj h
        decide
      · next other =>
        obtain ⟨rfl, -⟩ := List.cons.inj h
        simpa [not_or] using other

theorem literalLead_blank_iff (cs : List Char) :
    (∀ c ∈ literalLead cs, Text.isBlank c = true) ↔ ∀ c ∈ cs, Text.isBlank c = true := by
  cases cs with
  | nil => rfl
  | cons d cs =>
      simp only [literalLead]
      split
      · next lead =>
        have marked : d = '!' ∨ d = '#' := by simpa using lead
        have visible : Text.isBlank d = false := by rcases marked with rfl | rfl <;> decide
        simp [visible]
      · rfl

theorem lineOf_blank_iff (alternative : String) :
    stripLine (lineOf alternative) = [] ↔ Text.allBlank alternative = true := by
  rw [stripLine_eq_nil_iff, lineOf, literalLead_blank_iff, Text.allBlank, List.all_eq_true]

theorem compileLine_of_blank (pattern : String) {alternative : String}
    (blank : Text.allBlank alternative = true) :
    compileLine pattern (lineOf alternative) = .ok none := by
  rw [compileLine, (lineOf_blank_iff alternative).mpr blank]

/-- The line of an alternative is no comment and does not negate. -/
theorem compileLine_of_visible (pattern : String) {alternative : String}
    (visible : Text.allBlank alternative = false) :
    compileLine pattern (lineOf alternative) =
      (compileBody pattern (lineOf alternative) (stripLine (lineOf alternative))).map
        fun c => some ⟨true, c⟩ := by
  have nonempty : stripLine (lineOf alternative) ≠ [] := by
    rw [ne_eq, lineOf_blank_iff, visible]
    decide
  obtain ⟨c, rest, left⟩ := List.exists_cons_of_ne_nil nonempty
  obtain ⟨more, whole⟩ := stripLine_leading left
  obtain ⟨noNegation, noComment⟩ := literalLead_leading whole
  rw [compileLine, left]
  split
  · next empty => cases empty
  · next comment => exact absurd (List.cons.inj comment).1 noComment
  · next negation => exact absurd (List.cons.inj negation).1 noNegation
  · rfl

theorem compileBody_ok_iff {pattern : String} {line body : List Char} {compiled : Compiled} :
    compileBody pattern line body = .ok compiled ↔
      compileSegments? (directoryOnly (Path.cut body)) (segmentsOf (Path.cut body)) =
        some compiled ∧ reversedRange? compiled.regex = none := by
  unfold compileBody
  simp only
  split
  · next dangling => simp [dangling]
  · next c found =>
    rw [found, Option.some.injEq]
    split
    · next reversed =>
      simp only [reduceCtorEq, false_iff, not_and]
      rintro rfl
      simp [reversed]
    · next sound =>
      simp only [Except.ok.injEq]
      exact ⟨fun same => ⟨same, same ▸ sound⟩, fun h => h.1⟩

section Lines

variable {pattern : String} {lines : List (List Char)}

theorem compileLines_cons_ok {line : List Char} {rules : List Rule}
    (h : compileLines pattern (line :: lines) = .ok rules) :
    ∃ rule more, compileLine pattern line = .ok rule ∧ compileLines pattern lines = .ok more ∧
      rules = rule.toList ++ more := by
  obtain ⟨rule, first, h⟩ := ok_of_bind h
  obtain ⟨more, others, h⟩ := ok_of_bind h
  cases h
  exact ⟨rule, more, first, others, rfl⟩

theorem compileLines_cons_of_ok {line : List Char} {rule : Option Rule} {more : List Rule}
    (first : compileLine pattern line = .ok rule) (others : compileLines pattern lines = .ok more) :
    compileLines pattern (line :: lines) = .ok (rule.toList ++ more) := by
  simp [compileLines, first, others, bind, Except.bind]

theorem compileLines_of_each {alternatives : List String}
    (h : ∀ a ∈ alternatives, ∃ rule, compileLine pattern (lineOf a) = .ok rule) :
    ∃ rules, compileLines pattern (alternatives.map lineOf) = .ok rules := by
  induction alternatives with
  | nil => exact ⟨[], rfl⟩
  | cons a alternatives ih =>
      obtain ⟨⟨rule, line⟩, others⟩ := List.forall_mem_cons.mp h
      obtain ⟨more, later⟩ := ih others
      exact ⟨rule.toList ++ more, compileLines_cons_of_ok line later⟩

end Lines

/-- The parts of a compiled pattern. -/
theorem compile_ok_iff {pattern : String} {g : Glob} :
    compile pattern = .ok g ↔ Text.allBlank pattern = false ∧ g.pattern = pattern ∧
      ∃ alternatives, expandBraces pattern = .ok alternatives ∧
        compileLines pattern (alternatives.map lineOf) = .ok g.rules := by
  constructor
  · intro h
    unfold compile at h
    split at h
    · cases h
    · next visible =>
      obtain ⟨alternatives, expanded, h⟩ := ok_of_bind h
      obtain ⟨rules, lines, h⟩ := ok_of_bind h
      cases h
      exact ⟨by simpa using visible, rfl, alternatives, expanded, lines⟩
  · rintro ⟨visible, rfl, alternatives, expanded, lines⟩
    simp [compile, visible, expanded, lines, bind, Except.bind]

/-- The expression of the line that an alternative makes, whatever the pattern is. -/
def Compiles (alternative : String) (compiled : Compiled) : Prop :=
    compileSegments? (directoryOnly (Path.cut (stripLine (lineOf alternative))))
      (segmentsOf (Path.cut (stripLine (lineOf alternative)))) = some compiled ∧
      reversedRange? compiled.regex = none

theorem compileLine_of_compiles (pattern : String) {alternative : String}
    (visible : Text.allBlank alternative = false) {compiled : Compiled}
    (h : Compiles alternative compiled) :
    compileLine pattern (lineOf alternative) = .ok (some ⟨true, compiled⟩) := by
  rw [compileLine_of_visible pattern visible, compileBody_ok_iff.mpr h]
  rfl

/-- A pattern without a group has one line, and that line selects. -/
theorem compile_of_compiles {alternative : String}
    (alone : expandBraces alternative = .ok [alternative])
    (visible : Text.allBlank alternative = false) {compiled : Compiled}
    (h : Compiles alternative compiled) :
    compile alternative = .ok ⟨alternative, [⟨true, compiled⟩]⟩ := by
  refine compile_ok_iff.mpr ⟨visible, rfl, _, alone, ?_⟩
  exact compileLines_cons_of_ok (compileLine_of_compiles alternative visible h)
    (rfl : compileLines alternative [] = .ok [])

theorem compiles_of_compileLine {alternative : String} (visible : Text.allBlank alternative = false)
    {pattern : String} {rule : Option Rule}
    (h : compileLine pattern (lineOf alternative) = .ok rule) :
    ∃ compiled, rule = some ⟨true, compiled⟩ ∧ Compiles alternative compiled := by
  rw [compileLine_of_visible pattern visible] at h
  cases body : compileBody pattern (lineOf alternative) (stripLine (lineOf alternative)) with
  | error e =>
      rw [body] at h
      cases h
  | ok c =>
      rw [body] at h
      cases h
      exact ⟨c, rfl, compileBody_ok_iff.mp body⟩

/-- The alternatives that make a line. -/
def visible (alternatives : List String) : List String :=
    alternatives.filter (!Text.allBlank ·)

theorem mem_visible {alternatives : List String} {a : String} :
    a ∈ visible alternatives ↔ a ∈ alternatives ∧ Text.allBlank a = false := by
  simp [visible]

/-- The one line of a glob selects, and it is the glob that the alternative is by itself. -/
def IsLineOf (alternative : String) (rule : Rule) : Prop :=
    rule.selects = true ∧ compile alternative = .ok ⟨alternative, [rule]⟩

/-- The lines are those of the alternatives, in their order; only a blank one has none. -/
theorem rules_of_compileLines {pattern : String} {alternatives : List String}
    (alone : ∀ a ∈ alternatives, expandBraces a = .ok [a]) {rules : List Rule}
    (h : compileLines pattern (alternatives.map lineOf) = .ok rules) :
    List.Forall₂ IsLineOf (visible alternatives) rules := by
  induction alternatives generalizing rules with
  | nil =>
      cases h
      exact .nil
  | cons a alternatives ih =>
      obtain ⟨rule, more, first, others, rfl⟩ := compileLines_cons_ok h
      have later := ih (fun b hb => alone b (List.mem_cons_of_mem a hb)) others
      cases blank : Text.allBlank a with
      | true =>
          rw [compileLine_of_blank pattern blank] at first
          cases first
          simpa [visible, blank] using later
      | false =>
          obtain ⟨c, rfl, compiled⟩ := compiles_of_compileLine blank first
          have shown : visible (a :: alternatives) = a :: visible alternatives := by
            simp [visible, blank]
          rw [shown]
          have one := compile_of_compiles (alone a (List.mem_cons_self ..)) blank compiled
          exact .cons ⟨rfl, one⟩ later

theorem verdict_of_selecting {rules : List Rule} (h : ∀ r ∈ rules, r.selects = true)
    (s : List Char) :
    (verdict rules s).getD false = true ↔ ∃ r ∈ rules, r.compiled.accepts s = true := by
  unfold verdict
  cases found : rules.reverse.find? (·.compiled.accepts s) with
  | none =>
      simp only [List.find?_eq_none, List.mem_reverse] at found
      simpa using found
  | some r =>
      have member : r ∈ rules := List.mem_reverse.mp (List.mem_of_find?_eq_some found)
      have matching : r.compiled.accepts s = true := by simpa using List.find?_some found
      simp only [Option.map_some, Option.getD_some, h r member, true_iff]
      exact ⟨r, member, matching⟩

theorem accepts_of_selecting {g : Glob} (h : ∀ r ∈ g.rules, r.selects = true) (path : String) :
    g.accepts path = true ↔ ∃ r ∈ g.rules, r.compiled.accepts (subject path.toList) = true :=
  verdict_of_selecting h (subject path.toList)

theorem accepts_one (alternative : String) {rule : Rule} (selects : rule.selects = true)
    (path : String) : accepts ⟨alternative, [rule]⟩ path = true ↔
      rule.compiled.accepts (subject path.toList) = true := by
  rw [accepts_of_selecting (by simpa using selects)]
  simp

/-- What a pattern expands to expands no further. -/
theorem expandBraces_alternative {pattern : String} {alternatives : List String}
    (h : expandBraces pattern = .ok alternatives) :
    ∀ a ∈ alternatives, expandBraces a = .ok [a] := by
  rcases expandBraces_cases pattern with ⟨stretches, cut⟩ | ⟨-, e, refused, -⟩
  · have all := expands_of_cuts cut
    cases h.symm.trans all.expanded
    exact all.final
  · cases h.symm.trans refused

theorem rules_of_compile {pattern : String} {g : Glob} (h : compile pattern = .ok g) :
    ∃ alternatives, expandBraces pattern = .ok alternatives ∧
      List.Forall₂ IsLineOf (visible alternatives) g.rules := by
  obtain ⟨-, -, alternatives, expanded, lines⟩ := compile_ok_iff.mp h
  exact ⟨alternatives, expanded, rules_of_compileLines (expandBraces_alternative expanded) lines⟩

theorem exists_mem_of_forall₂ {α β : Type} {R : α → β → Prop} {xs : List α} {ys : List β}
    (h : List.Forall₂ R xs ys) :
    (∀ x ∈ xs, ∃ y ∈ ys, R x y) ∧ ∀ y ∈ ys, ∃ x ∈ xs, R x y := by
  induction h with
  | nil => simp
  | @cons x y xs ys first _ ih =>
      refine ⟨List.forall_mem_cons.mpr ⟨⟨y, by simp, first⟩, fun x' hx => ?_⟩,
        List.forall_mem_cons.mpr ⟨⟨x, by simp, first⟩, fun y' hy => ?_⟩⟩
      · obtain ⟨y', hy, related⟩ := ih.1 x' hx
        exact ⟨y', List.mem_cons_of_mem y hy, related⟩
      · obtain ⟨x', hx, related⟩ := ih.2 y' hy
        exact ⟨x', List.mem_cons_of_mem x hx, related⟩

theorem accepts_iff_of_lines {alternatives : List String} {g : Glob}
    (h : List.Forall₂ IsLineOf (visible alternatives) g.rules) (path : String) :
    g.accepts path = true ↔ ∃ a ∈ alternatives, Text.allBlank a = false ∧
      ∃ one, compile a = .ok one ∧ one.accepts path = true := by
  obtain ⟨ofAlternative, ofRule⟩ := exists_mem_of_forall₂ h
  have selects : ∀ r ∈ g.rules, r.selects = true := by
    intro r member
    obtain ⟨a, -, line⟩ := ofRule r member
    exact line.1
  rw [accepts_of_selecting selects]
  constructor
  · rintro ⟨r, member, matching⟩
    obtain ⟨a, shown, line⟩ := ofRule r member
    obtain ⟨inside, nonblank⟩ := mem_visible.mp shown
    exact ⟨a, inside, nonblank, _, line.2, (accepts_one a line.1 path).mpr matching⟩
  · rintro ⟨a, inside, nonblank, one, compiled, matching⟩
    obtain ⟨r, member, line⟩ := ofAlternative a (mem_visible.mpr ⟨inside, nonblank⟩)
    cases compiled.symm.trans line.2
    exact ⟨r, member, (accepts_one a line.1 path).mp matching⟩

namespace Stretch

theorem mem_combinations_append {xs ys : List Stretch} {signs : List Sign} :
    signs ∈ combinations (xs ++ ys) ↔
      ∃ a ∈ combinations xs, ∃ b ∈ combinations ys, signs = a ++ b := by
  induction xs generalizing signs with
  | nil => simp [combinations]
  | cons x xs ih =>
      simp only [List.cons_append, combinations, List.mem_flatMap, List.mem_map, ih]
      constructor
      · rintro ⟨choice, chosen, _, ⟨a, ha, b, hb, rfl⟩, rfl⟩
        exact ⟨choice ++ a, ⟨choice, chosen, a, ha, rfl⟩, b, hb, by simp⟩
      · rintro ⟨_, ⟨choice, chosen, a, ha, rfl⟩, b, hb, rfl⟩
        exact ⟨choice, chosen, a ++ b, ⟨a, ha, b, hb, rfl⟩, by simp⟩

end Stretch

open Stretch

/-- The second pattern has one alternative more in one of the groups of the first. -/
def AddsAlternative (pattern more : String) : Prop :=
    ∃ before first added last after,
      Cuts (Sign.ofChars pattern.toList) (before ++ .group (first ++ last) :: after) ∧
      Cuts (Sign.ofChars more.toList) (before ++ .group (first ++ added :: last) :: after)

theorem AddsAlternative.expansions {pattern more : String} (h : AddsAlternative pattern more)
    {few many : List String} (small : expandBraces pattern = .ok few)
    (large : expandBraces more = .ok many) : few ⊆ many := by
  obtain ⟨before, first, added, last, after, cut, cut'⟩ := h
  cases small.symm.trans (expandBraces_of_cuts cut)
  cases large.symm.trans (expandBraces_of_cuts cut')
  refine List.map_subset _ fun signs member => ?_
  obtain ⟨a, ha, b, hb, rfl⟩ := mem_combinations_append.mp member
  refine mem_combinations_append.mpr ⟨a, ha, b, ?_, rfl⟩
  obtain ⟨choice, chosen, rest⟩ := List.mem_flatMap.mp hb
  have still : choice ∈ first ++ added :: last := by
    rcases List.mem_append.mp chosen with early | late
    · exact List.mem_append_left _ early
    · exact List.mem_append_right _ (List.mem_cons_of_mem added late)
  exact List.mem_flatMap.mpr ⟨choice, still, rest⟩

/-- A glob that matches what its alternatives match. Each of them that is not blank is a glob by
itself and has one line, which selects; another alternative takes no match away. -/
structure JoinsAlternatives (pattern : String) (g : Glob) (alternatives : List String) : Prop where
  expanded : expandBraces pattern = .ok alternatives
  lines : List.Forall₂ IsLineOf (visible alternatives) g.rules
  accepts_iff : ∀ path, g.accepts path = true ↔ ∃ a ∈ alternatives, Text.allBlank a = false ∧
    ∃ one, compile a = .ok one ∧ one.accepts path = true
  grows : ∀ more larger, AddsAlternative pattern more → compile more = .ok larger →
    ∀ path, g.accepts path = true → larger.accepts path = true

theorem joins_alternatives {pattern : String} {g : Glob} (h : compile pattern = .ok g) :
    ∃ alternatives, JoinsAlternatives pattern g alternatives := by
  obtain ⟨alternatives, expanded, lines⟩ := rules_of_compile h
  have accepts := accepts_iff_of_lines lines
  refine ⟨alternatives, expanded, lines, accepts, fun more larger adds compiled path matching => ?_⟩
  obtain ⟨many, expanded', lines'⟩ := rules_of_compile compiled
  obtain ⟨a, inside, nonblank, one⟩ := (accepts path).mp matching
  have still := adds.expansions expanded expanded' inside
  exact (accepts_iff_of_lines lines' path).mpr ⟨a, still, nonblank, one⟩

/-- Alternatives that begin like a negation and like a comment. -/
theorem joins_alternatives_marks : ∃ g alternatives, compile "\x7b!a,#\x7d" = .ok g ∧
    JoinsAlternatives "\x7b!a,#\x7d" g alternatives := by
  have compiled : ∃ g, compile "\x7b!a,#\x7d" = .ok g := by
    have expanded : expandBraces "\x7b!a,#\x7d" = .ok ["!a", "#"] := by cbv
    exact ⟨⟨_, _⟩, compile_ok_iff.mpr ⟨by decide, rfl, _, expanded, by cbv⟩⟩
  obtain ⟨g, compiled⟩ := compiled
  obtain ⟨alternatives, joins⟩ := joins_alternatives compiled
  exact ⟨g, alternatives, compiled, joins⟩

end FileCensus.Glob
