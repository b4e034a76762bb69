import FileCensus.Proofs.PatternFaults
import FileCensus.Proofs.Segments

/-!
Names as patterns. With a backslash before each of its characters a name stands for itself: no
character of it opens a group or a bracket expression, spans anything or is stripped. Such a pattern
matches the paths that have the name among their segments, and no others.
-/

namespace FileCensus.Glob

open FileCensus.Path

/-- A backslash before each character. -/
def escapedChars (cs : List Char) : List Char :=
    cs.flatMap fun c => ['\\', c]

/-- The pattern that quotes a name. -/
def escaped (name : String) : String :=
    String.ofList (escapedChars name.toList)

/-- An expression for the characters themselves. -/
def literal : List Char → Regex
  | [] => .empty
  | c :: cs => .seq (.one (.exactly c)) (literal cs)

theorem leaves_literal {cs s t : List Char} : (literal cs).Leaves s t ↔ s = cs ++ t := by
  induction cs generalizing s with
  | nil => rfl
  | cons c cs ih => simp [literal, Regex.Leaves, CharTest.holds, ih]

theorem segmentRegex_escapedChars (cs : List Char) :
    segmentRegex? (escapedChars cs) = some (literal cs) := by
  induction cs with
  | nil => simp [escapedChars, segmentRegex?, literal]
  | cons c cs ih =>
      have step : escapedChars (c :: cs) = '\\' :: c :: escapedChars cs := rfl
      rw [step, segmentRegex_escape, ih]
      rfl

theorem sets_literal (cs : List Char) : sets (literal cs) = [] := by
  induction cs with
  | nil => rfl
  | cons c cs ih => simp [literal, ih]

theorem ofChars_escapedChars (cs : List Char) :
    Sign.ofChars (escapedChars cs) = cs.map fun c => .escape (some c) := by
  induction cs with
  | nil => rfl
  | cons c cs ih =>
      have step : escapedChars (c :: cs) = '\\' :: c :: escapedChars cs := rfl
      rw [step, Sign.ofChars, if_pos (by decide), ih]
      rfl

theorem expandBraces_escaped (name : String) :
    expandBraces (escaped name) = .ok [escaped name] := by
  refine expandBraces_of_plain ?_
  simp [escaped, ofChars_escapedChars, Sign.openBrace]

theorem trimEnd_of_visible {p : Char → Bool} {c : Char} (visible : p c = false) (cs : List Char) :
    Text.trimEnd p (cs ++ [c]) = cs ++ [c] := by
  simp [Text.trimEnd, visible]

/-- An escaped line is stripped of nothing, since a space at its end is escaped, too. -/
theorem stripLine_escapedChars {cs : List Char}
    (spaces : ∀ c ∈ cs, Text.isBlank c = true → c = ' ') :
    stripLine (escapedChars cs) = escapedChars cs := by
  rcases List.eq_nil_or_concat cs with rfl | ⟨init, last, rfl⟩
  · rfl
  · have ending : escapedChars (init.concat last) = escapedChars init ++ ['\\', last] := by
      simp [escapedChars]
    rw [ending]
    unfold stripLine
    split
    · rfl
    · next unescaped =>
      have visible : Text.isBlank last = false := by
        by_contra blank
        have space := spaces last (by simp) (by simpa using blank)
        subst space
        exact unescaped (List.isSuffixOf_iff_suffix.mpr (List.suffix_append ..))
      have whole : escapedChars init ++ ['\\', last] = (escapedChars init ++ ['\\']) ++ [last] := by
        simp
      rw [whole, trimEnd_of_visible visible]

section Name

variable {name : String}

theorem lineOf_escaped (h : name.toList ≠ []) :
    lineOf (escaped name) = escapedChars name.toList := by
  obtain ⟨c, cs, chars⟩ := List.exists_cons_of_ne_nil h
  simp [lineOf, escaped, chars, escapedChars, literalLead]

theorem allBlank_escaped (h : name.toList ≠ []) : Text.allBlank (escaped name) = false := by
  obtain ⟨c, cs, chars⟩ := List.exists_cons_of_ne_nil h
  have backslash : Text.isBlank '\\' = false := by decide
  simp [Text.allBlank, escaped, escapedChars, chars, backslash]

/-- The quoted name makes one line, which looks for the name below directories. -/
theorem compiles_escaped (h : IsProper name)
    (spaces : ∀ c ∈ name.toList, Text.isBlank c = true → c = ' ') :
    Compiles (escaped name)
      (.atHead (.seq directories (wholeName (literal name.toList)))) := by
  obtain ⟨c, cs, chars, -⟩ := h.leading
  have free : '/' ∉ escapedChars name.toList := by
    have inside := h.2
    simpa [escapedChars] using inside
  constructor
  · rw [lineOf_escaped (by simp [chars]), stripLine_escapedChars spaces,
      compileSegments_floating free, segmentRegex_escapedChars]
    · rfl
    · simp [escapedChars, chars]
    · simp [escapedChars, chars]
    · simp [escapedChars, chars]
  · rw [reversedRange?_eq]
    simp [Compiled.regex, directories, wholeName, Regex.optional, someOnLine, sets_literal]

/-- Where no segment holds a line feed, the name is found exactly if it is one of the segments. -/
theorem literal_matches_iff {n : List Char} (free : '/' ∉ n) {segments : List (List Char)}
    (h : AreSegments segments) (lines : ∀ s ∈ segments, '\n' ∉ s) :
    (Regex.seq directories (wholeName (literal n))).matchesHead (joined segments) = true ↔
      n ∈ segments := by
  have begins : ∀ first rest, '/' ∉ first → (∀ s ∈ first :: rest, '\n' ∉ s) →
      ((wholeName (literal n)).matchesHead (joined (first :: rest)) = true ↔ first = n) := by
    intro first rest free' lines
    have noFeed : '\n' ∉ joined (first :: rest) := by
      rw [mem_joined (by decide)]
      rintro ⟨s, member, feed⟩
      exact lines s member feed
    rw [matchesHead_wholeName, ← joined_begins_iff free' free rest]
    refine exists_congr fun t => ?_
    rw [leaves_literal]
    refine and_congr_right fun eq => ?_
    have noFeed' : t ≠ ['\n'] := by
      rintro rfl
      exact noFeed (by simp [eq])
    simp [Regex.atEdge, noFeed', or_comm]
  rw [matchesHead_below _ h]
  constructor
  · rintro ⟨above, below, rfl, hb, -, matching⟩
    obtain ⟨first, rest, rfl⟩ := List.exists_cons_of_ne_nil hb
    have same := (begins first rest (h.free first (by simp))
      fun s member => lines s (List.mem_append_right above member)).mp matching
    simp [same]
  · intro member
    obtain ⟨above, rest, rfl⟩ := List.append_of_mem member
    refine ⟨above, n :: rest, rfl, by simp, fun d inside => lines d (by simp [inside]), ?_⟩
    exact (begins n rest free fun s inside => lines s (List.mem_append_right above inside)).mpr rfl

/-- A quoted name is a glob, and it matches exactly the paths with that name among their
segments. -/
theorem escaped_matches_name (h : IsProper name)
    (spaces : ∀ c ∈ name.toList, Text.isBlank c = true → c = ' ') :
    ∃ g, compile (escaped name) = .ok g ∧ ∀ names, names ≠ [] →
      (∀ n ∈ names, IsProper n ∧ '\n' ∉ n.toList) →
      (g.accepts (Walk.relativeText names) = true ↔ name ∈ names) := by
  have nonempty : name.toList ≠ [] := by
    obtain ⟨c, cs, chars, -⟩ := h.leading
    simp [chars]
  refine ⟨_, compile_of_compiles (expandBraces_escaped name) (allBlank_escaped nonempty)
    (compiles_escaped h spaces), fun names some_ proper => ?_⟩
  have segments := areSegments_names some_ fun n member => (proper n member).1
  have lines : ∀ s ∈ names.map String.toList, '\n' ∉ s := by
    intro s member
    obtain ⟨n, inside, rfl⟩ := List.mem_map.mp member
    exact (proper n inside).2
  rw [accepts_one _ rfl, relativeText_toList, subject_joined segments, Compiled.accepts,
    literal_matches_iff h.2 segments lines, List.mem_map]
  simp [String.toList_inj]

/-- A name of signs that have a meaning elsewhere, with a space at both ends. -/
theorem escaped_matches_signs : IsProper " [*\\! " ∧
    (∀ c ∈ " [*\\! ".toList, Text.isBlank c = true → c = ' ') ∧
    ∃ g, compile (escaped " [*\\! ") = .ok g ∧
      g.accepts (Walk.relativeText ["a", " [*\\! ", "b"]) = true ∧
      g.accepts (Walk.relativeText ["a", "[*\\!"]) = false := by
  have proper : IsProper " [*\\! " := by decide
  have visible : Text.isBlank '[' = false ∧ Text.isBlank '*' = false ∧
      Text.isBlank '\\' = false ∧ Text.isBlank '!' = false := by decide
  have spaces : ∀ c ∈ " [*\\! ".toList, Text.isBlank c = true → c = ' ' := by simp [visible]
  obtain ⟨g, compiled, accepts⟩ := escaped_matches_name proper spaces
  refine ⟨proper, spaces, g, compiled, ?_, ?_⟩
  · exact (accepts _ (by decide) (by decide)).mpr (by decide)
  · rw [← Bool.not_eq_true, accepts _ (by decide) (by decide)]
    decide

end Name

end FileCensus.Glob
