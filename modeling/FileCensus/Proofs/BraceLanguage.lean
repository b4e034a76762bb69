import FileCensus.Failure
import FileCensus.Glob.Braces
import Mathlib.Data.List.Lex
import Mathlib.Data.List.Forall2
import Mathlib.Data.List.Infix
import Mathlib.Algebra.BigOperators.Group.List.Basic

/-!
The patterns that a pattern with brace groups stands for. A pattern is either malformed, because one
of its groups is never closed or holds another opening brace, or it is cut into literals and groups
in exactly one way; then it stands for one pattern for each choice of an alternative from every
group. What such a pattern matches is not looked at here.
-/

namespace FileCensus.Glob
namespace Sign

/-- Signs as they are read from a text: a backslash is a sign by itself only at the end. -/
def AreRead : List Sign → Prop
  | [] => True
  | .plain c :: rest => c ≠ '\\' ∧ AreRead rest
  | .escape (some _) :: rest => AreRead rest
  | .escape none :: rest => rest = []

theorem areRead_ofChars (cs : List Char) : AreRead (ofChars cs) := by
  fun_induction ofChars cs with
  | case1 => trivial
  | case2 => rfl
  | case3 _ _ _ _ ih => exact ih
  | case4 c rest other ih => exact ⟨by simpa using other, ih⟩

theorem chars_ofChars (cs : List Char) : (ofChars cs).flatMap chars = cs := by
  fun_induction ofChars cs with
  | case1 => rfl
  | case2 c escape => simp_all [chars]
  | case3 c escape d rest ih => simp_all [chars]
  | case4 c rest other ih => simp [chars, ih]

theorem ofChars_chars {signs : List Sign} (h : AreRead signs) :
    ofChars (signs.flatMap chars) = signs := by
  induction signs with
  | nil => rfl
  | cons s rest ih =>
      cases s with
      | plain c =>
          obtain ⟨other, later⟩ : c ≠ '\\' ∧ AreRead rest := h
          simp only [List.flatMap_cons, chars, List.singleton_append]
          rw [ofChars.eq_def]
          simp [other, ih later]
      | escape c =>
          cases c with
          | none =>
              cases (h : rest = [])
              rfl
          | some c => simp [chars, ofChars, ih h]

theorem AreRead.sublist {short long : List Sign} (sub : short.Sublist long) (h : AreRead long) :
    AreRead short := by
  induction sub with
  | slnil => trivial
  | @cons short long s sub ih =>
      cases s with
      | plain c => exact ih h.2
      | escape c =>
          cases c with
          | none =>
              cases (h : long = [])
              cases sub
              trivial
          | some c => exact ih h
  | @cons_cons short long s sub ih =>
      cases s with
      | plain c => exact ⟨h.1, ih h.2⟩
      | escape c =>
          cases c with
          | none =>
              cases (h : long = [])
              cases sub
              rfl
          | some c => exact ih h

@[simp] theorem openBrace_ne_closeBrace : openBrace ≠ closeBrace := by decide
@[simp] theorem openBrace_ne_comma : openBrace ≠ comma := by decide
@[simp] theorem closeBrace_ne_openBrace : closeBrace ≠ openBrace := by decide
@[simp] theorem comma_ne_openBrace : comma ≠ openBrace := by decide
@[simp] theorem comma_ne_closeBrace : comma ≠ closeBrace := by decide

end Sign

open Sign

namespace Stretch

/-- The signs that a stretch is written with. -/
def signs : Stretch → List Sign
  | .literal signs => signs
  | .group alternatives => openBrace :: ([comma].intercalate alternatives ++ [closeBrace])

/-- Neither a brace nor a comma, unless it is escaped. -/
def IsFree (signs : List Sign) : Prop :=
    openBrace ∉ signs ∧ closeBrace ∉ signs ∧ comma ∉ signs

/-- Literals and groups in turn, with a literal at both ends. -/
inductive Alternate : List Stretch → Prop where
  | last {literal : List Sign} (plain : openBrace ∉ literal) : Alternate [.literal literal]
  | group {literal : List Sign} {alternatives : List (List Sign)} {rest : List Stretch}
      (plain : openBrace ∉ literal) (nonempty : alternatives ≠ [])
      (free : ∀ a ∈ alternatives, IsFree a) (more : Alternate rest) :
      Alternate (.literal literal :: .group alternatives :: rest)

/-- The signs are cut into these stretches. -/
structure Cuts (signs : List Sign) (stretches : List Stretch) : Prop where
  alternate : Alternate stretches
  written : stretches.flatMap Stretch.signs = signs

/-- A group whose opening brace has been read has no closing brace, or another opening brace comes
before it. -/
def Unclosed (after : List Sign) : Prop :=
    ∀ body rest, after = body ++ closeBrace :: rest → openBrace ∈ body

def IsMalformed (signs : List Sign) : Prop :=
    ∃ before after, signs = before ++ openBrace :: after ∧ Unclosed after

section Reading

variable (since : List Sign)

theorem readFrom_literal {literal : List Sign} (plain : openBrace ∉ literal)
    (read rest : List Sign) : readFrom since (.outside read) (literal ++ rest) =
      readFrom since (.outside (literal.reverse ++ read)) rest := by
  induction literal generalizing read with
  | nil => rfl
  | cons s literal ih =>
      obtain ⟨other, plain⟩ := not_or.mp (mt List.mem_cons.mpr plain)
      rw [List.cons_append, readFrom, if_neg (Ne.symm other), ih plain]
      simp

theorem readFrom_alternative {a : List Sign} (free : IsFree a) (done : List (List Sign))
    (read rest : List Sign) : readFrom since (.inside done read) (a ++ rest) =
      readFrom since (.inside done (a.reverse ++ read)) rest := by
  induction a generalizing read with
  | nil => rfl
  | cons s a ih =>
      simp only [IsFree, List.mem_cons, not_or] at free
      obtain ⟨⟨opening, o⟩, ⟨closing, c⟩, separating, k⟩ := free
      rw [List.cons_append, readFrom, if_neg (Ne.symm opening), if_neg (Ne.symm closing),
        if_neg (Ne.symm separating), ih ⟨o, c, k⟩]
      simp

theorem readFrom_group {a : List Sign} {others : List (List Sign)}
    (free : ∀ b ∈ a :: others, IsFree b) (done : List (List Sign)) (rest : List Sign) :
    readFrom since (.inside done []) ([comma].intercalate (a :: others) ++ closeBrace :: rest) =
      (readFrom rest (.outside []) rest).map (.group (done.reverse ++ a :: others) :: ·) := by
  induction others generalizing a done with
  | nil =>
      rw [List.intercalate_singleton, readFrom_alternative since (free a (by simp)), readFrom]
      cases readFrom rest (.outside []) rest <;>
        simp [bind, Except.bind, Except.map]
  | cons b others ih =>
      have later := ih (fun b hb => free b (List.mem_cons_of_mem a hb)) (a :: done)
      rw [List.intercalate_cons_cons, List.append_assoc, List.append_assoc,
        readFrom_alternative since (free a (by simp)), List.singleton_append, readFrom]
      simpa using later

/-- What is cut into stretches is read as these. -/
theorem readFrom_of_alternate {stretches : List Stretch} (h : Alternate stretches) :
    readFrom since (.outside []) (stretches.flatMap signs) = .ok stretches := by
  induction h generalizing since with
  | @last literal plain =>
      simp only [List.flatMap_cons, List.flatMap_nil, signs, readFrom_literal since plain]
      simp [readFrom]
  | @group literal alternatives rest plain nonempty free more ih =>
      obtain ⟨a, others, rfl⟩ := List.exists_cons_of_ne_nil nonempty
      simp only [List.flatMap_cons, signs, readFrom_literal since plain, List.cons_append,
        List.append_assoc, List.nil_append]
      rw [readFrom, if_pos rfl, readFrom_group since free, ih]
      simp [bind, Except.bind, Except.map]

/-- A group that is not closed is refused. -/
theorem readFrom_unclosed {after : List Sign} (h : Unclosed after) (done : List (List Sign))
    (read : List Sign) :
    ∃ e, readFrom since (.inside done read) after = .error e ∧ e.isRefusal = true := by
  induction after generalizing done read with
  | nil => exact ⟨_, rfl, rfl⟩
  | cons s after ih =>
      by_cases opening : s = openBrace
      · exact ⟨_, by rw [readFrom, if_pos opening], rfl⟩
      · by_cases closing : s = closeBrace
        · exact absurd (h [] after (by rw [closing]; rfl)) List.not_mem_nil
        · have later : Unclosed after := fun body rest eq =>
            (List.mem_cons.mp (h (s :: body) rest (by rw [eq]; rfl))).resolve_left
              (Ne.symm opening)
          rw [readFrom, if_neg opening, if_neg closing]
          split
          · exact ih later _ _
          · exact ih later _ _

end Reading

/-- What stands behind signs without an opening brace has the next opening brace. -/
theorem eq_append_of_plain {plain more before after : List Sign} (h : openBrace ∉ plain)
    (eq : plain ++ more = before ++ openBrace :: after) :
    ∃ between, before = plain ++ between ∧ more = between ++ openBrace :: after := by
  rcases List.append_eq_append_iff.mp eq with ⟨between, rfl, rfl⟩ | ⟨between, rfl, same⟩
  · exact ⟨between, rfl, rfl⟩
  · cases between with
    | nil => exact ⟨[], by simp, by simpa using same.symm⟩
    | cons s between =>
        obtain ⟨rfl, -⟩ := List.cons.inj same
        exact absurd (by simp) h

theorem plain_intercalate {alternatives : List (List Sign)} (free : ∀ a ∈ alternatives, IsFree a) :
    openBrace ∉ [comma].intercalate alternatives := by
  induction alternatives with
  | nil => simp
  | cons a others ih =>
      have first := (free a (by simp)).1
      have later := ih fun b hb => free b (List.mem_cons_of_mem a hb)
      cases others with
      | nil => simpa using first
      | cons b others =>
          rw [List.intercalate_cons_cons]
          simp [first, later]

/-- Every group of a pattern that is cut into stretches is closed before the next one opens. -/
theorem Alternate.closes {stretches : List Stretch} (h : Alternate stretches)
    {before after : List Sign} (eq : stretches.flatMap signs = before ++ openBrace :: after) :
    ¬ Unclosed after := by
  induction h generalizing before with
  | @last literal plain =>
      simp only [List.flatMap_cons, List.flatMap_nil, signs, List.append_nil] at eq
      exact absurd (by simp [eq]) plain
  | @group literal alternatives rest plain nonempty free more ih =>
      have inner := plain_intercalate free
      simp only [List.flatMap_cons, signs] at eq
      obtain ⟨between, -, eq⟩ := eq_append_of_plain plain eq
      cases between with
      | nil =>
          simp only [List.cons_append, List.append_assoc, List.nil_append, List.cons.injEq,
            true_and] at eq
          exact fun unclosed => inner (unclosed _ _ eq.symm)
      | cons s between =>
          simp only [List.cons_append, List.cons.injEq] at eq
          have within : openBrace ∉ [comma].intercalate alternatives ++ [closeBrace] := by
            simp [inner]
          obtain ⟨between, -, eq⟩ := eq_append_of_plain within eq.2
          exact ih eq

theorem Cuts.not_isMalformed {signs : List Sign} {stretches : List Stretch}
    (h : Cuts signs stretches) : ¬ IsMalformed signs := by
  rintro ⟨before, after, eq, unclosed⟩
  exact h.alternate.closes (h.written.trans eq) unclosed

theorem exists_alternatives (body : List Sign) (opening : openBrace ∉ body)
    (closing : closeBrace ∉ body) :
    ∃ alternatives, alternatives ≠ [] ∧ (∀ a ∈ alternatives, IsFree a) ∧
      [comma].intercalate alternatives = body := by
  induction body with
  | nil => exact ⟨[[]], by simp, by simp [IsFree], by simp⟩
  | cons s body ih =>
      simp only [List.mem_cons, not_or] at opening closing
      obtain ⟨alternatives, nonempty, free, rfl⟩ := ih opening.2 closing.2
      by_cases separates : s = comma
      · subst separates
        refine ⟨[] :: alternatives, by simp, ?_, ?_⟩
        · simpa [IsFree] using free
        · obtain ⟨a, others, rfl⟩ := List.exists_cons_of_ne_nil nonempty
          simp [List.intercalate_cons_cons]
      · obtain ⟨a, others, rfl⟩ := List.exists_cons_of_ne_nil nonempty
        refine ⟨(s :: a) :: others, by simp, ?_, ?_⟩
        · obtain ⟨first, later⟩ := List.forall_mem_cons.mp free
          refine List.forall_mem_cons.mpr ⟨?_, later⟩
          simpa [IsFree, opening.1, closing.1, Ne.symm separates] using first
        · cases others <;> simp [List.intercalate_cons_cons]

theorem exists_closed {after : List Sign} (h : ¬ Unclosed after) :
    ∃ body rest, after = body ++ closeBrace :: rest ∧ openBrace ∉ body ∧ closeBrace ∉ body := by
  simp only [Unclosed] at h
  push Not at h
  obtain ⟨body, rest, rfl, opening⟩ := h
  by_cases closing : closeBrace ∈ body
  · obtain ⟨first, others, rfl, before⟩ := List.eq_append_cons_of_mem closing
    refine ⟨first, others ++ closeBrace :: rest, by simp, ?_, before⟩
    exact fun inside => opening (List.mem_append_left _ inside)
  · exact ⟨body, rest, rfl, opening, closing⟩

/-- A malformed pattern is refused, and any other is cut into stretches. -/
theorem readFrom_cases (signs since : List Sign) :
    (∃ stretches, Cuts signs stretches) ∨
      IsMalformed signs ∧
        ∃ e, readFrom since (.outside []) signs = .error e ∧ e.isRefusal = true := by
  induction size : signs.length using Nat.strong_induction_on generalizing signs since with
  | _ n ih =>
      by_cases grouped : openBrace ∈ signs
      · -- the first group is either unclosed, or it is read and the rest is shorter
        obtain ⟨literal, after, rfl, plain⟩ := List.eq_append_cons_of_mem grouped
        have opens : readFrom since (.outside []) (literal ++ openBrace :: after) =
            readFrom since (.outside literal.reverse) (openBrace :: after) := by
          rw [readFrom_literal since plain, List.append_nil]
        by_cases unclosed : Unclosed after
        · obtain ⟨e, refused, blames⟩ := readFrom_unclosed since unclosed [] []
          refine Or.inr ⟨⟨literal, after, rfl, unclosed⟩, e, ?_, blames⟩
          rw [opens, readFrom, if_pos rfl, refused]
          rfl
        · obtain ⟨body, rest, rfl, opening, closing⟩ := exists_closed unclosed
          obtain ⟨alternatives, nonempty, free, rfl⟩ := exists_alternatives body opening closing
          have shorter : rest.length < n := by
            simp only [List.length_append, List.length_cons] at size
            omega
          rcases ih rest.length shorter rest rest rfl with ⟨stretches, alternate, rfl⟩ |
            ⟨⟨before, after, rfl, later⟩, e, refused, blames⟩
          · refine Or.inl ⟨_, .group plain nonempty free alternate, ?_⟩
            simp [Stretch.signs]
          · refine Or.inr ⟨⟨literal ++ openBrace :: ([comma].intercalate alternatives ++
              closeBrace :: before), after, by simp, later⟩, e, ?_, blames⟩
            obtain ⟨a, others, rfl⟩ := List.exists_cons_of_ne_nil nonempty
            rw [opens, readFrom, if_pos rfl, readFrom_group since free, refused]
            rfl
      · exact Or.inl ⟨[.literal signs], .last grouped, by simp [Stretch.signs]⟩

/-- How many alternatives each group has. -/
def sizes (stretches : List Stretch) : List Nat :=
    stretches.filterMap fun
      | .literal _ => none
      | .group alternatives => some alternatives.length

/-- What is left of the stretches when the alternative with the given number is chosen from each
group. -/
def chosen : List Stretch → List Nat → List Sign
  | .literal signs :: rest, choice => signs ++ chosen rest choice
  | .group alternatives :: rest, n :: choice => alternatives.getD n [] ++ chosen rest choice
  | _, _ => []

/-- The ways to choose a number below each of the given ones, in the order of the first number, then
the second, and so on. -/
def allChoices : List Nat → List (List Nat)
  | [] => [[]]
  | n :: sizes => (List.range n).flatMap fun i => (allChoices sizes).map (i :: ·)

theorem mem_allChoices {sizes choice : List Nat} :
    choice ∈ allChoices sizes ↔ List.Forall₂ (· < ·) choice sizes := by
  induction sizes generalizing choice with
  | nil => simp [allChoices]
  | cons n sizes ih =>
      cases choice with
      | nil => simp [allChoices]
      | cons i choice => simp [allChoices, ih]

theorem allChoices_sorted (sizes : List Nat) : (allChoices sizes).Pairwise (· < ·) := by
  induction sizes with
  | nil => simp [allChoices]
  | cons n sizes ih =>
      refine List.pairwise_flatMap.mpr ⟨fun i _ => ?_, ?_⟩
      · exact List.pairwise_map.mpr (ih.imp fun less => List.Lex.cons less)
      · refine List.pairwise_lt_range.imp fun less x hx y hy => ?_
        obtain ⟨x, -, rfl⟩ := List.mem_map.mp hx
        obtain ⟨y, -, rfl⟩ := List.mem_map.mp hy
        exact List.Lex.rel less

theorem allChoices_length (sizes : List Nat) : (allChoices sizes).length = sizes.prod := by
  induction sizes with
  | nil => rfl
  | cons n sizes ih => simp [allChoices, List.length_flatMap, ih]

/-- The combinations are one for each choice. -/
theorem combinations_eq (stretches : List Stretch) :
    combinations stretches = (allChoices (sizes stretches)).map (chosen stretches) := by
  induction stretches with
  | nil => rfl
  | cons s rest ih =>
      cases s with
      | literal signs =>
          have same : sizes (.literal signs :: rest) = sizes rest := rfl
          rw [same, combinations, ih]
          simp [choices, chosen]
      | group alternatives =>
          have numbered : alternatives =
              (List.range alternatives.length).map fun n => alternatives.getD n [] := by
            refine List.ext_getElem (by simp) fun n inside _ => ?_
            simp [inside]
          have more : sizes (.group alternatives :: rest) = alternatives.length :: sizes rest := rfl
          rw [more, allChoices, combinations, ih, choices]
          conv_lhs => rw [numbered]
          simp [List.flatMap_map, List.map_flatMap, chosen, Function.comp_def]

theorem sublist_intercalate {a : List Sign} {alternatives : List (List Sign)}
    (h : a ∈ alternatives) : a.Sublist ([comma].intercalate alternatives) := by
  induction alternatives with
  | nil => cases h
  | cons b others ih =>
      cases others with
      | nil =>
          cases List.mem_singleton.mp h
          rw [List.intercalate_singleton]
      | cons c others =>
          rw [List.intercalate_cons_cons]
          rcases List.mem_cons.mp h with rfl | later
          · rw [List.append_assoc]
            exact List.sublist_append_left _ _
          · exact (ih later).trans (List.sublist_append_right _ _)

theorem chosen_sublist (stretches : List Stretch) (choice : List Nat) :
    (chosen stretches choice).Sublist (stretches.flatMap signs) := by
  fun_induction chosen stretches choice with
  | case1 literal rest choice ih => exact ih.append_left literal
  | case2 alternatives rest n choice ih =>
      refine List.Sublist.append ?_ ih
      by_cases inside : n < alternatives.length
      · have member : alternatives.getD n [] ∈ alternatives := by simp [inside]
        have within := (sublist_intercalate member).trans (List.sublist_append_left _ [closeBrace])
        exact within.cons openBrace
      · simp [List.getElem?_eq_none (Nat.le_of_not_lt inside)]
  | case3 => exact List.nil_sublist _

theorem Alternate.plain_chosen {stretches : List Stretch} (h : Alternate stretches)
    (choice : List Nat) : openBrace ∉ chosen stretches choice := by
  induction h generalizing choice with
  | last plain => simpa [chosen] using plain
  | @group literal alternatives rest plain nonempty free more ih =>
      cases choice with
      | nil => simpa [chosen] using plain
      | cons n choice =>
          have alternative : openBrace ∉ alternatives.getD n [] := by
            by_cases inside : n < alternatives.length
            · exact (free _ (by simp [inside])).1
            · simp [List.getElem?_eq_none (Nat.le_of_not_lt inside)]
          simp only [chosen, List.mem_append, not_or]
          exact ⟨plain, alternative, ih choice⟩

end Stretch

open Stretch

theorem expandBraces_of_cuts {pattern : String} {stretches : List Stretch}
    (h : Cuts (Sign.ofChars pattern.toList) stretches) :
    expandBraces pattern = .ok ((combinations stretches).map Sign.text) := by
  have read := readFrom_of_alternate (Sign.ofChars pattern.toList) h.alternate
  rw [h.written] at read
  simp [expandBraces, ofSigns, read, bind, Except.bind]

/-- A pattern without a group stands for itself alone. -/
theorem expandBraces_of_plain {pattern : String}
    (h : openBrace ∉ Sign.ofChars pattern.toList) : expandBraces pattern = .ok [pattern] := by
  have whole : Cuts (Sign.ofChars pattern.toList) [.literal (Sign.ofChars pattern.toList)] :=
    ⟨.last h, by simp [Stretch.signs]⟩
  rw [expandBraces_of_cuts whole]
  simp [combinations, choices, Sign.text, Sign.chars_ofChars]

theorem expandBraces_cases (pattern : String) :
    (∃ stretches, Cuts (Sign.ofChars pattern.toList) stretches) ∨
      IsMalformed (Sign.ofChars pattern.toList) ∧
        ∃ e, expandBraces pattern = .error e ∧ e.isRefusal = true := by
  refine (readFrom_cases (Sign.ofChars pattern.toList) (Sign.ofChars pattern.toList)).imp_right ?_
  rintro ⟨malformed, e, refused, blames⟩
  exact ⟨malformed, e, by simp [expandBraces, ofSigns, refused, bind, Except.bind], blames⟩

/-- What a pattern that is cut into these stretches stands for: one pattern for each choice of an
alternative from every group, in the order of the choices, each of them without a group. -/
structure Expands (pattern : String) (stretches : List Stretch) (results : List String) : Prop where
  expanded : expandBraces pattern = .ok results
  ordered : ∃ all : List (List Nat), all.Pairwise (· < ·) ∧
    (∀ choice, choice ∈ all ↔ List.Forall₂ (· < ·) choice (sizes stretches)) ∧
    results = all.map fun choice => Sign.text (chosen stretches choice)
  length : results.length = (sizes stretches).prod
  plain : ∀ r ∈ results, openBrace ∉ Sign.ofChars r.toList
  final : ∀ r ∈ results, expandBraces r = .ok [r]

theorem expands_of_cuts {pattern : String} {stretches : List Stretch}
    (h : Cuts (Sign.ofChars pattern.toList) stretches) :
    Expands pattern stretches ((combinations stretches).map Sign.text) := by
  have plain : ∀ r ∈ (combinations stretches).map Sign.text,
      openBrace ∉ Sign.ofChars r.toList := by
    intro r hr
    rw [combinations_eq, List.map_map] at hr
    obtain ⟨choice, -, rfl⟩ := List.mem_map.mp hr
    have read : Sign.AreRead (chosen stretches choice) := by
      refine Sign.AreRead.sublist (chosen_sublist stretches choice) ?_
      rw [h.written]
      exact Sign.areRead_ofChars _
    simp only [Function.comp_apply, Sign.text, String.toList_ofList, Sign.ofChars_chars read]
    exact h.alternate.plain_chosen choice
  constructor
  · exact expandBraces_of_cuts h
  · refine ⟨allChoices (sizes stretches), allChoices_sorted _, fun _ => mem_allChoices, ?_⟩
    rw [combinations_eq, List.map_map]
    rfl
  · rw [List.length_map, combinations_eq, List.length_map, allChoices_length]
  · exact plain
  · exact fun r hr => expandBraces_of_plain (plain r hr)

/-- How a pattern is understood: the signs are read off it without a change, and either they are
malformed, which is an error of the configuration, or they are cut into literals and groups in
exactly one way, of which the expansion is made. -/
structure Understood (pattern : String) (signs : List Sign) : Prop where
  verbatim : Sign.text signs = pattern
  refused : (∃ e, expandBraces pattern = .error e) ↔ IsMalformed signs
  blamed : ∀ e, expandBraces pattern = .error e → (Failure.glob e).kind = "ScanConfigError"
  unique : ¬ IsMalformed signs → ∃! stretches, Cuts signs stretches
  expands : ∀ stretches, Cuts signs stretches → ∃ results, Expands pattern stretches results

theorem Cuts.unique {signs : List Sign} {a b : List Stretch} (ha : Cuts signs a)
    (hb : Cuts signs b) : a = b := by
  have first := readFrom_of_alternate signs ha.alternate
  have second := readFrom_of_alternate signs hb.alternate
  rw [ha.written] at first
  rw [hb.written, first] at second
  exact Except.ok.inj second

theorem expandBraces_understood (pattern : String) :
    Understood pattern (Sign.ofChars pattern.toList) := by
  have cases := expandBraces_cases pattern
  constructor
  · simp [Sign.text, Sign.chars_ofChars]
  · constructor
    · rintro ⟨e, refused⟩
      rcases cases with ⟨stretches, cut⟩ | ⟨malformed, -⟩
      · rw [expandBraces_of_cuts cut] at refused
        cases refused
      · exact malformed
    · intro malformed
      rcases cases with ⟨stretches, cut⟩ | ⟨-, e, refused, -⟩
      · exact absurd malformed cut.not_isMalformed
      · exact ⟨e, refused⟩
  · intro e refused
    rcases cases with ⟨stretches, cut⟩ | ⟨-, e', refused', blames⟩
    · rw [expandBraces_of_cuts cut] at refused
      cases refused
    · cases refused.symm.trans refused'
      simp [Failure.kind, blames]
  · intro sound
    rcases cases with ⟨stretches, cut⟩ | ⟨malformed, -⟩
    · exact ⟨stretches, cut, fun other h => Cuts.unique h cut⟩
    · exact absurd malformed sound
  · exact fun stretches cut => ⟨_, expands_of_cuts cut⟩

end FileCensus.Glob
