import FileCensus.Proofs.Alternatives
import FileCensus.Proofs.Matching
import FileCensus.Proofs.Spelling
import FileCensus.Walk.Basic

/-!
Lines without a slash. Such a line has one segment, which is held against the segments of a path:
at the first of them if a slash is put in front, and otherwise at any that only directories without
a line feed in their names lead to.
-/

namespace FileCensus

namespace Path

theorem cut_eq_splitOn (cs : List Char) : cut cs = cs.splitOn '/' := by
  induction cs with
  | nil => rfl
  | cons c cs ih =>
      rw [cut, ih, List.splitOn, List.splitOn, List.splitOnP_cons_eq_if_modifyHead]
      cases pieces : cs.splitOnP (· == '/') with
      | nil => exact (List.splitOnP_ne_nil _ _ pieces).elim
      | cons _ _ => rfl

/-- The segments of a path as one text. -/
def joined (segments : List (List Char)) : List Char :=
    ['/'].intercalate segments

theorem joined_cons {s : List Char} {rest : List (List Char)} (h : rest ≠ []) :
    joined (s :: rest) = s ++ '/' :: joined rest := by
  obtain ⟨t, rest, rfl⟩ := List.exists_cons_of_ne_nil h
  simp [joined, List.intercalate_cons_cons]

@[simp] theorem joined_one (s : List Char) : joined [s] = s := by
  simp [joined]

theorem joined_append {above below : List (List Char)} (ha : above ≠ []) (hb : below ≠ []) :
    joined (above ++ below) = joined above ++ '/' :: joined below := by
  induction above with
  | nil => exact absurd rfl ha
  | cons s above ih =>
      cases above with
      | nil => simp [joined_cons hb]
      | cons t above =>
          have first := @joined_cons s (t :: above) (by simp)
          rw [List.cons_append, joined_cons (by simp), ih (by simp), first]
          simp

theorem cut_joined {segments : List (List Char)} (free : ∀ s ∈ segments, '/' ∉ s)
    (h : segments ≠ []) : cut (joined segments) = segments := by
  rw [cut_eq_splitOn]
  exact List.splitOn_intercalate '/' free h

theorem joined_cut (cs : List Char) : joined (cut cs) = cs := by
  rw [cut_eq_splitOn]
  exact List.intercalate_splitOn '/'

/-- Where a text of segments has a slash, one of its segments ends. -/
theorem joined_eq_iff {segments : List (List Char)} (free : ∀ s ∈ segments, '/' ∉ s)
    (h : segments ≠ []) {x u : List Char} : joined segments = x ++ '/' :: u ↔
      ∃ above below, segments = above ++ below ∧ above ≠ [] ∧ below ≠ [] ∧ x = joined above ∧
        u = joined below := by
  constructor
  · intro eq
    refine ⟨cut x, cut u, ?_, cut_ne_nil x, cut_ne_nil u, (joined_cut x).symm, (joined_cut u).symm⟩
    rw [← cut_slash, ← eq, cut_joined free h]
  · rintro ⟨above, below, rfl, ha, hb, rfl, rfl⟩
    exact joined_append ha hb

theorem mem_joined {segments : List (List Char)} {c : Char} (h : c ≠ '/') :
    c ∈ joined segments ↔ ∃ s ∈ segments, c ∈ s := by
  induction segments with
  | nil => simp [joined]
  | cons s rest ih =>
      cases rest with
      | nil => simp
      | cons t rest => simp [joined_cons, ih, h]

theorem cut_begins {n t : List Char} (free : '/' ∉ n) (ends : t = [] ∨ ∃ u, t = '/' :: u) :
    ∃ more, cut (n ++ t) = n :: more := by
  rcases ends with rfl | ⟨u, rfl⟩
  · exact ⟨[], by simp [cut_of_free free]⟩
  · exact ⟨cut u, by rw [cut_slash, cut_of_free free, List.singleton_append]⟩

theorem joined_begins (first : List Char) (rest : List (List Char)) :
    ∃ t, joined (first :: rest) = first ++ t ∧ (t = [] ∨ ∃ u, t = '/' :: u) := by
  cases rest with
  | nil => exact ⟨[], by simp, .inl rfl⟩
  | cons s rest => exact ⟨'/' :: joined (s :: rest), joined_cons (by simp), .inr ⟨_, rfl⟩⟩

/-- A text of segments begins with a whole segment exactly if that is its first. -/
theorem joined_begins_iff {first n : List Char} (free : '/' ∉ first) (free' : '/' ∉ n)
    (rest : List (List Char)) :
    (∃ t, joined (first :: rest) = n ++ t ∧ (t = [] ∨ ∃ u, t = '/' :: u)) ↔ first = n := by
  obtain ⟨t', eq', ends'⟩ := joined_begins first rest
  constructor
  · rintro ⟨t, eq, ends⟩
    obtain ⟨more, hn⟩ := cut_begins free' ends
    obtain ⟨more', hf⟩ := cut_begins free ends'
    rw [← eq', eq, hn] at hf
    exact (List.cons.inj hf).1.symm
  · rintro rfl
    exact ⟨t', eq', ends'⟩

theorem relativeText_toList (names : List String) :
    (Walk.relativeText names).toList = joined (names.map String.toList) := by
  simp [Walk.relativeText, joined, String.toList_intercalate]

/-- The segments of a path that is given by names. -/
def AreSegments (segments : List (List Char)) : Prop :=
    segments ≠ [] ∧ ∀ s ∈ segments, isName s = true ∧ '/' ∉ s

theorem AreSegments.free {segments : List (List Char)} (h : AreSegments segments) :
    ∀ s ∈ segments, '/' ∉ s :=
  fun s member => (h.2 s member).2

theorem AreSegments.below {above below : List (List Char)} (h : AreSegments (above ++ below))
    (hb : below ≠ []) : AreSegments below :=
  ⟨hb, fun s member => h.2 s (List.mem_append_right above member)⟩

theorem AreSegments.cut {above below : List (List Char)} (h : AreSegments (above ++ below))
    (ha : above ≠ []) : Path.cut (joined above) = above :=
  cut_joined (fun s member => h.free s (List.mem_append_left below member)) ha

theorem areSegments_names {names : List String} (h : names ≠ [])
    (proper : ∀ n ∈ names, IsProper n) : AreSegments (names.map String.toList) := by
  refine ⟨by simpa using h, fun s member => ?_⟩
  obtain ⟨n, inside, rfl⟩ := List.mem_map.mp member
  exact proper n inside

end Path

namespace Glob

open FileCensus.Path

/-- Nothing is taken off the head of a path that is given by names. -/
theorem subject_joined {segments : List (List Char)} (h : AreSegments segments) :
    subject (joined segments) = joined segments := by
  -- what would be taken off is a first segment that is empty or a dot
  have first : ∀ x u, isName x = false → Path.cut x = [x] → joined segments ≠ x ++ '/' :: u := by
    intro x u unnamed one eq
    obtain ⟨above, below, rfl, ha, -, rfl, -⟩ := (joined_eq_iff h.free h.1).mp eq
    rw [h.cut ha] at one
    have member : joined above ∈ above ++ below := by
      rw [one]
      simp
    rw [(h.2 _ member).1] at unnamed
    cases unnamed
  unfold subject
  split
  · next rest eq => exact absurd eq (first [] rest rfl rfl)
  · next rest eq => exact absurd eq (first ['.'] rest rfl rfl)
  · rfl

/-- Directories that a match may pass over. -/
def directories : Regex :=
    .optional (.seq someOnLine slash)

/-- A match that ends where a name ends. -/
def wholeName (r : Regex) : Regex :=
    .seq .empty (.seq r (.either slash .edge))

theorem leaves_slash {s t : List Char} : slash.Leaves s t ↔ s = '/' :: t := by
  simp [slash, Regex.Leaves, CharTest.holds]

theorem leaves_someOnLine {s t : List Char} :
    someOnLine.Leaves s t ↔ ∃ x, x ≠ [] ∧ '\n' ∉ x ∧ s = x ++ t := by
  simp only [someOnLine, Regex.Leaves, CharTest.holds, bne_iff_ne]
  constructor
  · rintro ⟨_, ⟨c, line, rfl⟩, run, others, rfl⟩
    refine ⟨c :: run, by simp, ?_, rfl⟩
    rintro (_ | ⟨_, inside⟩)
    · exact line rfl
    · exact others _ inside rfl
  · rintro ⟨x, nonempty, line, rfl⟩
    obtain ⟨c, run, rfl⟩ := List.exists_cons_of_ne_nil nonempty
    simp only [List.mem_cons, not_or] at line
    refine ⟨run ++ t, ⟨c, Ne.symm line.1, rfl⟩, run, fun d inside same => ?_, rfl⟩
    exact line.2 (same ▸ inside)

/-- What is passed over are whole directories, as far as their names hold no line feed. -/
theorem leaves_directories {segments : List (List Char)} (h : AreSegments segments)
    {t : List Char} : directories.Leaves (joined segments) t ↔
      ∃ above below, segments = above ++ below ∧ below ≠ [] ∧ (∀ d ∈ above, '\n' ∉ d) ∧
        t = joined below := by
  simp only [directories, Regex.optional, Regex.Leaves, leaves_someOnLine, leaves_slash]
  constructor
  · rintro (⟨_, ⟨x, nonempty, line, eq⟩, rfl⟩ | rfl)
    · obtain ⟨above, below, rfl, ha, hb, rfl, rfl⟩ := (joined_eq_iff h.free h.1).mp eq
      refine ⟨above, below, rfl, hb, fun d member feed => line ?_, rfl⟩
      exact (mem_joined (by decide)).mpr ⟨d, member, feed⟩
    · exact ⟨[], segments, rfl, h.1, by simp, rfl⟩
  · rintro ⟨above, below, rfl, hb, line, rfl⟩
    by_cases ha : above = []
    · subst ha
      exact .inr rfl
    · refine .inl ⟨_, ⟨joined above, ?_, ?_, joined_append ha hb⟩, rfl⟩
      · intro empty
        have one := h.cut ha
        rw [empty] at one
        have unnamed := (h.2 [] (by rw [← one]; simp [Path.cut])).1
        cases unnamed
      · rw [mem_joined (by decide)]
        rintro ⟨d, member, feed⟩
        exact line d member feed

theorem matchesHead_wholeName (r : Regex) (s : List Char) : (wholeName r).matchesHead s = true ↔
    ∃ t, r.Leaves s t ∧ ((∃ u, t = '/' :: u) ∨ Regex.atEdge t = true) := by
  simp only [Regex.matchesHead_iff, wholeName, Regex.Leaves, leaves_slash]
  constructor
  · rintro ⟨t, _, rfl, u, first, rfl | ⟨rfl, ends⟩⟩
    · exact ⟨_, first, .inl ⟨t, rfl⟩⟩
    · exact ⟨_, first, .inr ends⟩
  · rintro ⟨t, first, ⟨u, rfl⟩ | ends⟩
    · exact ⟨u, s, rfl, _, first, .inl rfl⟩
    · exact ⟨t, s, rfl, _, first, .inr ⟨rfl, ends⟩⟩

theorem matchesHead_below (r : Regex) {segments : List (List Char)} (h : AreSegments segments) :
    (Regex.seq directories (wholeName r)).matchesHead (joined segments) = true ↔
      ∃ above below, segments = above ++ below ∧ below ≠ [] ∧ (∀ d ∈ above, '\n' ∉ d) ∧
        (wholeName r).matchesHead (joined below) = true := by
  simp only [Regex.matchesHead_iff, Regex.Leaves, leaves_directories h]
  constructor
  · rintro ⟨t, _, ⟨above, below, rfl, hb, line, rfl⟩, rest⟩
    exact ⟨above, below, rfl, hb, line, t, rest⟩
  · rintro ⟨above, below, rfl, hb, line, t, rest⟩
    exact ⟨t, _, ⟨above, below, rfl, hb, line, rfl⟩, rest⟩

theorem segmentRegex_escape (c : Char) (rest : List Char) :
    segmentRegex? ('\\' :: c :: rest) = (segmentRegex? rest).map (.seq (.one (.exactly c))) := by
  rw [segmentRegex?, if_pos (by decide)]

theorem segmentRegex_plain {c : Char} (h : c ∉ ['\\', '*', '?', '[']) (rest : List Char) :
    segmentRegex? (c :: rest) = (segmentRegex? rest).map (.seq (.one (.exactly c))) := by
  simp only [List.mem_cons, List.not_mem_nil, or_false, not_or] at h
  rw [segmentRegex?.eq_def]
  simp [h.1, h.2.1, h.2.2.1, h.2.2.2]

section Body

variable {body : List Char}

/-- A line of one segment that is neither a star nor two may match below any directory. -/
theorem compileSegments_floating (free : '/' ∉ body) (nonempty : body ≠ [])
    (spanning : body ≠ ['*', '*']) (any : body ≠ ['*']) :
    compileSegments? (directoryOnly (cut body)) (segmentsOf (cut body)) =
      (segmentRegex? body).map fun r => .atHead (.seq directories (wholeName r)) := by
  have segments : segmentsOf (cut body) = [.spanning, .name body] := by
    simp [cut_of_free free, segmentsOf, anchorPieces, openEnd, nonempty, spanning, any,
      Segment.ofChars, collapse]
  rw [segments]
  cases found : segmentRegex? body <;>
    simp [compileSegments?, restRegex?, nameRegex?, found, ending, directories, wholeName]

/-- With a slash in front it has to match at the head. -/
theorem compileSegments_anchored (free : '/' ∉ body) (nonempty : body ≠ [])
    (spanning : body ≠ ['*', '*']) (any : body ≠ ['*']) :
    compileSegments? (directoryOnly (cut ('/' :: body))) (segmentsOf (cut ('/' :: body))) =
      (segmentRegex? body).map fun r => .atHead (wholeName r) := by
  have pieces : cut ('/' :: body) = [[], body] := by simp [cut, cut_of_free free]
  have segments : segmentsOf (cut ('/' :: body)) = [.name body] := by
    simp [pieces, segmentsOf, anchorPieces, openEnd, nonempty, spanning, any, Segment.ofChars,
      collapse]
  rw [segments]
  cases found : segmentRegex? body <;>
    simp [compileSegments?, restRegex?, nameRegex?, found, ending, wholeName]

end Body

end Glob
end FileCensus
