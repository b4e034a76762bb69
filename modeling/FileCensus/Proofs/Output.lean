import FileCensus.Command.Run
import FileCensus.Proofs.Settlement

/-!
What a command puts out when no write is refused: the entries of its roots one after the other, and a
summary. Nothing of this depends on the order in which the threads have their turns or on the size of
the queue; only a limit on the number of turns may keep the command from its end.
-/

namespace FileCensus

namespace Json

/-! A text is on one line. -/

theorem IsWord.line {w : List Char} (h : IsWord w) : '\n' ∉ w := by
  intro mem
  have plain := h.plain _ mem
  revert plain
  decide

theorem hexDigits_line (width n : Nat) : '\n' ∉ Text.hexDigits width n := by
  induction width generalizing n with
  | zero => exact List.not_mem_nil
  | succ width ih =>
      rw [Text.hexDigits, List.mem_append, not_or, List.mem_singleton]
      refine ⟨ih _, ?_⟩
      have other : ∀ d < 16, '\n' ≠ Text.hexDigit d := by decide
      exact other _ (Nat.mod_lt _ (by omega))

theorem escapeChar_line (c : Char) : '\n' ∉ escapeChar c := by
  by_cases same : c = '\n'
  · subst same
    decide
  · simp only [escapeChar]
    split
    · simp [Ne.symm same]
    · repeat' split
      all_goals first
        | decide
        | simp [Ne.symm same, hexDigits_line]

theorem stringText_line (s : String) : '\n' ∉ stringText s := by
  have inner : '\n' ∉ s.toList.flatMap escapeChar := by
    rw [List.mem_flatMap]
    rintro ⟨c, -, mem⟩
    exact escapeChar_line c mem
  simp [stringText, inner]

theorem Value.chars_line (v : Value) : '\n' ∉ v.chars := by
  induction v using Value.induct with
  | null => decide
  | bool b => cases b <;> decide
  | int n => exact (isWord_intText n).line
  | float x => exact (isWord_floatText x).line
  | str s => exact stringText_line s
  | arr items ih =>
      have inner : '\n' ∉ itemChars items := by
        induction items with
        | nil => exact List.not_mem_nil
        | cons v items rest =>
            rw [List.forall_mem_cons] at ih
            have rest := rest ih.2
            cases items with
            | nil => exact ih.1
            | cons w items => simp [itemChars, ih.1, rest]
      simp [Value.chars, inner]
  | obj fields ih =>
      have inner : '\n' ∉ fieldChars fields := by
        induction fields with
        | nil => exact List.not_mem_nil
        | cons p fields rest =>
            obtain ⟨n, v⟩ := p
            rw [List.forall_mem_cons] at ih
            have rest := rest ih.2
            cases fields with
            | nil => simp [fieldChars, stringText_line, ih.1]
            | cons q fields => simp [fieldChars, stringText_line, ih.1, rest]
      simp [Value.chars, inner]

/-- The double that the text of a double is read as. -/
def rereadDouble (x : Float) : Float :=
    match (Value.float x).reread with
    | .float y => y
    | _ => x

theorem reread_float (x : Float) : (Value.float x).reread = .float (rereadDouble x) := by
  obtain ⟨y, written⟩ := wordValue?_floatText x
  simp only [rereadDouble, Value.reread, written, Option.getD_some]

end Json

/-- A report as it is read back; only the duration is not certain to be the same. -/
def JobReport.reread (r : JobReport) : JobReport :=
    { r with statistics := { r.statistics with duration := Json.rereadDouble r.statistics.duration } }

/-- A summary as it is read back. -/
def Census.Summary.reread (s : Census.Summary) : Census.Summary :=
    ⟨s.queued, s.jobs.map (·.reread)⟩

namespace Json

theorem rereadItems_map (items : List Value) : rereadItems items = items.map (·.reread) := by
  induction items with
  | nil => rfl
  | cons v items ih => rw [rereadItems, ih, List.map_cons]

/-- A name that stands once keeps its place. -/
theorem reread_obj {fields : Fields} (distinct : (fields.map (·.1)).Nodup) :
    (Value.obj fields).reread = .obj (fields.map fun p => (p.1, p.2.reread)) := by
  have pairs : rereadFields fields = fields.map fun p => (p.1, p.2.reread) := by
    clear distinct
    induction fields with
    | nil => rfl
    | cons p fields ih =>
        obtain ⟨n, v⟩ := p
        rw [rereadFields, ih, List.map_cons]
  rw [Value.reread, pairs, Fields.ofPairs_of_nodup]
  simpa [Function.comp_def] using distinct

end Json

open Json

theorem Statistics.reread_errors (errors : List ErrorRecord) :
    (Value.arr (errors.map Statistics.errorValue)).reread =
      .arr (errors.map Statistics.errorValue) := by
  rw [Value.reread, rereadItems_map, List.map_map]
  refine congrArg Value.arr (List.map_congr_left fun e _ => ?_)
  exact Value.reread_of_isPlain (by simp [Statistics.errorValue, Value.isPlain, arePlainFields])

theorem JobReport.distinct (r : JobReport) : (r.fields.map (·.1)).Nodup := by
  cases error : r.error <;> simp [fields, Statistics.fields, error]

theorem JobReport.reread_fields (r : JobReport) :
    (Value.obj r.fields).reread = .obj r.reread.fields := by
  rw [reread_obj r.distinct]
  cases error : r.error <;>
    simp only [fields, Statistics.fields, reread, error, Option.map_some, Option.map_none,
      Option.toList_some, Option.toList_none, List.cons_append, List.nil_append, List.map_cons,
      List.map_nil, reread_float, Statistics.reread_errors] <;>
    rfl

theorem Census.Summary.reread_fields (s : Census.Summary) :
    (Value.obj s.fields).reread = .obj s.reread.fields := by
  have jobs : (Value.arr (s.jobs.map fun j => .obj j.fields)).reread =
      .arr (s.reread.jobs.map fun j => .obj j.fields) := by
    rw [Value.reread, rereadItems_map, List.map_map, Summary.reread, List.map_map]
    exact congrArg Value.arr (List.map_congr_left fun j _ => j.reread_fields)
  rw [reread_obj (by simp [fields])]
  simp only [fields, List.map_cons, List.map_nil, jobs]
  rfl

theorem FileEntry.isPlain (e : FileEntry) : (Value.obj e.fields).isPlain = true := by
  simp [fields, Value.isPlain, arePlainFields]

namespace Command

/-- A text with one line for each of these values, from which the value is read back. -/
def Lists (text : String) (values : List Value) : Prop :=
    ∃ lines : List String, text = String.join (lines.map lineOf) ∧ (∀ l ∈ lines, '\n' ∉ l.toList) ∧
      List.Forall₂ (fun l v => parse? l = some v) lines values

theorem Lists.append {text text' : String} {values values' : List Value} (h : Lists text values)
    (h' : Lists text' values') : Lists (text ++ text') (values ++ values') := by
  obtain ⟨lines, rfl, single, read⟩ := h
  obtain ⟨lines', rfl, single', read'⟩ := h'
  refine ⟨lines ++ lines', ?_, ?_, List.rel_append read read'⟩
  · rw [List.map_append, String.join_append]
  · exact List.forall_mem_append.mpr ⟨single, single'⟩

theorem lists_text (v : Value) : Lists (lineOf v.text) [v.reread] := by
  refine ⟨[v.text], by simp, ?_, .cons (parse?_text v) .nil⟩
  rw [List.forall_mem_singleton, Value.text, String.toList_ofList]
  exact v.chars_line

theorem lists_entries (entries : List FileEntry) :
    Lists (String.join (entries.map entryLine)) (entries.map fun e => .obj e.fields) := by
  induction entries with
  | nil => exact ⟨[], rfl, List.forall_mem_nil _, .nil⟩
  | cons e entries ih =>
      have first := lists_text (.obj e.fields)
      rw [Value.reread_of_isPlain e.isPlain] at first
      rw [List.map_cons, String.join_cons]
      exact first.append ih

end Command

def payloadsOf (entries : List FileEntry) : List Value :=
    entries.map fun e => .obj e.fields

/-- The summary of shares: how many entries they have together, and a report on each. -/
def summaryOf (shares : List Share) : Census.Summary :=
    ⟨(shares.map (·.report.statistics.queued)).sum, shares.map (·.report)⟩

namespace Command.Report

/-- The payloads of these entries are on the array, if there is one, or else on lines of the output;
there they are followed by others. -/
structure Holds (report : Report) (output : Option Place) (entries : List FileEntry)
    (others : List Value) : Prop where
  out : Lists report.out ((if output.isSome then [] else payloadsOf entries) ++ others)
  array : ∀ place, output = some place → ∃ (before : FileSystem) (text : String),
    report.fs = before.writeBytes place text.toUTF8.toList 0 ∧
      parse? text = some (.arr (payloadsOf entries))

/-- What a command leaves behind of the shares of its roots. -/
structure Presents (report : Report) (output : Option Place) (shares : List Share) : Prop where
  code : report.code = if ∀ x ∈ shares, x.report.status = .completed then 0 else 1
  holds : report.Holds output (Share.concat shares) [.obj (summaryOf shares).reread.fields]
  counted : (summaryOf shares).queued = (payloadsOf (Share.concat shares)).length

end Command.Report

/-- What a command answers when all the shares of its roots have been written. The write of the
summary is still to come then, and its failure is passed on. -/
def Command.Concludes (env : Environment) (output : Option Place) (shares : List Share)
    (answer : Except Failure Report) : Prop :=
    match env.summaryRefusal output (Share.concat shares).length with
    | some f => answer = .error f
    | none => ∃ report, answer = .ok report ∧ report.Presents output shares

namespace Census

/-- There is an array from the start on or never. -/
theorem follow_writer (p : Plan) (c : Census) (turns : List Turn) :
    (c.follow p turns).writer.isSome = c.writer.isSome := by
  induction turns generalizing c with
  | nil => rfl
  | cons t turns ih =>
      refine (ih (c.step p t)).trans ?_
      cases t with
      | main => exact (c.proceeds p).outputs.array
      | worker => rfl

end Census

namespace Command

variable {env : Environment} {fs : FileSystem} {log : Log} {r : Request} {settings : Settings}
  {output : Option Place} {shares : List Share} {c : Census}

theorem total_queued {s : Settings} {w : Surroundings FileEntry} {roots : List Path}
    (given : List.Forall₂ (fun root x => x.Tallies s w fs root) roots shares) :
    (summaryOf shares).queued = (payloadsOf (Share.concat shares)).length := by
  rw [payloadsOf, List.length_map, Share.concat, List.length_flatMap]
  change (shares.map (·.report.statistics.queued)).sum = _
  induction given with
  | nil => rfl
  | cons tallies _ ih => rw [List.map_cons, List.map_cons, List.sum_cons, List.sum_cons, ih,
      tallies.queued]

/-- Once the array is closed, what was written is there, or else on the output. -/
theorem holds_of_recorded {report : Report} (recorded : c.Recorded) (closed : c.stage.isOpen = false)
    (writer : c.writer.isSome = output.isSome) {last : String} {others : List Value}
    (lists : Lists last others) (out : report.out = entriesText c ++ last)
    (files : report.fs = saved fs log output c) : report.Holds output c.written others where
  out := by
    rw [out]
    refine Lists.append ?_ lists
    rw [entriesText, writer]
    cases output with
    | none => exact lists_entries _
    | some place => exact ⟨[], rfl, List.forall_mem_nil _, .nil⟩
  array := by
    rintro place rfl
    obtain ⟨w, array⟩ := Option.isSome_iff_exists.mp writer
    have whole := recorded w array
    rw [closed] at whole
    refine ⟨_, w.text, by simp only [files, saved, array]; rfl, ?_⟩
    rw [Json.ArrayWriter.IsSealed.document whole]
    have plain : ∀ fields ∈ c.written.map FileEntry.fields, (Value.obj fields).isPlain = true :=
      List.forall_mem_map.mpr fun e _ => e.isPlain
    rw [Value.reread_of_isPlain (v := .arr _) (arePlain_objects plain), payloadsOf, List.map_map]
    rfl

/-- A census in which nothing went wrong, when it is over. -/
theorem concludes_of_clean (clean : c.Clean (planOf env fs r output) settings fs)
    (ended : c.isEnded = true) (writer : c.writer.isSome = output.isSome)
    (given : List.Forall₂ (IsShare settings (surroundingsOf env fs r)) r.roots shares)
    (counted : (summaryOf shares).queued = (payloadsOf (Share.concat shares)).length) :
    Concludes env output shares (reportOf env fs log r output c) := by
  have stage : c.stage = .ended none := by
    rw [Census.stage_of_isEnded ended, clean.calm.blameless]
  obtain ⟨written, summary⟩ := clean.delivers (by rw [stage]; rfl) given
  have summary : c.summary = some (summaryOf shares) := by
    have counted : c.written.length = (summaryOf shares).queued := by
      rw [written, counted, payloadsOf, List.length_map]
    rw [summary, counted]
    rfl
  have same : c.writes.length = (Share.concat shares).length := by
    rw [← List.length_reverse]
    exact congrArg List.length written
  rw [Concludes, ← same]
  cases refusal : env.summaryRefusal output c.writes.length with
  | some f =>
      have decided : verdict (some f) c = .error f := by simp only [verdict, stage, summary]
      simp only [reportOf, refusal, decided]
      rfl
  | none =>
      have decided : verdict none c = .ok (if (summaryOf shares).isComplete then 0 else 1,
          summaryLine (summaryOf shares), "") := by
        simp only [verdict, stage, summary]
      have lists : Lists (summaryLine (summaryOf shares)) [.obj (summaryOf shares).reread.fields] :=
        (summaryOf shares).reread_fields ▸ lists_text _
      refine ⟨_, by rw [reportOf, refusal, decided]; rfl, ?_, ?_, counted⟩
      · simp [Census.Summary.isComplete, summaryOf]
      · rw [← written]
        exact holds_of_recorded clean.recorded (by rw [stage]; rfl) writer lists rfl rfl

/-- The words of a command line hold no NUL, the only character that can keep a root from being
submitted. -/
theorem plans_of_sound (sound : ∀ root ∈ r.roots, ∀ name ∈ root.names, '\x00' ∉ name.toList) :
    ∀ root ∈ r.roots, ∃ q, settings.plan (surroundingsOf env fs r) root = .ok q := by
  intro root mem
  have plain : root.names.any (·.contains '\x00') = false := by
    simpa [List.any_eq_false] using sound root mem
  obtain ⟨marks, asked⟩ := FileSystem.supportsMarks_ok plain
  exact Settings.plan_ok asked

theorem clean_censusOf (env : Environment) (fs : FileSystem) (settings : Settings)
    (output : Option Place) (positive : 0 < r.queueSize) :
    (censusOf r settings output).Clean (planOf env fs r output) settings fs := by
  refine Census.clean_start (planOf env fs r output) settings fs
    (by simpa using Nat.ne_of_gt positive) ?_
  rintro w some
  cases output with
  | none => cases some
  | some place => cases some; rfl

theorem writer_censusOf (plan : Census.Plan) (r : Request) (settings : Settings)
    (output : Option Place) (turns : List Census.Turn) :
    ((censusOf r settings output).follow plan turns).writer.isSome = output.isSome := by
  rw [Census.follow_writer]
  cases output <;> rfl

/-- The command brings its census to an end and reports on it. -/
theorem carryOut_eq (env : Environment) (log : Log) {r : Request} {before : FileSystem}
    (set : settingsOf before r = .ok settings) (opened : openOutput before r = .ok (fs, output))
    (m : Nat) :
    ∃ turns, carryOut m env before log r = reportOf env fs log r output
        ((censusOf r settings output).follow (planOf env fs r output) turns) ∧
      (censusOf r settings output).run (planOf env fs r output) m =
        (censusOf r settings output).follow (planOf env fs r output) turns := by
  obtain ⟨turns, same⟩ := Census.run_eq_follow (planOf env fs r output) m
    (censusOf r settings output)
  refine ⟨turns, ?_, same⟩
  simp only [carryOut, set, opened, conduct, same]

/-- The entries that a command puts out are those of its roots, one root after the other. Each root
gives entries of the first of its accepted files, and of all if it is completed; what it gives is the
same in every order of turns and with every queue, and so is what the command leaves behind. -/
theorem puts_out_shares {before : FileSystem} (set : settingsOf before r = .ok settings)
    (opened : openOutput before r = .ok (fs, output)) (wf : fs.WellFormed)
    (sound : ∀ root ∈ r.roots, ∀ name ∈ root.names, '\x00' ∉ name.toList)
    (willing : ∀ k, (planOf env fs r output).refusal k = none) :
    ∃ shares, List.Forall₂ (fun root x => IsShare settings (surroundingsOf env fs r) root x ∧
        x.Tallies settings (surroundingsOf env fs r) fs root) r.roots shares ∧
      ∀ size, 0 < size →
        let r := { r with queueSize := size }
        let plan := planOf env fs r output
        let start := censusOf r settings output
        (∀ turns, (start.follow plan turns).isEnded = true →
          (start.follow plan turns).scanner.jobs.map (fun j => ⟨j.walk.put, j.report⟩) = shares ∧
          Concludes env output shares (reportOf env fs log r output (start.follow plan turns))) ∧
        (∀ turns, Census.IsFair turns →
          ∃ n, ∀ m, n ≤ m → (start.after plan turns m).isEnded = true) ∧
        ∃ n, ∀ m, n ≤ m → Concludes env output shares (carryOut m env before log r) := by
  have reads : (surroundingsOf env fs r).probe.Reads fs := fs.probe_reads _
  have plans : ∀ root ∈ r.roots, ∃ q, settings.plan (surroundingsOf env fs r) root = .ok q :=
    plans_of_sound sound
  obtain ⟨shares, given⟩ := exists_shares wf reads plans
  have tallies := given.imp fun _ _ share => IsShare.tallies share wf reads
  refine ⟨shares, given.imp fun _ _ share => ⟨share, share.tallies wf reads⟩, fun size positive => ?_⟩
  intro r' plan start
  have clean : start.Clean plan settings fs := clean_censusOf env fs settings output positive
  have presents (turns : List Census.Turn) (ended : (start.follow plan turns).isEnded = true) :
      (start.follow plan turns).scanner.jobs.map (fun j => ⟨j.walk.put, j.report⟩) = shares ∧
      Concludes env output shares (reportOf env fs log r' output (start.follow plan turns)) := by
    have clean := clean.follow wf reads plans willing turns
    have reported := Census.Stage.isReported_of_isEnded ended
    exact ⟨clean.shares (clean.through reported) given, concludes_of_clean clean ended
      (writer_censusOf plan r' settings output turns) given (total_queued tallies)⟩
  refine ⟨presents, fun turns fair => clean.runs.ends_of_fair wf reads fair, ?_⟩
  obtain ⟨n, ends⟩ := clean.runs.run_ends wf reads
  refine ⟨n, fun m le => ?_⟩
  obtain ⟨turns, carried, same⟩ := carryOut_eq env log (r := r') set opened m
  rw [carried]
  exact (presents turns (same ▸ ends m le)).2

/-- A directory that holds a file and a link to itself, and nothing that is refused. -/
def loopEnvironment : Environment :=
    ⟨loopTree, 0, "", fun _ => none, fun _ => none⟩

def loopRequest : Request :=
    { Request.usual with roots := [⟨.here, []⟩, ⟨.here, ["missing"]⟩] }

theorem loop_puts_out_shares : loopTree.WellFormed ∧ ∃ shares,
    List.Forall₂ (fun root x => IsShare .usual (surroundingsOf loopEnvironment loopTree loopRequest)
        root x ∧ x.Tallies .usual (surroundingsOf loopEnvironment loopTree loopRequest) loopTree root)
      loopRequest.roots shares ∧
    ∃ n, ∀ m, n ≤ m → ∃ report,
      carryOut m loopEnvironment loopTree (.toStream .info) loopRequest = .ok report ∧
        report.Presents none shares := by
  have whole := @puts_out_shares loopEnvironment loopTree (.toStream .info) loopRequest .usual none
    loopTree rfl rfl loopTree_wellFormed (by simp [loopRequest]) fun _ => rfl
  obtain ⟨shares, given, all⟩ := whole
  exact ⟨loopTree_wellFormed, shares, given, (all 1024 (by decide)).2.2⟩

end Command
end FileCensus
