import FileCensus.Log.File
import FileCensus.Proofs.Output

/-!
The text of a log, line by line. A record that the log keeps has one line, which reads back as one
object with the record's level, name and message; a record that it does not keep leaves no trace. A
log keeps the records of the program's logger and of the loggers whose names continue its name with
a full stop, from the threshold on, if no second full stop follows at once. Where a second one does,
it depends on the loggers that are known.
-/

namespace FileCensus

namespace Log

/-! ## Loggers below the program's own -/

variable {known : List String} {c : Char} {rest : List Char}

theorem isBelow_stop (some : rest ≠ []) : isBelow known false ('.' :: rest) =
    if known.contains (String.ofList rest.reverse) then
      String.ofList rest.reverse == loggerName || isBelow known false rest
    else isBelow known true rest := by
  obtain ⟨d, further, rfl⟩ := List.exists_cons_of_ne_nil some
  rfl

theorem isBelow_plain (plain : c ≠ '.') :
    isBelow known false (c :: rest) = isBelow known false rest := by
  simp [isBelow, plain]

/-- A logger below the program's own has a name that continues the program's. The name is read
backwards. -/
theorem isBelow_continues {blind : Bool} {cs : List Char} (h : isBelow known blind cs = true) :
    (loggerName ++ ".").toList <+: cs.reverse := by
  induction cs generalizing blind with
  | nil => cases blind <;> cases h
  | cons c rest ih =>
      rw [List.reverse_cons]
      have further {blind : Bool} (h : isBelow known blind rest = true) :
          (loggerName ++ ".").toList <+: rest.reverse ++ [c] :=
        (ih h).trans (List.prefix_append ..)
      cases blind with
      | true => exact further h
      | false =>
          by_cases stop : c = '.'
          · subst stop
            have some : rest ≠ [] := by
              rintro rfl
              cases h
            rw [isBelow_stop some] at h
            split at h
            · rcases Bool.or_eq_true_iff.mp h with own | below
              · rw [← beq_iff_eq.mp own, String.toList_append, String.toList_ofList]
                exact List.prefix_rfl
              · exact further below
            · exact further h
          · rw [isBelow_plain stop] at h
            exact further h

/-- A name that continues the program's, if the next character is no full stop. The search comes to
the end of the program's name with its eyes open, as it has just seen a character that is no full
stop. -/
theorem isBelow_of_continues (own : known.contains loggerName = true) {blind : Bool}
    (single : rest.getLast? ≠ some '.') (seen : blind = true → rest ≠ []) :
    isBelow known blind (rest ++ '.' :: loggerName.toList.reverse) = true := by
  induction rest generalizing blind with
  | nil =>
      cases blind with
      | true => exact absurd rfl (seen rfl)
      | false =>
          have whole : String.ofList loggerName.toList.reverse.reverse = loggerName := rfl
          have some : loggerName.toList.reverse ≠ [] := by decide
          rw [List.nil_append, isBelow_stop some, whole, if_pos own]
          rfl
  | cons c rest ih =>
      have single' : rest.getLast? ≠ some '.' := by
        intro last
        rw [List.getLast?_cons, last] at single
        exact single rfl
      have further : isBelow known false (rest ++ '.' :: loggerName.toList.reverse) = true :=
        ih single' nofun
      cases blind with
      | true => exact further
      | false =>
          rw [List.cons_append]
          by_cases stop : c = '.'
          · subst stop
            rw [isBelow_stop (List.append_ne_nil_of_right_ne_nil _ (List.cons_ne_nil _ _))]
            split
            · rw [further, Bool.or_true]
            · refine ih single' fun _ none => single ?_
              rw [none]
              rfl
          · rw [isBelow_plain stop]
            exact further

/-- The program's logger, or one whose name continues the program's. -/
def isNamedOwn (logger : String) : Bool :=
    logger == loggerName || (loggerName ++ ".").toList.isPrefixOf logger.toList

/-- Whether a name continues the program's with two full stops in a row. -/
def isDoubled (logger : String) : Bool :=
    (loggerName ++ "..").toList.isPrefixOf logger.toList

theorem isNamedOwn_of_isOwn {logger : String} (h : isOwn known logger = true) :
    isNamedOwn logger = true := by
  rcases Bool.or_eq_true_iff.mp h with own | below
  · exact Bool.or_eq_true_iff.mpr (.inl own)
  · have continues := isBelow_continues below
    rw [List.reverse_reverse] at continues
    exact Bool.or_eq_true_iff.mpr (.inr (List.isPrefixOf_iff_prefix.mpr continues))

/-- Without two full stops in a row, it does not matter which loggers are known besides the
program's. -/
theorem isOwn_eq (own : known.contains loggerName = true) {logger : String}
    (single : isDoubled logger = false) : isOwn known logger = isNamedOwn logger := by
  rw [Bool.eq_iff_iff]
  refine ⟨isNamedOwn_of_isOwn, fun named => ?_⟩
  rcases Bool.or_eq_true_iff.mp named with same | continues
  · exact Bool.or_eq_true_iff.mpr (.inl same)
  · obtain ⟨rest, whole⟩ := List.isPrefixOf_iff_prefix.mp continues
    have next : rest.reverse.getLast? ≠ some '.' := by
      rw [List.getLast?_reverse]
      intro stop
      obtain ⟨further, rfl⟩ := List.head?_eq_some_iff.mp stop
      have doubled : isDoubled logger = true :=
        List.isPrefixOf_iff_prefix.mpr ⟨further, whole⟩
      rw [single] at doubled
      cases doubled
    have below : isBelow known false logger.toList.reverse = true := by
      rw [← whole, List.reverse_append]
      exact isBelow_of_continues own next nofun
    exact Bool.or_eq_true_iff.mpr (.inr below)

example : isOwn [loggerName] "treescan..a" = false := by cbv

example : isOwn [loggerName, "treescan."] "treescan..a" = true := by cbv

end Log

namespace Command

theorem toList_join_lineOf (lines : List String) : (String.join (lines.map lineOf)).toList =
    ['\n'].intercalate (lines.map String.toList ++ [[]]) := by
  induction lines with
  | nil => rfl
  | cons l lines ih =>
      have more : lines.map String.toList ++ [[]] ≠ [] :=
        List.append_ne_nil_of_right_ne_nil _ (List.cons_ne_nil _ _)
      obtain ⟨first, others, rest⟩ := List.exists_cons_of_ne_nil more
      rw [List.map_cons, String.join_cons, String.toList_append, ih, List.map_cons,
        List.cons_append, rest, List.intercalate_cons_cons, lineOf, String.toList_append]
      simp

/-- A text that lists values is cut at its line feeds into a line for each value, and nothing after
the last one. -/
theorem Lists.split {text : String} {values : List Json.Value} (h : Lists text values) :
    ∃ lines : List String, text.toList.splitOn '\n' = lines.map String.toList ++ [[]] ∧
      List.Forall₂ (fun l v => Json.parse? l = some v) lines values := by
  obtain ⟨lines, rfl, single, read⟩ := h
  refine ⟨lines, ?_, read⟩
  rw [toList_join_lineOf]
  have some : lines.map String.toList ++ [[]] ≠ [] :=
    List.append_ne_nil_of_right_ne_nil _ (List.cons_ne_nil _ _)
  refine List.splitOn_intercalate '\n' ?_ some
  intro piece mem
  rcases List.mem_append.mp mem with mem | mem
  · obtain ⟨l, inside, rfl⟩ := List.mem_map.mp mem
    exact single l inside
  · rw [List.mem_singleton.mp mem]
    exact List.not_mem_nil

end Command

namespace Log

/-! ## What a log is told -/

/-- A record on its way to the logs. -/
structure Call where
  logger : String
  level : Level
  thread : String
  message : String
  /-- The text of the failure that the record is about. -/
  exception : Option String
  time : String

namespace Call

def record (c : Call) : Record :=
    ⟨c.level.name, c.logger, c.thread, c.message, c.exception⟩

def value (c : Call) : Json.Value :=
    .obj (c.record.fields c.time)

theorem isPlain (c : Call) : c.value.isPlain = true := by
  cases given : c.exception <;>
    simp [value, record, Record.fields, given, Json.Value.isPlain, Json.arePlainFields]

end Call

def hear (log : Log) (c : Call) : Log :=
    log.add c.level c.record c.time

def follow (log : Log) (calls : List Call) : Log :=
    calls.foldl hear log

def keeps (log : Log) (c : Call) : Bool :=
    admits (log.knowing [c.logger]).known log.threshold c.logger c.level

/-- The calls whose records a log keeps. Each is decided by the loggers that are known when it
comes. -/
def kept (log : Log) : List Call → List Call
  | [] => []
  | c :: calls => (if log.keeps c then [c] else []) ++ (log.hear c).kept calls

/-- What a record adds to the text of a log. -/
def lineFor (log : Log) (c : Call) : String :=
    if log.keeps c then Command.lineOf c.value.text else ""

theorem hear_eq (log : Log) (c : Call) :
    log.hear c = { log.knowing [c.logger] with text := log.text ++ log.lineFor c } := by
  have whole : log.hear c =
      if log.keeps c then
        { log.knowing [c.logger] with text := log.text ++ c.record.line c.time ++ "\n" }
      else log.knowing [c.logger] := rfl
  rw [whole, lineFor]
  split
  · rw [String.append_assoc]
    rfl
  · rw [String.append_empty]
    rfl

theorem hear_threshold (log : Log) (c : Call) : (log.hear c).threshold = log.threshold := by
  rw [hear_eq]
  rfl

theorem lists_lineFor (log : Log) (c : Call) :
    Command.Lists (log.lineFor c) ((if log.keeps c then [c] else []).map Call.value) := by
  rw [lineFor]
  split
  · have line := Command.lists_text c.value
    rwa [Json.Value.reread_of_isPlain c.isPlain] at line
  · exact ⟨[], rfl, List.forall_mem_nil _, .nil⟩

theorem follow_text (log : Log) (calls : List Call) :
    ∃ text, (log.follow calls).text = log.text ++ text ∧
      Command.Lists text ((log.kept calls).map Call.value) := by
  induction calls generalizing log with
  | nil => exact ⟨"", String.append_empty.symm, [], rfl, List.forall_mem_nil _, .nil⟩
  | cons c calls ih =>
      obtain ⟨text, whole, lists⟩ := ih (log.hear c)
      refine ⟨log.lineFor c ++ text, ?_, ?_⟩
      · have step : log.follow (c :: calls) = (log.hear c).follow calls := rfl
        rw [step, whole, hear_eq, String.append_assoc]
      · rw [kept, List.map_append]
        exact (log.lists_lineFor c).append lists

/-- The records that a threshold lets through, by the names of their loggers. -/
def passes (threshold : Level) (c : Call) : Bool :=
    isNamedOwn c.logger && threshold.rank ≤ c.level.rank

theorem passes_of_keeps {log : Log} {c : Call} (h : log.keeps c = true) :
    passes log.threshold c = true := by
  obtain ⟨own, high⟩ := Bool.and_eq_true_iff.mp h
  exact Bool.and_eq_true_iff.mpr ⟨isNamedOwn_of_isOwn own, high⟩

theorem keeps_eq {log : Log} (own : loggerName ∈ log.known) {c : Call}
    (single : isDoubled c.logger = false) : log.keeps c = passes log.threshold c := by
  have own' : (log.knowing [c.logger]).known.contains loggerName = true :=
    List.contains_iff_mem.mpr (List.mem_append_left _ own)
  rw [keeps, admits, isOwn_eq own' single, passes]

/-- A log keeps nothing that is not to pass, and keeps the order. -/
theorem kept_sublist (log : Log) (calls : List Call) :
    (log.kept calls).Sublist (calls.filter (passes log.threshold)) := by
  induction calls generalizing log with
  | nil => exact .slnil
  | cons c calls ih =>
      have rest := ih (log.hear c)
      rw [hear_threshold] at rest
      rw [kept]
      cases kept : log.keeps c with
      | true =>
          rw [List.filter_cons_of_pos (passes_of_keeps kept)]
          exact rest.cons_cons c
      | false =>
          have less : (calls.filter (passes log.threshold)).Sublist
              ((c :: calls).filter (passes log.threshold)) :=
            (List.sublist_cons_self c calls).filter _
          exact rest.trans less

/-- Of the names without two full stops in a row, a log keeps all that are to pass. -/
theorem kept_single {log : Log} (own : loggerName ∈ log.known) (calls : List Call) :
    (log.kept calls).filter (!isDoubled ·.logger) =
      (calls.filter (passes log.threshold)).filter (!isDoubled ·.logger) := by
  induction calls generalizing log with
  | nil => rfl
  | cons c calls ih =>
      have own' : loggerName ∈ (log.hear c).known := by
        rw [hear_eq]
        exact List.mem_append_left _ own
      have rest := ih own'
      rw [hear_threshold] at rest
      rw [kept, List.filter_append, rest]
      cases doubled : isDoubled c.logger with
      | true =>
          have first : (if log.keeps c then [c] else []).filter (!isDoubled ·.logger) = [] := by
            split <;> simp [doubled]
          rw [first, List.nil_append]
          cases passed : passes log.threshold c <;> simp [passed, doubled]
      | false =>
          rw [keeps_eq own doubled]
          cases passed : passes log.threshold c <;> simp [passed, doubled]

/-- The line reads back as an object with what the record says. -/
def Tells (line : String) (c : Call) : Prop :=
    ∃ fields : Json.Fields, Json.parse? line = some (.obj fields) ∧
      fields.get? "level" = some (.str c.level.name) ∧ fields.get? "name" = some (.str c.logger) ∧
      fields.get? "message" = some (.str c.message) ∧
      fields.get? "exception" = c.exception.map Json.Value.str

/-- Cut at its line feeds, the text has a line for each of the records, and nothing after the
last. -/
def Lines (text : String) (calls : List Call) : Prop :=
    ∃ lines : List String, text.toList.splitOn '\n' = lines.map String.toList ++ [[]] ∧
      List.Forall₂ Tells lines calls

theorem Call.tells {line : String} {c : Call} (h : Json.parse? line = some c.value) :
    Tells line c := by
  refine ⟨_, h, rfl, rfl, rfl, ?_⟩
  cases given : c.exception <;> simp [record, Record.fields, given, Json.Fields.get?]

theorem lines_follow {log : Log} (empty : log.text = "") (calls : List Call) :
    Lines (log.follow calls).text (log.kept calls) := by
  obtain ⟨text, whole, lists⟩ := log.follow_text calls
  obtain ⟨lines, cut, read⟩ := lists.split
  rw [empty, String.empty_append] at whole
  rw [← whole] at cut
  rw [List.forall₂_map_right_iff] at read
  exact ⟨lines, cut, read.imp fun _ _ => Call.tells⟩

theorem ofName?_of_names {name spelling : String} {level : Level}
    (known : (name, level) ∈ Level.names) (spelled : spelling.map Level.upperChar = name) :
    Level.ofName? spelling = some level := by
  have each : ∀ entry ∈ Level.names, Level.names.lookup entry.1 = some entry.2 := by decide
  rw [Level.ofName?, spelled]
  exact each _ known

/-- A log has a line for each record that it keeps. It keeps none that is not to pass, and drops none
that is, except where two full stops in a row make the loggers that are known decide. -/
structure Faithful (log : Log) (threshold : Level) (calls : List Call) : Prop where
  lines : Lines (log.follow calls).text (log.kept calls)
  within : (log.kept calls).Sublist (calls.filter (passes threshold))
  single : (log.kept calls).filter (!isDoubled ·.logger) =
    (calls.filter (passes threshold)).filter (!isDoubled ·.logger)
  whole : (∀ c ∈ calls, isDoubled c.logger = false) →
    log.kept calls = calls.filter (passes threshold)

theorem faithful {log : Log} (empty : log.text = "") (own : loggerName ∈ log.known)
    (calls : List Call) : log.Faithful log.threshold calls where
  lines := lines_follow empty calls
  within := kept_sublist log calls
  single := kept_single own calls
  whole none := by
    have all : ∀ c ∈ calls.filter (passes log.threshold), (!isDoubled c.logger) = true := by
      intro c mem
      rw [none c (List.mem_of_mem_filter mem)]
      rfl
    have same := kept_single own calls
    have all' : ∀ c ∈ log.kept calls, (!isDoubled c.logger) = true :=
      fun c mem => all c ((kept_sublist log calls).mem mem)
    rwa [List.filter_eq_self.mpr all, List.filter_eq_self.mpr all'] at same

/-- A log in a file with nothing in it yet, whatever other loggers there are. -/
theorem openFile_faithful {fs parent after : FileSystem} {p : Path} {place : Place}
    {name spelling : String} {level : Level} (made : fs.makeParent p = .ok parent)
    (fresh : parent.openForAppending p 0 = .ok (after, place, []))
    (known : (name, level) ∈ Level.names) (spelled : spelling.map Level.upperChar = name) :
    ∃ log, openFile fs p spelling = .ok (after, log) ∧ log.file = some place ∧
      ∀ others calls, (log.knowing others).Faithful level.inForce calls := by
  refine ⟨⟨some place, "", level.inForce, [loggerName]⟩, ?_, rfl, fun others calls => ?_⟩
  · simp only [openFile, made, fresh, ofName?_of_names known spelled, bind, Except.bind]
    rfl
  · exact faithful rfl (List.mem_append_left _ List.mem_cons_self) calls

theorem openFile_faithful_mixed : ∃ parent after place,
    loopTree.makeParent ⟨.here, ["scan.log"]⟩ = .ok parent ∧
      parent.openForAppending ⟨.here, ["scan.log"]⟩ 0 = .ok (after, place, []) ∧
      ("WARNING", Level.warning) ∈ Level.names ∧ "wArNiNg".map Level.upperChar = "WARNING" ∧
      ∃ log, openFile loopTree ⟨.here, ["scan.log"]⟩ "wArNiNg" = .ok (after, log) ∧
        log.file = some place ∧
        ∀ others calls, (log.knowing others).Faithful Level.warning.inForce calls := by
  have made : loopTree.makeParent ⟨.here, ["scan.log"]⟩ = .ok loopTree := by cbv
  obtain ⟨after, fresh⟩ : ∃ after, loopTree.openForAppending ⟨.here, ["scan.log"]⟩ 0 =
      .ok (after, ["scan.log"], []) := ⟨_, by cbv⟩
  have known : ("WARNING", Level.warning) ∈ Level.names := by decide
  have spelled : "wArNiNg".map Level.upperChar = "WARNING" := by cbv
  exact ⟨_, _, _, made, fresh, known, spelled, openFile_faithful made fresh known spelled⟩

/-- A record of a logger with two full stops in a row. -/
def doubledCall : Call :=
    ⟨"treescan..a", .info, "MainThread", "m", none, ""⟩

theorem doubled_leaves_no_line : ∃ fs log,
    openFile loopTree ⟨.here, ["scan.log"]⟩ "INFO" = .ok (fs, log) ∧
      doubledCall.logger.startsWith "treescan." = true ∧
      ¬ Lines (log.follow [doubledCall]).text ([doubledCall].filter (passes Level.info)) := by
  obtain ⟨fs, opened⟩ : ∃ fs, openFile loopTree ⟨.here, ["scan.log"]⟩ "INFO" =
      .ok (fs, ⟨some ["scan.log"], "", .info, [loggerName]⟩) := ⟨_, by cbv⟩
  refine ⟨_, _, opened, by cbv, ?_⟩
  rintro ⟨lines, cut, told⟩
  have dropped : keeps ⟨some ["scan.log"], "", .info, [loggerName]⟩ doubledCall = false := by cbv
  have empty : (follow ⟨some ["scan.log"], "", .info, [loggerName]⟩ [doubledCall]).text = "" := by
    have step : (follow ⟨some ["scan.log"], "", .info, [loggerName]⟩ [doubledCall]).text =
        (hear ⟨some ["scan.log"], "", .info, [loggerName]⟩ doubledCall).text := rfl
    rw [step, hear_eq, lineFor, dropped]
    rfl
  have passed : [doubledCall].filter (passes Level.info) = [doubledCall] := by cbv
  rw [empty] at cut
  rw [passed] at told
  cases told with
  | cons _ none =>
      have lengths := congrArg List.length cut
      simp at lengths

end Log

end FileCensus
