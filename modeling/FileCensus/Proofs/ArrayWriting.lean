import FileCensus.Proofs.Printing

/-!
What is written to an array, by any sequence of operations. The first close or exit decides: the
objects written before it are the array, in their order, and no operation after it changes anything.
All of them must be printable; one that is not is left unfinished in the array.
-/

namespace FileCensus.Json

theorem arePlain_objects {payloads : List Fields}
    (plain : ∀ fields ∈ payloads, (Value.obj fields).isPlain = true) :
    arePlain (payloads.map .obj) = true := by
  induction payloads with
  | nil => rfl
  | cons fields payloads ih =>
      rw [List.forall_mem_cons] at plain
      exact Bool.and_eq_true_iff.mpr ⟨plain.1, ih plain.2⟩

theorem itemTokens_append (items : List Value) (v : Value) :
    itemTokens (items ++ [v]) =
      if items = [] then v.tokens else itemTokens items ++ .comma :: v.tokens := by
  induction items with
  | nil => rfl
  | cons w items ih =>
      cases items with
      | nil => rfl
      | cons u items => simpa [itemTokens] using ih

namespace ArrayWriter

/-- What can be asked of a writer; an exit may be due to a failure. -/
inductive Op where
  | write (fields : Fields)
  | count
  | close
  | enter
  | exit (cause : Option Failure)

def Op.payload? : Op → Option Fields
  | .write fields => some fields
  | _ => none

def Op.closes : Op → Bool
  | .close | .exit _ => true
  | _ => false

theorem Op.payload?_of_closes {op : Op} (closes : op.closes = true) : op.payload? = none := by
  cases op with
  | close | exit => rfl
  | write | count | enter => cases closes

/-- The writer after an operation, also after one that raises. -/
def perform (w : ArrayWriter) : Op → Except (Failure × ArrayWriter) ArrayWriter
  | .write fields => w.write fields
  | .count | .enter => .ok w
  | .close | .exit _ => .ok w.close

def step (w : ArrayWriter) (op : Op) : ArrayWriter :=
    match w.perform op with
    | .ok w => w
    | .error (_, w) => w

def follow (w : ArrayWriter) (ops : List Op) : ArrayWriter :=
    ops.foldl step w

/-- The objects written before the first close or exit. -/
def payloads (ops : List Op) : List Fields :=
    (ops.takeWhile fun op => !op.closes).filterMap Op.payload?

/-- An open writer with these objects: what has been written so far is the front of an array. -/
structure Holds (w : ArrayWriter) (payloads : List Fields) : Prop where
  isOpen : w.isClosed = false
  count : w.count = payloads.length
  lexed : ∀ rest, Ends rest → lexFrom .between [] (w.text.toList ++ rest) =
    lexFrom .between (.openArray :: itemTokens (payloads.map .obj)).reverse rest

/-- A closed writer with these objects. -/
structure IsSealed (w : ArrayWriter) (payloads : List Fields) : Prop where
  isClosed : w.isClosed = true
  count : w.count = payloads.length
  document : parse? w.text = some (Value.arr (payloads.map .obj)).reread

theorem holds_start : start.Holds [] where
  isOpen := rfl
  count := rfl
  lexed := fun _ _ => rfl

theorem Holds.write {w : ArrayWriter} {payloads : List Fields} (h : w.Holds payloads)
    {fields : Fields} (printable : (Value.obj fields).isPrintable = true) :
    ∃ next, w.write fields = .ok next ∧ next.Holds (payloads ++ [fields]) := by
  have written := w.write_of_isPrintable printable
  rw [if_neg (by simp [h.isOpen])] at written
  refine ⟨_, written, rfl, ?_, ?_⟩
  · simp [h.count]
  · intro rest ends
    have last := (Value.obj fields).lexes
    have object : (String.ofList (Value.obj fields).chars).toList = (Value.obj fields).chars :=
      String.toList_ofList
    rw [List.map_append, List.map_singleton, itemTokens_append]
    cases payloads with
    | nil =>
        have none : w.count = 0 := h.count
        have opened := h.lexed ((Value.obj fields).chars ++ rest) (.cons (by decide) _)
        simp only [none, if_true, String.toList_append, object, List.append_assoc]
        rw [show "".toList = [] from rfl, List.nil_append, opened, last _ _ ends]
        simp [itemTokens]
    | cons first payloads =>
        have some : w.count ≠ 0 := by simp [h.count]
        have before := h.lexed (",\n".toList ++ ((Value.obj fields).chars ++ rest)) (.comma _)
        have comma (done : List Token) (cs : List Char) :
            lexFrom .between done (",\n".toList ++ cs) = lexFrom .between (.comma :: done) cs := rfl
        simp only [if_neg some, String.toList_append, object, List.append_assoc]
        rw [before, comma, last _ _ ends]
        simp

theorem Holds.close {w : ArrayWriter} {payloads : List Fields} (h : w.Holds payloads) :
    w.close.IsSealed payloads := by
  have closing : w.close = { w with text := w.text ++ "\n]\n", isClosed := true } := by
    rw [ArrayWriter.close, if_neg (by simp [h.isOpen])]
  refine ⟨by rw [closing], by rw [closing]; exact h.count, ?_⟩
  have inner := h.lexed "\n]\n".toList (.cons (by decide) _)
  have outer (done : List Token) :
      lexFrom .between done "\n]\n".toList = some (.closeArray :: done).reverse := rfl
  refine parse?_of_lex ?_
  rw [closing, lex, String.toList_append, inner, outer]
  simp [Value.tokens]

theorem IsSealed.close {w : ArrayWriter} {payloads : List Fields} (h : w.IsSealed payloads) :
    w.close = w := by
  rw [ArrayWriter.close, if_pos h.isClosed]

theorem IsSealed.write {w : ArrayWriter} {payloads : List Fields} (h : w.IsSealed payloads)
    (fields : Fields) : w.write fields = .error (.fileClosed, w) := by
  rw [ArrayWriter.write, if_pos h.isClosed]

theorem IsSealed.step {w : ArrayWriter} {payloads : List Fields} (h : w.IsSealed payloads)
    (op : Op) : w.step op = w := by
  cases op with
  | write fields => rw [ArrayWriter.step, perform, h.write fields]
  | count | enter => rfl
  | close | exit => simp only [ArrayWriter.step, perform, h.close]

theorem IsSealed.follow {w : ArrayWriter} {payloads : List Fields} (h : w.IsSealed payloads)
    (ops : List Op) : w.follow ops = w := by
  induction ops with
  | nil => rfl
  | cons op ops ih => rwa [ArrayWriter.follow, List.foldl_cons, h.step]

/-- An operation on an open writer: it adds its object, or seals the array. -/
theorem Holds.step {w : ArrayWriter} {payloads : List Fields} (h : w.Holds payloads) {op : Op}
    (printable : ∀ fields ∈ op.payload?, (Value.obj fields).isPrintable = true) :
    if op.closes then (w.step op).IsSealed payloads
      else (w.step op).Holds (payloads ++ op.payload?.toList) := by
  cases op with
  | write fields =>
      obtain ⟨next, written, holds⟩ := h.write (printable fields rfl)
      have same : w.step (.write fields) = next := by rw [ArrayWriter.step, perform, written]
      rw [same]
      exact holds
  | count | enter => simpa [Op.closes, Op.payload?, ArrayWriter.step, perform] using h
  | close | exit => exact h.close

theorem payloads_cons_of_stays {op : Op} (stays : op.closes = false) (ops : List Op) :
    payloads (op :: ops) = op.payload?.toList ++ payloads ops := by
  cases payload : op.payload? <;> simp [payloads, stays, payload]

theorem Holds.follow {w : ArrayWriter} {before : List Fields} (h : w.Holds before) {ops : List Op}
    (printable : ∀ fields ∈ payloads ops, (Value.obj fields).isPrintable = true) :
    if ops.any Op.closes then (w.follow ops).IsSealed (before ++ payloads ops)
      else (w.follow ops).Holds (before ++ payloads ops) := by
  induction ops generalizing w before with
  | nil => simpa [payloads, ArrayWriter.follow] using h
  | cons op ops ih =>
      rw [ArrayWriter.follow, List.foldl_cons]
      cases closes : op.closes with
      | true =>
          have none : ∀ fields ∈ op.payload?, (Value.obj fields).isPrintable = true := by
            simp [Op.payload?_of_closes closes]
          have one := h.step none
          rw [if_pos closes] at one
          have rest := one.follow ops
          rw [ArrayWriter.follow] at rest
          simpa [payloads, closes, rest] using one
      | false =>
          rw [payloads_cons_of_stays closes, List.forall_mem_append] at printable
          have given : ∀ fields ∈ op.payload?, (Value.obj fields).isPrintable = true :=
            fun fields h => printable.1 fields (Option.mem_toList.mpr h)
          have one := h.step given
          rw [if_neg (by simp [closes])] at one
          simpa [closes, payloads_cons_of_stays closes, ArrayWriter.follow] using ih one printable.2

/-- Closed at the end, the writer holds the objects that were written before the first close. -/
theorem isSealed_follow {ops : List Op}
    (printable : ∀ fields ∈ payloads ops, (Value.obj fields).isPrintable = true) :
    (start.follow ops).close.IsSealed (payloads ops) := by
  have whole := holds_start.follow printable
  split at whole
  · rwa [whole.close]
  · exact whole.close

/-- After any operations the text, once closed, is the array of the objects that were written before
the first close or exit, provided that these are printable. Closing again and writing afterwards
change nothing. -/
theorem follow_decodes (ops : List Op)
    (plain : ∀ fields ∈ payloads ops, (Value.obj fields).isPlain = true)
    (printable : ∀ fields ∈ payloads ops, (Value.obj fields).isPrintable = true) :
    parse? (start.follow ops).close.text = some (.arr ((payloads ops).map .obj)) ∧
      (start.follow ops).count = (payloads ops).length ∧
      (start.follow ops).isClosed = ops.any Op.closes ∧
      (start.follow ops).close.close = (start.follow ops).close ∧
      ((start.follow ops).isClosed = true →
        (∀ fields, (start.follow ops).perform (.write fields) =
          .error (.fileClosed, start.follow ops)) ∧
        ∀ op, (start.follow ops).step op = start.follow ops) := by
  have ended := isSealed_follow printable
  have whole := holds_start.follow printable
  refine ⟨?_, ?_, ?_, ended.close, fun closed => ?_⟩
  · rw [ended.document, Value.reread_of_isPlain (v := .arr _) (arePlain_objects plain)]
  · split at whole <;> exact whole.count
  · split at whole
    case isTrue closes => rw [whole.isClosed, closes]
    case isFalse stays => rw [whole.isOpen, Bool.eq_false_of_not_eq_true stays]
  · split at whole
    · exact ⟨whole.write, whole.step⟩
    · exact absurd (whole.isOpen.symm.trans closed) (by decide)

theorem follow_decodes_quotes :
    let ops : List Op := [.enter, .write [("a\x22\n", .str "\x00\\"), ("b", .arr [.int (-7)])],
      .count, .write [], .exit none, .write [("late", .bool true)], .close]
    parse? (start.follow ops).close.text =
        some (.arr [.obj [("a\x22\n", .str "\x00\\"), ("b", .arr [.int (-7)])], .obj []]) ∧
      (start.follow ops).count = 2 :=
  have decoded := follow_decodes _ (by decide) (by decide +kernel)
  ⟨decoded.1, decoded.2.1⟩

theorem isShort_of_le {n : Nat} (long : Nat.pow 10 Decimal.numeralLimit ≤ n) : isShort n = false :=
  decide_eq_false (Nat.not_lt.mpr long)

/-- The object of an integer that is too long is broken off at the integer. -/
theorem perform_of_overlong {n : Int} (long : isShort n = false) :
    start.perform (.write [("a", .int n)]) =
      .error (.longNumeral, ⟨"[\n\x7b\x22a\x22: ", 0, false⟩) := by
  have printed : (Value.obj [("a", .int n)]).print = ⟨"\x7b\x22a\x22: ".toList, false⟩ := by
    simp only [Value.print, Value.pieces, fieldPieces, Value.word, long, Bool.false_eq_true, if_false]
    rfl
  rw [perform, write, printed]
  rfl

/-- An array with an integer that is too long is no document, and the object is not counted. -/
theorem overlong_write_breaks :
    let n : Int := Nat.pow 10 Decimal.numeralLimit
    let ops : List Op := [.write [("a", .int n)]]
    let w := start.follow ops
    (∀ fields ∈ payloads ops, (Value.obj fields).isPlain = true) ∧
      start.perform (.write [("a", .int n)]) = .error (.longNumeral, w) ∧
      w.count = 0 ∧ (payloads ops).length = 1 ∧
      w.close.text = "[\n\x7b\x22a\x22: \n]\n" ∧ parse? w.close.text = none := by
  intro n
  have long : isShort n = false := isShort_of_le (Nat.le_refl _)
  clear_value n
  have broken := perform_of_overlong long
  have same : start.follow [.write [("a", .int n)]] = ⟨"[\n\x7b\x22a\x22: ", 0, false⟩ := by
    rw [follow, List.foldl_cons, List.foldl_nil, step, broken]
  have plain : ∀ fields ∈ payloads [.write [("a", .int n)]], (Value.obj fields).isPlain = true := by
    simp [payloads, Op.closes, Op.payload?, Value.isPlain, arePlainFields]
  simp only [same, broken]
  exact ⟨plain, trivial, trivial, rfl, rfl, by decide⟩

end ArrayWriter
end FileCensus.Json
