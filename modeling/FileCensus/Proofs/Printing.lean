import FileCensus.FileEntry
import FileCensus.Json.ArrayWriter
import FileCensus.Proofs.RoundTrip

/-!
How far a value is printed. What is handed on is always a front of the whole text, and it is all of
the text exactly if every integer in the value is short. The integers of a file's entry are.
-/

namespace FileCensus

namespace Json

mutual

/-- Whether every integer in a value has few enough digits to be printed. -/
def Value.isPrintable : Value → Bool
  | .int n => isShort n
  | .arr items => arePrintable items
  | .obj fields => arePrintableFields fields
  | _ => true

def arePrintable : List Value → Bool
  | [] => true
  | v :: rest => v.isPrintable && arePrintable rest

def arePrintableFields : List (String × Value) → Bool
  | [] => true
  | (_, v) :: rest => v.isPrintable && arePrintableFields rest

end

/-- These pieces come to a front of this text, and to all of it if they are whole. -/
structure Prints (pieces : List Piece) (text : List Char) (whole : Bool) : Prop where
  complete : (handOn pieces).whole = whole
  front : (handOn pieces).chars <+: text
  exact : whole = true → (handOn pieces).chars = text

theorem Prints.nil : Prints [] [] true :=
  ⟨rfl, List.prefix_refl _, fun _ => rfl⟩

theorem Prints.cons {pieces : List Piece} {text : List Char} {whole : Bool}
    (h : Prints pieces text whole) (cs : List Char) :
    Prints (some cs :: pieces) (cs ++ text) whole where
  complete := h.complete
  front := (List.prefix_append_right_inj cs).mpr h.front
  exact whole := congrArg (cs ++ ·) (h.exact whole)

theorem Prints.one (cs : List Char) : Prints [some cs] cs true := by
  simpa using Prints.nil.cons cs

theorem Prints.none (cs : List Char) : Prints [none] cs false :=
  ⟨rfl, List.nil_prefix, fun h => by cases h⟩

theorem Prints.append {as bs : List Piece} {cs ds : List Char} {v w : Bool}
    (h : Prints as cs v) (h' : Prints bs ds w) : Prints (as ++ bs) (cs ++ ds) (v && w) := by
  induction as generalizing cs with
  | nil =>
      obtain ⟨rfl, -, all⟩ := h
      obtain rfl : [] = cs := all rfl
      exact h'
  | cons piece as ih =>
      cases piece with
      | none =>
          obtain ⟨rfl, -, -⟩ := h
          exact ⟨rfl, List.nil_prefix, fun h => by cases h⟩
      | some first =>
          obtain ⟨whole, ⟨rest, rfl⟩, all⟩ := h
          have inner : Prints as ((handOn as).chars ++ rest) v :=
            ⟨whole, List.prefix_append _ _, fun h => by simpa [handOn] using all h⟩
          simpa only [handOn, List.cons_append, List.append_assoc] using (ih inner).cons first

/-- The text of items after `lead`. -/
def ledItems (lead : List Char) : List Value → List Char
  | [] => []
  | items => lead ++ itemChars items

def ledFields (lead : List Char) : List (String × Value) → List Char
  | [] => []
  | fields => lead ++ fieldChars fields

theorem ledItems_cons (lead : List Char) (v : Value) (rest : List Value) :
    ledItems lead (v :: rest) = lead ++ v.chars ++ ledItems [',', ' '] rest := by
  cases rest <;> simp [ledItems, itemChars]

theorem ledFields_cons (lead : List Char) (n : String) (v : Value)
    (rest : List (String × Value)) :
    ledFields lead ((n, v) :: rest) =
      lead ++ stringText n ++ [':', ' '] ++ v.chars ++ ledFields [',', ' '] rest := by
  cases rest <;> simp [ledFields, fieldChars]

theorem Value.prints_word {v : Value} (single : v.isCollection = false) (lead : List Char) :
    Prints [v.word.map (lead ++ ·)] (lead ++ v.chars) v.isPrintable := by
  cases v with
  | int n =>
      cases short : isShort n with
      | true => simpa [word, isPrintable, short, chars] using Prints.one _
      | false => simpa [word, isPrintable, short] using Prints.none _
  | null | bool | float | str => exact Prints.one _
  | arr | obj => cases single

theorem Value.prints_led {v : Value} (h : Prints v.pieces v.chars v.isPrintable)
    (lead : List Char) :
    Prints (if v.isCollection then some lead :: v.pieces else [v.word.map (lead ++ ·)])
      (lead ++ v.chars) v.isPrintable := by
  split
  · exact h.cons lead
  · exact prints_word (Bool.eq_false_of_not_eq_true ‹_›) lead

theorem prints_items {items : List Value}
    (h : ∀ v ∈ items, Prints v.pieces v.chars v.isPrintable) (lead : List Char) :
    Prints (itemPieces lead items) (ledItems lead items) (arePrintable items) := by
  induction items generalizing lead with
  | nil => exact .nil
  | cons v items ih =>
      rw [List.forall_mem_cons] at h
      rw [itemPieces, ledItems_cons, arePrintable]
      exact (v.prints_led h.1 lead).append (ih h.2 _)

theorem prints_fields {fields : List (String × Value)}
    (h : ∀ p ∈ fields, Prints p.2.pieces p.2.chars p.2.isPrintable) (lead : List Char) :
    Prints (fieldPieces lead fields) (ledFields lead fields) (arePrintableFields fields) := by
  induction fields generalizing lead with
  | nil => exact .nil
  | cons p fields ih =>
      obtain ⟨n, v⟩ := p
      rw [List.forall_mem_cons] at h
      rw [fieldPieces, ledFields_cons, arePrintableFields]
      exact (h.1.cons _).append (ih h.2 _)

/-- A value is printed up to the first integer that is too long. -/
theorem Value.prints (v : Value) : Prints v.pieces v.chars v.isPrintable := by
  induction v using Value.induct with
  | null | bool | int | float | str => simpa [pieces] using prints_word (v := _) rfl []
  | arr items ih =>
      cases items with
      | nil => exact Prints.one _
      | cons v items =>
          simpa [pieces, chars, isPrintable, ledItems] using
            (prints_items ih ['[']).append (Prints.one [']'])
  | obj fields ih =>
      have inner := ((prints_fields ih []).append (Prints.one ['\x7d'])).cons ['\x7b']
      cases fields <;> simpa [pieces, chars, isPrintable, ledFields, fieldChars] using inner

theorem Value.print_whole (v : Value) : v.print.whole = v.isPrintable :=
  v.prints.complete

theorem Value.print_chars {v : Value} (h : v.isPrintable = true) : v.print.chars = v.chars :=
  v.prints.exact h

theorem Value.print_front (v : Value) : v.print.chars <+: v.chars :=
  v.prints.front

theorem two_pow_le {a b : Nat} (few : a ≤ b) : Nat.pow 2 a ≤ Nat.pow 10 b :=
  calc Nat.pow 2 a ≤ Nat.pow 10 a := Nat.pow_le_pow_left (by decide) a
    _ ≤ Nat.pow 10 b := Nat.pow_le_pow_right (by decide) few

theorem isShort_of_lt {n : Int} {m e : Nat} (h : n.natAbs < Decimal.wholeLimit m e)
    (few : m + e ≤ Decimal.numeralLimit) : isShort n = true :=
  decide_eq_true (Nat.lt_of_lt_of_le h (two_pow_le few))

/-- Writing a printable object: only a closed writer refuses it. -/
theorem ArrayWriter.write_of_isPrintable (w : ArrayWriter) {fields : Fields}
    (printable : (Value.obj fields).isPrintable = true) :
    w.write fields = if w.isClosed then .error (.fileClosed, w) else
      .ok ⟨w.text ++ (if w.count = 0 then "" else ",\n") ++ String.ofList (Value.obj fields).chars,
        w.count + 1, false⟩ := by
  have whole := (Value.obj fields).print_whole.trans printable
  simp only [write, whole, if_true, Value.print_chars printable]

/-- Writing an object with an integer that is too long: an open writer is left with a front of it. -/
theorem ArrayWriter.write_of_overlong {w : ArrayWriter} {fields : Fields}
    (isOpen : w.isClosed = false) (long : (Value.obj fields).isPrintable = false) :
    ∃ front, front <+: (Value.obj fields).chars ∧
      w.write fields = .error (.longNumeral, { w with
        text := w.text ++ (if w.count = 0 then "" else ",\n") ++ String.ofList front }) := by
  refine ⟨_, (Value.obj fields).print_front, ?_⟩
  have broken := (Value.obj fields).print_whole.trans long
  simp only [write, isOpen, broken, Bool.false_eq_true, if_false]

end Json

/-- The size and the time of a file are short enough to be printed. -/
theorem FileEntry.isPrintable (e : FileEntry) : (Json.Value.obj e.fields).isPrintable = true := by
  have size : Json.isShort e.size.toNat = true :=
    Json.isShort_of_lt (m := 64) (e := 0) e.size.toNat_lt (by decide)
  have mtime : Json.isShort e.mtime.val = true := Json.isShort_of_lt e.mtime.property (by decide)
  simp [fields, Json.Value.isPrintable, Json.arePrintableFields, size, mtime]

end FileCensus
