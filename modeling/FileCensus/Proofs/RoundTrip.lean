import FileCensus.Proofs.Numerals

/-!
What is printed is read back. The text of a value is cut into the lexemes of the value, and these
are read as the value again, up to two things that are stated and not hidden: of several fields with
one name the last one counts, and a double is read as the double that its text writes. A value
without doubles and without repeated names is read back as it was.
-/

namespace FileCensus.Json

theorem Value.induct {motive : Value → Prop} (null : motive .null) (bool : ∀ b, motive (.bool b))
    (int : ∀ n, motive (.int n)) (float : ∀ x, motive (.float x)) (str : ∀ s, motive (.str s))
    (arr : ∀ items, (∀ v ∈ items, motive v) → motive (.arr items))
    (obj : ∀ fields, (∀ p ∈ fields, motive p.2) → motive (.obj fields)) (v : Value) : motive v :=
  @Value.rec motive (fun items => ∀ v ∈ items, motive v)
    (fun fields => ∀ p ∈ fields, motive p.2) (fun p => motive p.2)
    null bool int float str arr obj (by simp)
    (fun _ _ head tail => List.forall_mem_cons.mpr ⟨head, tail⟩) (by simp)
    (fun _ _ head tail => List.forall_mem_cons.mpr ⟨head, tail⟩) (fun _ _ h => h) v

/-! Words. -/

/-- Whether a character ends the word in front of it. -/
def delimits (c : Char) : Bool :=
    isBetween c || c == '\x22' || (Token.mark? c).isSome

structure IsWord (w : List Char) : Prop where
  some : w ≠ []
  plain : ∀ c ∈ w, delimits c = false

theorem IsWord.of_all {w : List Char} (some : w ≠ []) (plain : (w.all (!delimits ·)) = true) :
    IsWord w :=
  ⟨some, fun c hc => by simpa using List.all_eq_true.mp plain c hc⟩

/-- What comes after a word must not belong to it. -/
def Ends (rest : List Char) : Prop :=
    ∀ c, rest.head? = some c → delimits c = true

theorem Ends.nil : Ends [] := by
  rintro c ⟨⟩

theorem Ends.cons {c : Char} (h : delimits c = true) (cs : List Char) : Ends (c :: cs) := by
  rintro _ ⟨⟩
  exact h

theorem lexStep_word {c : Char} (h : delimits c = false) (read : List Char) (done : List Token) :
    lexStep (.word read) done c = some (.word (c :: read), done) := by
  have plain : ¬ (isBetween c || c == '\x22' || (Token.mark? c).isSome) = true := by
    simpa [delimits] using h
  simp only [lexStep]
  rw [if_neg plain]

theorem lexStep_first {c : Char} (h : delimits c = false) (done : List Token) :
    lexStep .between done c = some (.word [c], done) := by
  have blank : isBetween c = false := by simp_all [delimits]
  have quote : (c == '\x22') = false := by simp_all [delimits]
  have mark : Token.mark? c = none := by simp_all [delimits]
  simp [lexStep, lexBetween, blank, quote, mark]

theorem lexFrom_word_more {w : List Char} (plain : ∀ c ∈ w, delimits c = false)
    (read rest : List Char) (done : List Token) :
    lexFrom (.word read) done (w ++ rest) = lexFrom (.word (w.reverse ++ read)) done rest := by
  induction w generalizing read with
  | nil => rfl
  | cons c w ih =>
      rw [List.forall_mem_cons] at plain
      rw [List.cons_append, lexFrom, lexStep_word plain.1]
      simpa using ih plain.2 (c :: read)

theorem lexFrom_word_end {rest : List Char} (ends : Ends rest) (read : List Char)
    (done : List Token) :
    lexFrom (.word read) done rest = lexFrom .between (.word read.reverse :: done) rest := by
  cases rest with
  | nil => rfl
  | cons c rest =>
      have stop : (isBetween c || c == '\x22' || (Token.mark? c).isSome) = true := ends c rfl
      simp only [lexFrom, lexStep]
      rw [if_pos stop]

theorem lexFrom_word {w rest : List Char} (word : IsWord w) (ends : Ends rest)
    (done : List Token) :
    lexFrom .between done (w ++ rest) = lexFrom .between (.word w :: done) rest := by
  obtain ⟨c, w, rfl⟩ := List.exists_cons_of_ne_nil word.some
  have plain := List.forall_mem_cons.mp word.plain
  rw [List.cons_append, lexFrom, lexStep_first plain.1]
  simp only
  rw [lexFrom_word_more plain.2, lexFrom_word_end ends]
  simp

theorem delimits_of_isDigit {c : Char} (h : Decimal.isDigit c = true) : delimits c = false := by
  have other : ∀ d : Char, Decimal.isDigit d = false → c ≠ d := by
    rintro _ no rfl
    exact Bool.false_ne_true (no.symm.trans h)
  simp [delimits, isBetween, Token.mark?, other ' ' (by decide), other '\n' (by decide),
    other '\r' (by decide), other '\t' (by decide), other '\x22' (by decide),
    other '[' (by decide), other ']' (by decide), other '\x7b' (by decide),
    other '\x7d' (by decide), other ':' (by decide), other ',' (by decide)]

theorem IsWhole.isWord {ds : List Char} (h : IsWhole ds) : IsWord ds :=
  ⟨h.ne_nil, fun c hc => delimits_of_isDigit (h.digits c hc)⟩

theorem IsExponent.plain {tail : List Char} (h : IsExponent tail) :
    ∀ c ∈ tail, delimits c = false := by
  obtain ⟨signed, digits, -⟩ := h
  refine List.forall_mem_cons.mpr ⟨by decide, List.forall_mem_cons.mpr ⟨?_, ?_⟩⟩
  · rcases signed with rfl | rfl <;> decide
  · exact fun c hc => delimits_of_isDigit (digits c hc)

theorem IsFractional.isWord {cs : List Char} (h : IsFractional cs) : IsWord cs := by
  cases h with
  | point front digits nonempty after =>
      refine ⟨by simp, List.forall_mem_append.mpr ⟨front.isWord.plain, ?_⟩⟩
      refine List.forall_mem_cons.mpr ⟨by decide, List.forall_mem_append.mpr ⟨?_, ?_⟩⟩
      · exact fun c hc => delimits_of_isDigit (digits c hc)
      · rcases after with rfl | after
        · simp
        · exact after.plain
  | exponent front after =>
      exact ⟨by simp [front.ne_nil],
        List.forall_mem_append.mpr ⟨front.isWord.plain, after.plain⟩⟩

theorem IsWord.negative {w : List Char} (h : IsWord w) : IsWord ('-' :: w) :=
  ⟨List.cons_ne_nil _ _, List.forall_mem_cons.mpr ⟨by decide, h.plain⟩⟩

theorem isWord_intText (n : Int) : IsWord (intText n) := by
  cases n with
  | ofNat n => exact intText_ofNat n ▸ (IsWhole.toDigits n).isWord
  | negSucc n => exact intText_negSucc n ▸ (IsWhole.toDigits (n + 1)).isWord.negative

theorem isWord_floatText (x : Float) : IsWord (floatText x) := by
  unfold floatText
  cases kind : Decimal.read x with
  | notANumber => exact IsWord.of_all (w := "NaN".toList) (by decide) (by decide)
  | infinite negative =>
      cases negative with
      | true => exact IsWord.of_all (w := "-Infinity".toList) (by decide) (by decide)
      | false => exact IsWord.of_all (w := "Infinity".toList) (by decide) (by decide)
  | finite b =>
      obtain ⟨cs, fractional, written | written⟩ := render_finite kind
      · exact written ▸ fractional.isWord
      · exact written ▸ fractional.isWord.negative

/-! Strings. -/

theorem digitValue_hexDigit {n : Nat} (h : n < 16) :
    Decimal.digitValue 16 (Text.hexDigit n) = some n := by
  interval_cases n <;> rfl

/-- The escape by code point reads back as the code point. -/
theorem lexFrom_hex {n : Nat} (h : n < 0x10000) (units : List Nat) (done : List Token)
    (rest : List Char) :
    lexFrom (.string units) done ('\\' :: 'u' :: (Text.hexDigits 4 n ++ rest)) =
      lexFrom (.string (n :: units)) done rest := by
  have digit (m : Nat) : Decimal.digitValue 16 (Text.hexDigit (m % 16)) = some (m % 16) :=
    digitValue_hexDigit (Nat.mod_lt _ (by decide))
  have value : ((n / 16 / 16 / 16 % 16 * 16 + n / 16 / 16 % 16) * 16 + n / 16 % 16) * 16 + n % 16
      = n := by omega
  simp [lexFrom, lexStep, Text.hexDigits, digit, value]

theorem lexFrom_escapeChar (c : Char) (units : List Nat) (done : List Token) (rest : List Char) :
    lexFrom (.string units) done (escapeChar c ++ rest) =
      lexFrom (.string (c.toNat :: units)) done rest := by
  by_cases quote : c = '\x22'
  · subst quote; rfl
  by_cases slash : c = '\\'
  · subst slash; rfl
  by_cases feed : c = '\n'
  · subst feed; rfl
  by_cases carriage : c = '\r'
  · subst carriage; rfl
  by_cases tab : c = '\t'
  · subst tab; rfl
  by_cases backspace : c = '\x08'
  · subst backspace; rfl
  by_cases page : c = '\x0c'
  · subst page; rfl
  by_cases control : c.toNat < 0x20
  · have escaped : escapeChar c = '\\' :: 'u' :: Text.hexDigits 4 c.toNat := by
      simp [escapeChar, *]
    rw [escaped]
    exact lexFrom_hex (by omega) units done rest
  · have itself : escapeChar c = [c] := by simp [escapeChar, *]
    simp [itself, lexFrom, lexStep, quote, slash, control]

theorem lexFrom_escaped (cs : List Char) (units : List Nat) (done : List Token)
    (rest : List Char) :
    lexFrom (.string units) done (cs.flatMap escapeChar ++ rest) =
      lexFrom (.string ((cs.map Char.toNat).reverse ++ units)) done rest := by
  induction cs generalizing units with
  | nil => rfl
  | cons c cs ih =>
      rw [List.flatMap_cons, List.append_assoc, lexFrom_escapeChar, ih]
      simp

/-- No character is a surrogate. -/
theorem not_surrogate (c : Char) : c.toNat < 0xD800 ∨ 0xE000 ≤ c.toNat := by
  rcases c.valid with low | high
  · exact .inl low
  · exact .inr high.1

theorem joinUnits_toNat (cs : List Char) : joinUnits (cs.map Char.toNat) = some cs := by
  induction cs with
  | nil => rfl
  | cons c cs ih =>
      have alone := not_surrogate c
      have high : ¬ (0xD800 ≤ c.toNat ∧ c.toNat < 0xDC00) := by omega
      have low : ¬ (0xDC00 ≤ c.toNat ∧ c.toNat < 0xE000) := by omega
      have whole : ¬ (0xD800 ≤ c.toNat ∧ c.toNat < 0xE000) := by omega
      cases cs with
      | nil => simp [joinUnits, whole]
      | cons d cs => simpa [joinUnits, high, low] using ih

theorem lexFrom_stringText (s : String) (done : List Token) (rest : List Char) :
    lexFrom .between done (stringText s ++ rest) = lexFrom .between (.text s :: done) rest := by
  have opening : stringText s ++ rest = '\x22' :: (s.toList.flatMap escapeChar ++ '\x22' :: rest) := by
    simp [stringText]
  have closing (units : List Nat) (cs : List Char) (h : joinUnits units.reverse = some cs) :
      lexFrom (.string units) done ('\x22' :: rest) =
        lexFrom .between (.text (String.ofList cs) :: done) rest := by
    simp [lexFrom, lexStep, h]
  calc lexFrom .between done (stringText s ++ rest)
      _ = lexFrom (.string []) done (s.toList.flatMap escapeChar ++ '\x22' :: rest) := by
        rw [opening]
        rfl
      _ = lexFrom (.string (s.toList.map Char.toNat).reverse) done ('\x22' :: rest) := by
        rw [lexFrom_escaped, List.append_nil]
      _ = lexFrom .between (.text s :: done) rest := by
        rw [closing _ s.toList (by rw [List.reverse_reverse, joinUnits_toNat]),
          String.ofList_toList]

/-! Values. -/

mutual

/-- The lexemes of the text of a value. -/
def Value.tokens : Value → List Token
  | .null => [.word "null".toList]
  | .bool true => [.word "true".toList]
  | .bool false => [.word "false".toList]
  | .int n => [.word (intText n)]
  | .float x => [.word (floatText x)]
  | .str s => [.text s]
  | .arr items => .openArray :: itemTokens items ++ [.closeArray]
  | .obj fields => .openObject :: fieldTokens fields ++ [.closeObject]

def itemTokens : List Value → List Token
  | [] => []
  | [v] => v.tokens
  | v :: rest => v.tokens ++ .comma :: itemTokens rest

def fieldTokens : List (String × Value) → List Token
  | [] => []
  | [(n, v)] => .text n :: .colon :: v.tokens
  | (n, v) :: rest => .text n :: .colon :: (v.tokens ++ .comma :: fieldTokens rest)

end

/-- The text of the value is cut into its lexemes, wherever it stands. -/
def Value.Lexes (v : Value) : Prop :=
    ∀ done rest, Ends rest →
      lexFrom .between done (v.chars ++ rest) = lexFrom .between (v.tokens.reverse ++ done) rest

theorem lexFrom_word_one {w : List Char} (word : IsWord w) (done : List Token) (rest : List Char)
    (ends : Ends rest) :
    lexFrom .between done (w ++ rest) = lexFrom .between ([Token.word w].reverse ++ done) rest :=
  lexFrom_word word ends done

theorem lexFrom_comma (done : List Token) (rest : List Char) :
    lexFrom .between done (',' :: ' ' :: rest) = lexFrom .between (.comma :: done) rest :=
  rfl

theorem lexFrom_colon (done : List Token) (rest : List Char) :
    lexFrom .between done (':' :: ' ' :: rest) = lexFrom .between (.colon :: done) rest :=
  rfl

theorem Ends.comma (rest : List Char) : Ends (',' :: rest) :=
  .cons (by decide) rest

theorem lexFrom_itemChars {items : List Value} (lexes : ∀ v ∈ items, v.Lexes) (done : List Token)
    (rest : List Char) (ends : Ends rest) :
    lexFrom .between done (itemChars items ++ rest) =
      lexFrom .between ((itemTokens items).reverse ++ done) rest := by
  induction items generalizing done with
  | nil => rfl
  | cons v items ih =>
      have first := lexes v List.mem_cons_self
      have others := ih fun w hw => lexes w (List.mem_cons_of_mem _ hw)
      cases items with
      | nil => exact first done rest ends
      | cons w items =>
          simp only [itemChars, itemTokens, List.append_assoc, List.cons_append]
          rw [first _ _ (.comma _), lexFrom_comma, others]
          simp

theorem lexFrom_fieldChars {fields : List (String × Value)} (lexes : ∀ p ∈ fields, p.2.Lexes)
    (done : List Token) (rest : List Char) (ends : Ends rest) :
    lexFrom .between done (fieldChars fields ++ rest) =
      lexFrom .between ((fieldTokens fields).reverse ++ done) rest := by
  induction fields generalizing done with
  | nil => rfl
  | cons p fields ih =>
      obtain ⟨n, v⟩ := p
      have first : v.Lexes := lexes (n, v) List.mem_cons_self
      have others := ih fun w hw => lexes w (List.mem_cons_of_mem _ hw)
      cases fields with
      | nil =>
          simp only [fieldChars, fieldTokens, List.append_assoc, List.cons_append]
          rw [lexFrom_stringText, lexFrom_colon, first _ _ ends]
          simp
      | cons q fields =>
          simp only [fieldChars, fieldTokens, List.append_assoc, List.cons_append]
          rw [lexFrom_stringText, lexFrom_colon, first _ _ (.comma _), lexFrom_comma, others]
          simp

theorem Value.lexes (v : Value) : v.Lexes := by
  induction v using Value.induct with
  | null => exact fun done rest ends => lexFrom_word_one (.of_all (by decide) (by decide)) done rest ends
  | bool b =>
      cases b with
      | true => exact fun done rest ends => lexFrom_word_one (.of_all (by decide) (by decide)) done rest ends
      | false => exact fun done rest ends => lexFrom_word_one (.of_all (by decide) (by decide)) done rest ends
  | int n => exact lexFrom_word_one (isWord_intText n)
  | float x => exact lexFrom_word_one (isWord_floatText x)
  | str s => exact fun done rest _ => lexFrom_stringText s done rest
  | arr items ih =>
      intro done rest ends
      have inner := lexFrom_itemChars ih (.openArray :: done) (']' :: rest)
        (.cons (by decide) _)
      have closed : lexFrom .between ((itemTokens items).reverse ++ .openArray :: done) (']' :: rest)
          = lexFrom .between (.closeArray :: ((itemTokens items).reverse ++ .openArray :: done)) rest :=
        rfl
      calc lexFrom .between done ((Value.arr items).chars ++ rest)
          _ = lexFrom .between (.openArray :: done) (itemChars items ++ ']' :: rest) := by
            rw [Value.chars, List.append_assoc]
            rfl
          _ = _ := by
            rw [inner, closed, Value.tokens]
            simp
  | obj fields ih =>
      intro done rest ends
      have inner := lexFrom_fieldChars ih (.openObject :: done) ('\x7d' :: rest)
        (.cons (by decide) _)
      have closed : lexFrom .between ((fieldTokens fields).reverse ++ .openObject :: done)
            ('\x7d' :: rest)
          = lexFrom .between (.closeObject :: ((fieldTokens fields).reverse ++ .openObject :: done))
            rest := rfl
      calc lexFrom .between done ((Value.obj fields).chars ++ rest)
          _ = lexFrom .between (.openObject :: done) (fieldChars fields ++ '\x7d' :: rest) := by
            rw [Value.chars, List.append_assoc]
            rfl
          _ = _ := by
            rw [inner, closed, Value.tokens]
            simp

mutual

/-- What the text of a value is read as. -/
def Value.reread : Value → Value
  | .float x => (wordValue? (floatText x)).getD .null
  | .arr items => .arr (rereadItems items)
  | .obj fields => .obj (Fields.ofPairs (rereadFields fields))
  | v => v

def rereadItems : List Value → List Value
  | [] => []
  | v :: rest => v.reread :: rereadItems rest

def rereadFields : List (String × Value) → List (String × Value)
  | [] => []
  | (n, v) :: rest => (n, v.reread) :: rereadFields rest

end

/-- The lexemes of the value are read as the value, if there is depth for them. -/
def Value.Reads (v : Value) : Prop :=
    ∀ depth rest, 2 * v.tokens.length ≤ depth →
      valueFrom depth (v.tokens ++ rest) = some (v.reread, rest)

theorem Value.tokens_leading (v : Value) :
    ∃ t ts, v.tokens = t :: ts ∧ t ≠ .closeArray ∧ t ≠ .closeObject := by
  cases v with
  | bool b => cases b <;> exact ⟨_, _, rfl, by simp, by simp⟩
  | _ => exact ⟨_, _, rfl, by simp, by simp⟩

theorem valueFrom_array {t : Token} (h : t ≠ .closeArray) (depth : Nat) (ts : List Token) :
    valueFrom (depth + 1) (.openArray :: t :: ts) =
      (itemsFrom depth (t :: ts)).map fun r => (.arr r.1, r.2) := by
  cases t with
  | closeArray => contradiction
  | _ => rfl

theorem valueFrom_object {t : Token} (h : t ≠ .closeObject) (depth : Nat) (ts : List Token) :
    valueFrom (depth + 1) (.openObject :: t :: ts) =
      (fieldsFrom depth (t :: ts)).map fun r => (.obj (Fields.ofPairs r.1), r.2) := by
  cases t with
  | closeObject => contradiction
  | _ => rfl

theorem itemsFrom_itemTokens {items : List Value} (reads : ∀ v ∈ items, v.Reads)
    (some : items ≠ []) (rest : List Token) (depth : Nat)
    (enough : 2 * (itemTokens items).length < depth) :
    itemsFrom depth (itemTokens items ++ .closeArray :: rest) =
      .some (rereadItems items, rest) := by
  induction items generalizing depth with
  | nil => contradiction
  | cons v items ih =>
      obtain ⟨depth, rfl⟩ := Nat.exists_eq_succ_of_ne_zero (Nat.ne_of_gt (Nat.zero_lt_of_lt enough))
      have first := reads v List.mem_cons_self
      cases items with
      | nil =>
          simp only [itemTokens] at enough ⊢
          simp only [itemsFrom, first depth _ (by omega), rereadItems]
      | cons w items =>
          simp only [itemTokens, List.length_append, List.length_cons] at enough
          have others := ih (fun u hu => reads u (List.mem_cons_of_mem _ hu)) (by simp) depth
            (by omega)
          simp only [itemTokens, List.append_assoc, List.cons_append]
          simp only [itemsFrom, first depth _ (by omega), others, rereadItems, Option.map_some]

theorem fieldsFrom_fieldTokens {fields : List (String × Value)}
    (reads : ∀ p ∈ fields, p.2.Reads) (some : fields ≠ []) (rest : List Token) (depth : Nat)
    (enough : 2 * (fieldTokens fields).length < depth) :
    fieldsFrom depth (fieldTokens fields ++ .closeObject :: rest) =
      .some (rereadFields fields, rest) := by
  induction fields generalizing depth with
  | nil => contradiction
  | cons p fields ih =>
      obtain ⟨depth, rfl⟩ := Nat.exists_eq_succ_of_ne_zero (Nat.ne_of_gt (Nat.zero_lt_of_lt enough))
      obtain ⟨n, v⟩ := p
      have first : v.Reads := reads (n, v) List.mem_cons_self
      cases fields with
      | nil =>
          simp only [fieldTokens, List.length_cons] at enough
          simp only [fieldTokens, List.cons_append, fieldsFrom, first depth _ (by omega),
            rereadFields]
      | cons q fields =>
          simp only [fieldTokens, List.length_append, List.length_cons] at enough
          have others := ih (fun u hu => reads u (List.mem_cons_of_mem _ hu)) (by simp) depth
            (by omega)
          simp only [fieldTokens, List.append_assoc, List.cons_append]
          simp only [fieldsFrom, first depth _ (by omega), others, rereadFields, Option.map_some]

theorem itemTokens_cons (v : Value) (items : List Value) :
    ∃ ts, itemTokens (v :: items) = v.tokens ++ ts := by
  cases items with
  | nil => exact ⟨[], by simp [itemTokens]⟩
  | cons w items => exact ⟨_, rfl⟩

theorem fieldTokens_cons (p : String × Value) (fields : List (String × Value)) :
    ∃ ts, fieldTokens (p :: fields) = .text p.1 :: ts := by
  cases fields <;> exact ⟨_, rfl⟩

theorem Value.reads (v : Value) : v.Reads := by
  induction v using Value.induct with
  | null =>
      rintro (_ | depth) rest enough
      · cases enough
      · rfl
  | bool b =>
      rintro (_ | depth) rest enough
      · cases b <;> cases enough
      · cases b <;> rfl
  | int n =>
      rintro (_ | depth) rest enough
      · cases enough
      · simp only [Value.tokens, List.cons_append, valueFrom, wordValue?_intText]
        rfl
  | float x =>
      rintro (_ | depth) rest enough
      · cases enough
      · obtain ⟨y, written⟩ := wordValue?_floatText x
        simp only [Value.tokens, List.cons_append, valueFrom, written, Value.reread]
        rfl
  | str s =>
      rintro (_ | depth) rest enough
      · cases enough
      · rfl
  | arr items ih =>
      rintro (_ | depth) rest enough
      · simp [Value.tokens] at enough
      simp only [Value.tokens, List.length_append, List.length_cons, List.length_nil] at enough
      cases items with
      | nil => rfl
      | cons v items =>
          obtain ⟨ts, front⟩ := itemTokens_cons v items
          obtain ⟨t, us, leading, other, -⟩ := v.tokens_leading
          have inner := itemsFrom_itemTokens ih (by simp) rest depth (by omega)
          simp only [Value.tokens, List.append_assoc, List.cons_append, List.nil_append]
          rw [front, leading, List.cons_append, List.cons_append] at inner ⊢
          rw [valueFrom_array other, inner]
          rfl
  | obj fields ih =>
      rintro (_ | depth) rest enough
      · simp [Value.tokens] at enough
      simp only [Value.tokens, List.length_append, List.length_cons, List.length_nil] at enough
      cases fields with
      | nil => rfl
      | cons p fields =>
          obtain ⟨ts, front⟩ := fieldTokens_cons p fields
          have inner := fieldsFrom_fieldTokens ih (by simp) rest depth (by omega)
          simp only [Value.tokens, List.append_assoc, List.cons_append, List.nil_append]
          rw [front, List.cons_append] at inner ⊢
          rw [valueFrom_object (by simp), inner]
          rfl

theorem parse?_of_lex {s : String} {v : Value} (h : lex s.toList = some v.tokens) :
    parse? s = some v.reread := by
  have read := v.reads (2 * v.tokens.length + 1) [] (by omega)
  rw [List.append_nil] at read
  simp only [parse?, h, read]

/-- The text of a value is a document, whatever stands in its strings. -/
theorem parse?_text (v : Value) : parse? v.text = some v.reread := by
  have lexed := v.lexes [] [] .nil
  rw [List.append_nil, List.append_nil] at lexed
  refine parse?_of_lex ?_
  rw [Value.text, String.toList_ofList, lex, lexed]
  simp [lexFrom]

mutual

/-- No doubles, and no name twice in an object. -/
def Value.isPlain : Value → Bool
  | .float _ => false
  | .arr items => arePlain items
  | .obj fields => decide (fields.map (·.1)).Nodup && arePlainFields fields
  | _ => true

def arePlain : List Value → Bool
  | [] => true
  | v :: rest => v.isPlain && arePlain rest

def arePlainFields : List (String × Value) → Bool
  | [] => true
  | (_, v) :: rest => v.isPlain && arePlainFields rest

end

theorem rereadItems_eq {items : List Value} (h : ∀ v ∈ items, v.isPlain = true → v.reread = v)
    (plain : arePlain items = true) : rereadItems items = items := by
  induction items with
  | nil => rfl
  | cons v items ih =>
      have parts := Bool.and_eq_true_iff.mp plain
      rw [rereadItems, h v List.mem_cons_self parts.1,
        ih (fun w hw => h w (List.mem_cons_of_mem _ hw)) parts.2]

theorem rereadFields_eq {fields : List (String × Value)}
    (h : ∀ p ∈ fields, p.2.isPlain = true → p.2.reread = p.2)
    (plain : arePlainFields fields = true) : rereadFields fields = fields := by
  induction fields with
  | nil => rfl
  | cons p fields ih =>
      obtain ⟨n, v⟩ := p
      have parts := Bool.and_eq_true_iff.mp plain
      have same : v.reread = v := h (n, v) List.mem_cons_self parts.1
      rw [rereadFields, same, ih (fun w hw => h w (List.mem_cons_of_mem _ hw)) parts.2]

theorem Fields.put_of_not_mem {name : String} {v : Value} {fields : Fields}
    (h : name ∉ fields.map (·.1)) : Fields.put name v fields = fields ++ [(name, v)] := by
  induction fields with
  | nil => rfl
  | cons p fields ih =>
      simp only [List.map_cons, List.mem_cons, not_or] at h
      have other : (p.1 == name) = false := by simpa using Ne.symm h.1
      simp [Fields.put, other, ih h.2]

theorem Fields.ofPairs_of_nodup {fields : Fields} (h : (fields.map (·.1)).Nodup) :
    Fields.ofPairs fields = fields := by
  suffices ∀ more before : Fields, ((before ++ more).map (·.1)).Nodup →
      more.foldl (fun fs p => Fields.put p.1 p.2 fs) before = before ++ more from this fields [] h
  intro more
  induction more with
  | nil => simp
  | cons p more ih =>
      intro before distinct
      have fresh : p.1 ∉ before.map (·.1) := by
        rw [List.map_append, List.nodup_append] at distinct
        exact fun twice => distinct.2.2 _ twice _ (by simp) rfl
      rw [List.foldl_cons, Fields.put_of_not_mem fresh, ih]
      · simp
      · simpa using distinct

theorem Value.reread_of_isPlain {v : Value} (h : v.isPlain = true) : v.reread = v := by
  induction v using Value.induct with
  | null | bool | int | str => rfl
  | float => cases h
  | arr items ih => rw [Value.reread, rereadItems_eq ih h]
  | obj fields ih =>
      have parts := Bool.and_eq_true_iff.mp h
      rw [Value.reread, rereadFields_eq ih parts.2,
        Fields.ofPairs_of_nodup (of_decide_eq_true parts.1)]

end FileCensus.Json
