import FileCensus.Yaml.Scalar
import FileCensus.Yaml.Tag
import Mathlib

/-!
What can go wrong while a text is read character by character. Nothing is read that is not in the
text, and there are two ways to fail for a reason other than the notation: an escape of eight digits
can name a code point that there is not, and a version can have a number too long to be read. Each
reader is shown to keep to this from the readers that it is made of.
-/

namespace FileCensus.Decimal

theorem digitValue_lt {base : Nat} (positive : 0 < base) (c : Char) :
    (digitValue base c).getD 0 < base := by
  simp only [digitValue]
  grind

theorem ofDigits_lt {base : Nat} (positive : 0 < base) (cs : List Char) :
    ofDigits base cs < base ^ cs.length := by
  induction cs using List.reverseRecOn with
  | nil => simp [ofDigits]
  | append_singleton cs c ih =>
      have hd := digitValue_lt positive c
      simp only [ofDigits, List.foldl_append, List.foldl_cons, List.foldl_nil,
        List.length_append, List.length_singleton, pow_succ] at ih ⊢
      nlinarith

end FileCensus.Decimal

namespace FileCensus.Yaml

open Std.Do

set_option mvcgen.warning false

section
variable {ε α β : Type} {P : α → Prop} {Q : β → Prop} {E : ε → Prop}

/-- A result is of one kind, an error of another. -/
def Yields (P : α → Prop) (E : ε → Prop) : Except ε α → Prop
  | .ok a => P a
  | .error e => E e

theorem Yields.bind {x : Except ε α} {f : α → Except ε β} (h : Yields P E x)
    (hf : ∀ a, P a → Yields Q E (f a)) : Yields Q E (x >>= f) := by
  cases x with
  | ok a => exact hf a h
  | error e => exact h

theorem Yields.imp {P' : α → Prop} {E' : ε → Prop} {x : Except ε α} (h : Yields P E x)
    (hp : ∀ a, P a → P' a) (he : ∀ e, E e → E' e) : Yields P' E' x := by
  cases x with
  | ok a => exact hp a h
  | error e => exact he e h

end

section
variable {σ α β : Type} {I : σ → Prop} {E : LoadError → Prop} {e : LoadError}
  {x y : StateT σ (Except LoadError) α}

/-- A computation that keeps what is known of its state and has errors of one kind only. -/
abbrev Keeps (I : σ → Prop) (E : LoadError → Prop) (x : StateT σ (Except LoadError) α) : Prop :=
  Triple x (fun s => ⌜I s⌝) (post⟨fun _ s => ⌜I s⌝, fun e => ⌜E e⌝⟩)

theorem Keeps.run (h : Keeps I E x) {s : σ} (hs : I s) :
    Yields (fun r : α × σ => I r.2) E (x.run s) := by
  refine Except.of_wp_eq rfl (Yields (fun r : α × σ => I r.2) E) ?_
  rw [WP.StateT_run]
  exact fun _ => h s hs

theorem Keeps.of_run (h : ∀ s, I s → Yields (fun r : α × σ => I r.2) E (x.run s)) : Keeps I E x := by
  intro s hs
  have ends := h s hs
  change (wp⟦x.run s⟧ (fun r => ⌜I r.2⌝, fun e => ⌜E e⌝, ⟨⟩)).down
  cases ran : x.run s with
  | ok r =>
      rw [ran] at ends
      exact ends
  | error e =>
      rw [ran] at ends
      exact ends

theorem Keeps.pure {a : α} : Keeps I E (pure a : StateT σ (Except LoadError) α) := by
  mvcgen

theorem Keeps.bind {f : α → StateT σ (Except LoadError) β} (hx : Keeps I E x)
    (hf : ∀ a, Keeps I E (f a)) : Keeps I E (x >>= f) := by
  mvcgen [hx, hf]

theorem Keeps.get : Keeps I E (get : StateT σ (Except LoadError) σ) := by
  mvcgen

theorem Keeps.modify {f : σ → σ} (h : ∀ s, I s → I (f s)) :
    Keeps I E (modify f : StateT σ (Except LoadError) PUnit) := by
  mvcgen
  exact h _ ‹_›

theorem Keeps.throw (h : E e) : Keeps I E (throw e : StateT σ (Except LoadError) α) :=
  fun _ _ => h

theorem Keeps.forM {f : β → StateT σ (Except LoadError) PUnit} (bs : List β)
    (h : ∀ b, Keeps I E (f b)) : Keeps I E (bs.forM f) := by
  induction bs with
  | nil => exact .pure
  | cons b bs ih => exact .bind (h b) fun _ => ih

theorem Keeps.mapM {f : β → StateT σ (Except LoadError) α} (bs : List β)
    (h : ∀ b, Keeps I E (f b)) : Keeps I E (bs.mapM f) := by
  induction bs with
  | nil => exact .pure
  | cons b bs ih =>
      rw [List.mapM_cons]
      exact .bind (h b) fun _ => .bind ih fun _ => .pure

theorem Keeps.ite {c : Prop} [Decidable c] (hx : Keeps I E x) (hy : Keeps I E y) :
    Keeps I E (if c then x else y) := by
  split_ifs <;> assumption

variable {Q : PostCond α (.arg σ (.except LoadError .pure))}

@[spec high] theorem throw_spec :
    Triple (throw e : StateT σ (Except LoadError) α) (fun _ => Q.2.1 e) Q :=
  fun _ h => h

@[spec] theorem lift_spec {r : Except LoadError α} :
    Triple (StateT.lift r : StateT σ (Except LoadError) α)
      (fun s => match r with | .ok a => Q.1 a s | .error e => Q.2.1 e) Q := by
  cases r with
  | ok a => exact fun _ h => h
  | error e => exact fun _ h => h

end

/-! ## Places in a text -/

variable {cs : List Char} {α : Type}

/-- What is left to read is the end of the text. -/
def At (cs : List Char) (c : Cursor) : Prop :=
  c.rest <:+ cs

/-- A backslash was the last character to be read. -/
def AfterMark (cs : List Char) (c : Cursor) : Prop :=
  ∃ before, cs = before ++ '\\' :: c.rest

/-- The text holds an escape for a code point that there is not, or a number of too many digits. -/
inductive Miswritten (cs : List Char) : ScalarFault → Prop
  | escape {before digits after : List Char} {fault : ScalarFault}
      (text : cs = before ++ '\\' :: 'U' :: digits ++ after) (eight : digits.length = 8)
      (hex : digits.all isHexDigit = true)
      (far : ofCodePoint (Decimal.ofDigits 16 digits) = .error (.scalar fault)) :
      Miswritten cs fault
  | number {before digits after : List Char} (text : cs = before ++ digits ++ after)
      (decimal : ∀ c ∈ digits, Decimal.isDigit c = true)
      (long : Decimal.numeralLimit < digits.length) :
      Miswritten cs (.tooManyDigits digits.length)

/-- Only a text with a backslash or of great length is miswritten. -/
theorem Miswritten.marked {fault : ScalarFault} (h : Miswritten cs fault) :
    '\\' ∈ cs ∨ Decimal.numeralLimit < cs.length := by
  cases h with
  | escape text => exact .inl (by simp [text])
  | number text decimal long =>
      refine .inr (Nat.lt_of_lt_of_le long ?_)
      rw [text, List.length_append, List.length_append]
      omega

/-- A fault that is reported of the text has its reason in the text. -/
def FaultIn (cs : List Char) : LoadError → Prop
  | .malformed => True
  | .scalar fault => Miswritten cs fault

/-- A reader that stays in the text. -/
abbrev Within (cs : List Char) (scan : Scan α) : Prop :=
  Keeps (At cs) (FaultIn cs) scan

theorem Cursor.next_suffix (c : Cursor) : c.next.rest <:+ c.rest := by
  unfold next
  split
  · exact List.suffix_refl _
  · next h => split_ifs <;> simp [h]

theorem Cursor.skip_suffix (c : Cursor) (n : Nat) : (c.skip n).rest <:+ c.rest := by
  induction n generalizing c with
  | zero => exact List.suffix_refl _
  | succ n ih => exact (ih c.next).trans c.next_suffix

theorem Cursor.rest_eq_of_peek {c : Cursor} (h : c.peek ≠ ending) :
    c.rest = c.peek :: (c.skip 1).rest := by
  obtain ⟨rest, index, line, column⟩ := c
  cases rest with
  | nil => exact absurd rfl h
  | cons ch rest =>
      simp only [skip, next, peek, peekAt, List.getElem?_cons_zero, Option.getD_some,
        List.cons.injEq, true_and]
      split_ifs <;> rfl

theorem At.skip {c : Cursor} (h : At cs c) (n : Nat) : At cs (c.skip n) :=
  (c.skip_suffix n).trans h

theorem At.afterMark {c : Cursor} (h : At cs c) (marked : c.peek = '\\') :
    AfterMark cs (c.skip 1) := by
  obtain ⟨before, hcs⟩ := h
  exact ⟨before, by rw [← hcs, c.rest_eq_of_peek (by rw [marked]; decide), marked]⟩

theorem At.of_afterMark {c : Cursor} (h : AfterMark cs c) : At cs c :=
  have ⟨before, hcs⟩ := h
  ⟨before ++ ['\\'], by simp [hcs]⟩

@[spec] theorem fail_spec {Q : PostCond α (.arg Cursor (.except LoadError .pure))} :
    Triple (fail : Scan α) (fun _ => Q.2.1 .malformed) Q :=
  throw_spec

@[spec] theorem peek_within : Within cs peek := by
  mvcgen [peek]

@[spec] theorem skip_within (n : Nat) : Within cs (skip n) := by
  mvcgen [skip]
  exact At.skip ‹_› n

@[spec] theorem takeWhile_within (p : Char → Bool) : Within cs (takeWhile p) := by
  mvcgen [takeWhile]
  exact At.skip ‹_› _

@[spec] theorem skipSpaces_within : Within cs skipSpaces := by
  mvcgen [skipSpaces]

@[spec] theorem skipComment_within : Within cs skipComment := by
  mvcgen [skipComment]

@[spec] theorem takeBreak_within : Within cs takeBreak := by
  mvcgen [takeBreak]

@[spec] theorem finishLine_within : Within cs finishLine := by
  mvcgen [finishLine]

/-! ## Tags, anchors and directives -/

@[spec] theorem takeName_within : Within cs takeName := by
  mvcgen [takeName]

theorem anchorName_within : Within cs anchorName := by
  mvcgen [anchorName]

@[spec] theorem uriBytes_within (fuel : Nat) (bytes : List UInt8) :
    Within cs (uriBytes fuel bytes) := by
  induction fuel generalizing bytes with
  | zero => mvcgen [uriBytes]
  | succ fuel ih => mvcgen [uriBytes, ih]

@[spec] theorem uriFrom_within (fuel : Nat) (done : List Char) : Within cs (uriFrom fuel done) := by
  induction fuel generalizing done with
  | zero => mvcgen [uriFrom]
  | succ fuel ih => mvcgen [uriFrom, ih]

@[spec] theorem uri_within : Within cs uri := by
  mvcgen [uri]

@[spec] theorem tagHandle_within : Within cs tagHandle := by
  mvcgen [tagHandle]

theorem writtenTag_within : Within cs writtenTag := by
  mvcgen [writtenTag]

theorem At.number {c : Cursor} (h : At cs c)
    (long : Decimal.numeralLimit < (c.rest.takeWhile Decimal.isDigit).length) :
    Miswritten cs (.tooManyDigits (c.rest.takeWhile Decimal.isDigit).length) := by
  obtain ⟨before, hcs⟩ := h
  have text : cs = before ++ c.rest.takeWhile Decimal.isDigit ++
      c.rest.dropWhile Decimal.isDigit := by
    rw [List.append_assoc, List.takeWhile_append_dropWhile, hcs]
  exact .number text (fun _ digit => List.mem_takeWhile_imp digit) long

@[spec] theorem versionNumber_within : Within cs versionNumber := by
  -- Which digits are taken decides on the fault, so that `takeWhile` is opened here.
  unfold versionNumber takeWhile
  mvcgen
  case vc2.isFalse.isTrue => exact At.number ‹_› ‹_›
  case vc3.isFalse.isFalse => exact .skip ‹_› _

@[spec] theorem versionDirective_within : Within cs versionDirective := by
  mvcgen [versionDirective]

@[spec] theorem handleDirective_within : Within cs handleDirective := by
  mvcgen [handleDirective]

theorem directive_within : Within cs directive := by
  mvcgen [directive]

/-! ## Plain texts -/

@[spec] theorem plainBreaks_within (fuel : Nat) (breaks : List (List Char)) :
    Within cs (plainBreaks fuel breaks) := by
  induction fuel generalizing breaks with
  | zero => mvcgen [plainBreaks]
  | succ fuel ih => mvcgen [plainBreaks, ih]

@[spec] theorem plainGap_within : Within cs plainGap := by
  mvcgen [plainGap]

@[spec] theorem plainFrom_within (flow : Bool) (indent fuel : Nat) (done gap : List Char)
    (fresh : Bool) : Within cs (plainFrom flow indent fuel done gap fresh) := by
  induction fuel generalizing done gap fresh with
  | zero => mvcgen [plainFrom]
  | succ fuel ih => mvcgen [plainFrom, ih]

theorem plainText_within (flow : Bool) (indent : Nat) : Within cs (plainText flow indent) := by
  mvcgen [plainText]

/-! ## Quoted texts -/

theorem ofCodePoint_error {n : Nat} {e : LoadError} (h : ofCodePoint n = .error e) :
    0x10FFFF < n ∧ ∃ fault, e = .scalar fault := by
  unfold ofCodePoint at h
  split_ifs at h with large far half
  · exact ⟨by omega, _, (Except.error.inj h).symm⟩
  · exact ⟨far, _, (Except.error.inj h).symm⟩

/-- Only escapes of eight digits are long enough for a code point that there is not. -/
theorem escapeWidth_of_far {mark : Char} {digits : List Char}
    (hw : escapeWidth mark = some digits.length)
    (far : 0x10FFFF < Decimal.ofDigits 16 digits) : mark = 'U' := by
  have below := Decimal.ofDigits_lt (by omega : 0 < 16) digits
  unfold escapeWidth at hw
  split at hw
  · rw [← Option.some.inj hw] at below
    omega
  · rw [← Option.some.inj hw] at below
    omega
  · rfl
  · simp at hw

/-- An escape that has its digits fails only if there is no such code point. -/
theorem AfterMark.faultIn {c : Cursor} (h : AfterMark cs c) {width : Nat}
    (hw : escapeWidth c.peek = some width)
    (whole : ¬(decide (((c.skip 1).rest.take width).length < width) ||
      !((c.skip 1).rest.take width).all isHexDigit) = true) {e : LoadError}
    (he : ofCodePoint (Decimal.ofDigits 16 ((c.skip 1).rest.take width)) = .error e) :
    FaultIn cs e := by
  obtain ⟨before, hcs⟩ := h
  obtain ⟨far, fault, rfl⟩ := ofCodePoint_error he
  simp only [Bool.or_eq_true, decide_eq_true_eq, Bool.not_eq_true', not_or,
    Bool.not_eq_false] at whole
  have width_eq : ((c.skip 1).rest.take width).length = width := by
    have := List.length_take_le width (c.skip 1).rest
    omega
  have marked : c.peek = 'U' := escapeWidth_of_far (by rw [width_eq, hw]) far
  have eight : width = 8 := by
    rw [marked] at hw
    exact (Option.some.inj hw).symm
  have rest_eq := c.rest_eq_of_peek (by rw [marked]; decide)
  have text : cs = before ++ '\\' :: 'U' :: (c.skip 1).rest.take width ++
      (c.skip 1).rest.drop width := by
    simp [hcs, rest_eq, marked]
  exact .escape text (width_eq.trans eight) whole.2 he

@[spec] theorem quotedBreaks_within (fuel : Nat) (breaks : List (List Char)) :
    Within cs (quotedBreaks fuel breaks) := by
  induction fuel generalizing breaks with
  | zero => mvcgen [quotedBreaks]
  | succ fuel ih => mvcgen [quotedBreaks, ih]

@[spec] theorem quotedGap_within : Within cs quotedGap := by
  mvcgen [quotedGap]

theorem quotedEscape_within (fuel : Nat) :
    Triple (quotedEscape fuel) (fun c => ⌜AfterMark cs c⌝)
      (post⟨fun _ c => ⌜At cs c⌝, fun e => ⌜FaultIn cs e⌝⟩) := by
  -- Where the digits are decides on the fault, so that `skip` is opened here.
  unfold quotedEscape peek skip
  mvcgen
  case vc1.h_1 => exact .skip (.of_afterMark ‹_›) 1
  case vc3.h_2.isFalse c marked width hw _ _ _ _ whole =>
    split
    · exact .skip (.skip (.of_afterMark marked) 1) width
    · exact marked.faultIn hw whole ‹_›
  case vc5.h_3.isFalse.pre => exact .of_afterMark ‹_›

@[spec] theorem quotedPart_within (double : Bool) (fuel : Nat) (done : ScalarText) :
    Within cs (quotedPart double fuel done) := by
  induction fuel generalizing done with
  | zero => mvcgen [quotedPart]
  | succ fuel ih =>
      unfold quotedPart skip
      mvcgen [ih, quotedEscape_within]
      case vc2.succ.post.success.isTrue => exact .skip ‹_› 2
      case vc3.succ.post.success.isFalse.isTrue => exact .skip ‹_› 1
      case vc4.succ.post.success.isFalse.isFalse.isTrue.pre here _ _ _ escaped _ =>
        simp only [Bool.and_eq_true, beq_iff_eq] at escaped
        exact here.afterMark escaped.2

@[spec] theorem quotedFrom_within (double : Bool) (quote : Char) (fuel : Nat) (done : ScalarText) :
    Within cs (quotedFrom double quote fuel done) := by
  induction fuel generalizing done with
  | zero => mvcgen [quotedFrom]
  | succ fuel ih => mvcgen [quotedFrom, ih]

theorem quotedText_within (double : Bool) : Within cs (quotedText double) := by
  mvcgen [quotedText]

/-! ## Blocks -/

@[spec] theorem takeChomping_within : Within cs takeChomping := by
  mvcgen [takeChomping]

@[spec] theorem takeIndent_within : Within cs takeIndent := by
  mvcgen [takeIndent]

@[spec] theorem blockHeader_within : Within cs blockHeader := by
  mvcgen [blockHeader]

@[spec] theorem leadingBreaks_within (fuel : Nat) (breaks : List (List Char)) (widest : Nat) :
    Within cs (leadingBreaks fuel breaks widest) := by
  induction fuel generalizing breaks widest with
  | zero => mvcgen [leadingBreaks]
  | succ fuel ih => mvcgen [leadingBreaks, ih]

@[spec] theorem skipIndent_within (indent : Nat) : Within cs (skipIndent indent) := by
  mvcgen [skipIndent]

@[spec] theorem blockBreaks_within (indent fuel : Nat) (breaks : List (List Char)) :
    Within cs (blockBreaks indent fuel breaks) := by
  induction fuel generalizing breaks with
  | zero => mvcgen [blockBreaks]
  | succ fuel ih => mvcgen [blockBreaks, ih]

@[spec] theorem blockLines_within (folded : Bool) (indent fuel : Nat) (done : BlockLines) :
    Within cs (blockLines folded indent fuel done) := by
  induction fuel generalizing done with
  | zero => mvcgen [blockLines]
  | succ fuel ih => mvcgen [blockLines, ih]

theorem blockText_within (folded : Bool) (least : Nat) : Within cs (blockText folded least) := by
  mvcgen [blockText]

end FileCensus.Yaml
