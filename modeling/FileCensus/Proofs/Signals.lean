import FileCensus.Signal.Latch
import Mathlib.Data.List.Range

/-!
What producers and consumers can rely on who share a latch. Their calls are atomic, so whatever any
number of them do is one list of calls, in the order in which the latch takes them. Signals are
conserved by every such list; a seal ends the signals, but not the waits that are still owed. How
long a consumer waits who sets no time limit is not said here.
-/

namespace FileCensus.Latch

/-- A call of some party. A wait gives up at once when there is nothing to take. -/
inductive Call where
  | signal
  | close
  | wait
  deriving DecidableEq, Repr

inductive Reply where
  | signalled
  | refused (f : Failure)
  | closed
  | woken
  | turnedAway
  deriving DecidableEq, Repr

/-- The answer that a wait has got. -/
def Reply.waited? : Reply → Option Bool
  | .woken => some true
  | .turnedAway => some false
  | .signalled | .refused _ | .closed => none

def answer (l : Latch) : Call → Reply × Latch
  | .signal =>
      match l.signal with
      | .ok l' => (.signalled, l')
      | .error f => (.refused f, l)
  | .close => (.closed, l.close)
  | .wait =>
      match l.take with
      | (true, l') => (.woken, l')
      | (false, l') => (.turnedAway, l')

def after (l : Latch) (calls : List Call) : Latch :=
    calls.foldl (fun l call => (l.answer call).2) l

def replies (l : Latch) : List Call → List Reply
  | [] => []
  | call :: rest => (l.answer call).1 :: replies (l.answer call).2 rest

/-- The answers that the waits among the calls get. -/
def waited (l : Latch) (calls : List Call) : List Bool :=
    (l.replies calls).filterMap Reply.waited?

theorem after_cons (l : Latch) (call : Call) (rest : List Call) :
    l.after (call :: rest) = (l.answer call).2.after rest := rfl

/-- The ways in which a latch can answer, with the latch after it. -/
inductive Answers (l : Latch) : Call → Reply × Latch → Prop where
  | signalled (h : l.isSealed = false) :
      Answers l .signal (.signalled, { l with pending := l.pending + 1 })
  | refused (h : l.isSealed = true) : Answers l .signal (.refused .latchSealed, l)
  | closed : Answers l .close (.closed, { l with isSealed := true })
  | woken {n : Nat} (h : l.pending = n + 1) : Answers l .wait (.woken, { l with pending := n })
  | turnedAway (h : l.pending = 0) : Answers l .wait (.turnedAway, l)

theorem answer_answers (l : Latch) (call : Call) : Answers l call (l.answer call) := by
  cases call with
  | signal =>
      by_cases h : l.isSealed = true
      · simpa [answer, signal, h] using Answers.refused h
      · simpa [answer, signal, h] using Answers.signalled (eq_false_of_ne_true h)
  | close => exact .closed
  | wait =>
      cases h : l.pending with
      | zero => simpa [answer, take, h] using Answers.turnedAway h
      | succ n => simpa [answer, take, h] using Answers.woken h

section Answer

variable {l : Latch} {call : Call} {r : Reply × Latch}

/-- A signal that is accepted is one more to be taken, and a wait that is woken takes one. -/
theorem Answers.balance (a : Answers l call r) :
    r.2.pending + [r.1].count .woken = l.pending + [r.1].count .signalled := by
  cases a <;> simp [*]

theorem Answers.isSealed (a : Answers l call r) :
    r.2.isSealed = true ↔ l.isSealed = true ∨ .close = call := by
  cases a <;> simp

theorem answer_wait_iff : (l.answer .wait).1 = .woken ↔ 0 < l.pending := by
  have a := answer_answers l .wait
  generalize l.answer .wait = r at a ⊢
  cases a <;> simp [*]

theorem answer_signal_of_sealed (h : l.isSealed = true) :
    l.answer .signal = (.refused .latchSealed, l) := by
  have a := answer_answers l .signal
  generalize l.answer .signal = r at a ⊢
  cases a with
  | signalled opened => simp [opened] at h
  | refused _ => rfl

theorem answer_signal_iff : (l.answer .signal).1 = .signalled ↔ l.isSealed = false := by
  have a := answer_answers l .signal
  generalize l.answer .signal = r at a ⊢
  cases a <;> simp [*]

theorem isExhausted_iff : l.isExhausted = true ↔ l.isSealed = true ∧ l.pending = 0 := by
  simp [isExhausted]

/-- Nothing moves a latch that is exhausted. -/
theorem Answers.eq_of_exhausted (a : Answers l call r) (h : l.isExhausted = true) : r.2 = l := by
  obtain ⟨closed, empty⟩ := isExhausted_iff.mp h
  cases a with
  | signalled opened => simp [opened] at closed
  | closed => rw [← closed]
  | woken count => simp [count] at empty
  | refused _ | turnedAway _ => rfl

end Answer

theorem after_balance (l : Latch) (calls : List Call) :
    (l.after calls).pending + (l.replies calls).count .woken =
      l.pending + (l.replies calls).count .signalled := by
  induction calls generalizing l with
  | nil => rfl
  | cons call rest ih =>
      have first := (answer_answers l call).balance
      have others := ih (l.answer call).2
      simp only [after_cons, replies, List.count_cons, List.count_nil] at first others ⊢
      omega

theorem after_isSealed (l : Latch) (calls : List Call) :
    (l.after calls).isSealed = true ↔ l.isSealed = true ∨ .close ∈ calls := by
  induction calls generalizing l with
  | nil => simp [after]
  | cons call rest ih =>
      rw [after_cons, ih, (answer_answers l call).isSealed, List.mem_cons, or_assoc]

theorem after_of_exhausted {l : Latch} (h : l.isExhausted = true) (calls : List Call) :
    l.after calls = l := by
  induction calls with
  | nil => rfl
  | cons call rest ih => rw [after_cons, (answer_answers l call).eq_of_exhausted h, ih]

/-- Once nobody can signal any more, the waits are answered by what is left, whoever waits. -/
theorem waited_of_sealed (calls : List Call) {l : Latch} (h : l.isSealed = true) :
    l.waited calls = (List.range (calls.count .wait)).map fun i => decide (i < l.pending) := by
  induction calls generalizing l with
  | nil => rfl
  | cons call rest ih =>
      have a := answer_answers l call
      have still := ih (a.isSealed.mpr (Or.inl h))
      simp only [waited, replies, List.filterMap_cons] at still ⊢
      rw [still]
      generalize l.answer call = r at a
      cases a with
      | signalled opened => simp [opened] at h
      | refused _ | closed => simp [Reply.waited?]
      | woken count => simp [Reply.waited?, count, List.range_succ_eq_map]
      | turnedAway count => simp [Reply.waited?, count, List.range_succ_eq_map]

/-- What the parties can rely on, whatever they have called so far, with the answers that they got
and the latch as it is then. -/
structure Reliable (calls : List Call) (replies : List Reply) (l : Latch) : Prop where
  conserved : l.pending + replies.count .woken = replies.count .signalled
  wakes : (l.answer .wait).1 = .woken ↔ 0 < l.pending
  accepts : (l.answer .signal).1 = .signalled ↔ l.isSealed = false
  refuses : l.isSealed = true → l.answer .signal = (.refused .latchSealed, l)
  closed : l.isSealed = true ↔ .close ∈ calls
  staysClosed : l.isSealed = true → ∀ later, (l.after later).isSealed = true
  exhausted : l.isExhausted = true ↔ l.isSealed = true ∧ l.pending = 0
  staysExhausted : l.isExhausted = true → ∀ later, (l.after later).isExhausted = true ∧
    ∀ woken ∈ l.waited later, woken = false
  owes : l.isSealed = true → ∀ later,
    l.waited later = (List.range (later.count .wait)).map fun i => decide (i < l.pending)

/-- A latch conserves its signals, however the calls of its parties are interleaved. -/
theorem reliable_after (calls : List Call) :
    Reliable calls (fresh.replies calls) (fresh.after calls) := by
  have balance := after_balance fresh calls
  have closed := after_isSealed fresh calls
  generalize fresh.replies calls = replies at balance ⊢
  generalize fresh.after calls = l at balance closed ⊢
  constructor
  · simpa [fresh] using balance
  · exact answer_wait_iff
  · exact answer_signal_iff
  · intro h
    rw [answer_signal_of_sealed h]
  · simpa [fresh] using closed
  · exact fun h later => (after_isSealed l later).mpr (Or.inl h)
  · exact isExhausted_iff
  · intro h later
    obtain ⟨closed, empty⟩ := isExhausted_iff.mp h
    rw [after_of_exhausted h, waited_of_sealed later closed, empty]
    simp [h]
  · exact fun h later => waited_of_sealed later h

end FileCensus.Latch
