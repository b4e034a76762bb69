import FileCensus.Signal.Latch

/-!
What walks share with the rest of the program: the queue that they fill, the count of all entries ever put on it, and the
latch that tells a consumer of each of them. A queue without a capacity is never full.
-/

namespace FileCensus

structure Channel (ε : Type) where
  /-- The oldest item first. -/
  items : List ε
  capacity : Option Nat
  total : Nat
  latch : Option Latch

namespace Channel

variable {ε : Type}

def fresh (capacity : Option Nat) (latch : Option Latch) : Channel ε :=
    ⟨[], capacity, 0, latch⟩

def isFull (c : Channel ε) : Bool :=
    match c.capacity with
    | some n => n ≤ c.items.length
    | none => false

def put (c : Channel ε) (e : ε) : Channel ε :=
    { c with items := c.items ++ [e] }

def count (c : Channel ε) : Channel ε :=
    { c with total := c.total + 1 }

/-- Takes the oldest item. -/
def get? (c : Channel ε) : Option (ε × Channel ε) :=
    match c.items with
    | e :: rest => some (e, { c with items := rest })
    | [] => none

/-- Signals the latch, if there is one. -/
def signal (c : Channel ε) : Except Failure (Channel ε) :=
    match c.latch with
    | some l => l.signal.map fun l => { c with latch := some l }
    | none => .ok c

def closeLatch (c : Channel ε) : Channel ε :=
    { c with latch := c.latch.map (·.close) }

/-- Nobody has sealed the latch, if there is one. -/
def IsOpen (c : Channel ε) : Prop :=
    ∀ l, c.latch = some l → l.isSealed = false

theorem signal_ok {c c' : Channel ε} (h : c.signal = .ok c') :
    c'.IsOpen ∧ ∃ latch, c' = { c with latch := latch } := by
  cases latch : c.latch with
  | none =>
      simp only [signal, latch, Except.ok.injEq] at h
      subst h
      refine ⟨?_, c.latch, rfl⟩
      intro l found
      cases latch.symm.trans found
  | some l =>
      cases closed : l.isSealed with
      | true => simp [signal, latch, Latch.signal, closed, Except.map] at h
      | false =>
          simp only [signal, latch, Latch.signal, closed, Bool.false_eq_true, if_false, Except.map,
            Except.ok.injEq] at h
          subst h
          refine ⟨?_, _, rfl⟩
          intro l' found
          cases found
          rfl

/-- Only a sealed latch refuses a signal. -/
theorem signal_error {c : Channel ε} {f : Failure} (h : c.signal = .error f) :
    f = .latchSealed ∧ ∃ l, c.latch = some l ∧ l.isSealed = true := by
  cases latch : c.latch with
  | none => simp [signal, latch] at h
  | some l =>
      cases closed : l.isSealed with
      | false => simp [signal, latch, Latch.signal, closed, Except.map] at h
      | true =>
          simp only [signal, latch, Latch.signal, closed, if_true, Except.map,
            Except.error.injEq] at h
          exact ⟨h.symm, l, rfl, closed⟩

theorem IsOpen.signal_ne {c : Channel ε} (h : c.IsOpen) (f : Failure) : c.signal ≠ .error f := by
  intro answer
  obtain ⟨-, l, latch, closed⟩ := signal_error answer
  rw [h l latch] at closed
  cases closed

end Channel

end FileCensus
