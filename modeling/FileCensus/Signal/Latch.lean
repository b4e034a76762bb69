import FileCensus.Failure

/-!
A counting signal that can be sealed. Producers signal once for each item; after the seal nobody signals again. A consumer
that waits takes one signal; it is turned away once the latch is sealed and no signal is left.
-/

namespace FileCensus

structure Latch where
  pending : Nat
  isSealed : Bool
  deriving DecidableEq, Repr

namespace Latch

def fresh : Latch :=
    ⟨0, false⟩

def signal (l : Latch) : Except Failure Latch :=
    if l.isSealed then .error .latchSealed else .ok { l with pending := l.pending + 1 }

def close (l : Latch) : Latch :=
    { l with isSealed := true }

/-- Takes a signal if there is one, without waiting for it. -/
def take (l : Latch) : Bool × Latch :=
    match l.pending with
    | 0 => (false, l)
    | n + 1 => (true, { l with pending := n })

/-- Whether a consumer without a time limit would have to wait. -/
def blocks (l : Latch) : Bool :=
    l.pending = 0 && !l.isSealed

def isExhausted (l : Latch) : Bool :=
    l.isSealed && l.pending = 0

end Latch

end FileCensus
