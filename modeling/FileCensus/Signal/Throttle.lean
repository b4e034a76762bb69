/-!
Progress events at most once in an interval. Every notification is counted; it becomes an event unless the last event is
less than the interval ago. An interval that is not positive lets every notification through. Times are of any type with
subtraction and order.
-/

namespace FileCensus

structure ProgressEvent where
  queued : Nat
  path : Option String
  deriving DecidableEq, Repr

structure Throttle (τ : Type) where
  interval : τ
  notified : Nat
  /-- The time of the last event. -/
  last : Option τ

namespace Throttle

variable {τ : Type} [OfNat τ 0] [Sub τ] [LT τ] [DecidableLT τ]

def start (interval : τ) : Throttle τ :=
    ⟨interval, 0, none⟩

/-- Whether a notification at the time `now` is kept back. -/
def suppresses (t : Throttle τ) (now : τ) : Bool :=
    match t.last with
    | some last => decide (0 < t.interval) && decide (now - last < t.interval)
    | none => false

def notify (t : Throttle τ) (now : τ) (path : Option String) : Throttle τ × Option ProgressEvent :=
    let queued := t.notified + 1
    if t.suppresses now then ({ t with notified := queued }, none)
    else ({ t with notified := queued, last := some now }, some ⟨queued, path⟩)

end Throttle

end FileCensus
