import FileCensus.Failure

/-!
A request to stop, which is never taken back.
-/

namespace FileCensus

structure Token where
  isCancelled : Bool
  deriving DecidableEq, Repr

namespace Token

def fresh : Token :=
    ⟨false⟩

def cancel (_ : Token) : Token :=
    ⟨true⟩

def stop : Failure :=
    .cancelled "scan cancelled"

def check (t : Token) : Except Failure Unit :=
    if t.isCancelled then .error stop else .ok ()

end Token

end FileCensus
