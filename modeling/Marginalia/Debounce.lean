/-!
# Debouncing

Of several calls in a row only the last one runs, a while after it was made. A call takes the place
of the one still pending. A flush waits for the pending call; when a new call comes meanwhile, the
flush ends with nothing run and the new call pending.
-/

namespace Marginalia

structure Debounce where
  pending : Bool := false
  runs : Nat := 0
  deriving DecidableEq, Repr

namespace Debounce

inductive Step where
  | call
  | flush
  | flushSuperseded
  deriving DecidableEq, Repr

def step (d : Debounce) : Step → Debounce
  | .call => { d with pending := true }
  | .flush => if d.pending then { pending := false, runs := d.runs + 1 } else d
  | .flushSuperseded => { d with pending := true }

/-- The number of runs after each step. -/
def counts (d : Debounce) : List Step → List Nat
  | [] => []
  | s :: rest => (d.step s).runs :: counts (d.step s) rest

end Debounce

end Marginalia
