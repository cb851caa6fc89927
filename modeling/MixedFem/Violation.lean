/-!
# Broken preconditions

* `Violation` : a call whose arguments break a documented precondition of an operation (an
  index past the end, two sizes that must agree, a parameter outside its range);
* `Violation.message` : its text;
* `Failure ε` : a broken precondition, or an error of type `ε` that an operation reports.
-/

namespace MixedFem

/-- A broken precondition of an operation. -/
inductive Violation where
  /-- An index at or past the length of a sequence. -/
  | outOfBounds (length index : Nat)
  /-- A range of a sequence that ends past its length. -/
  | rangeEnd (length stop : Nat)
  /-- Two quantities that must be equal differ; `what` names them, and may be empty. -/
  | unequal (what : String)
  /-- A requirement on the arguments does not hold; `what` states it. -/
  | unmet (what : String)
  deriving Repr, BEq

namespace Violation

/-- The text of a violation. -/
def message : Violation → String
  | .outOfBounds len i => s!"index out of bounds: the len is {len} but the index is {i}"
  | .rangeEnd len e => s!"range end index {e} out of range for slice of length {len}"
  | .unequal what =>
      if what.isEmpty then "assertion `left == right` failed"
      else "assertion `left == right` failed: " ++ what
  | .unmet what => what

/-- `xs[i]`, or the out-of-bounds violation. -/
def get {α : Type} (xs : Array α) (i : Nat) : Except Violation α :=
  if h : i < xs.size then .ok xs[i] else .error (.outOfBounds xs.size i)

/-- Fails with `unequal what` unless `a = b`. -/
def requireEq (a b : Nat) (what : String) : Except Violation Unit :=
  if a = b then .ok () else .error (.unequal what)

/-- Fails with `unmet what` unless `c` holds. -/
def require (c : Bool) (what : String) : Except Violation Unit :=
  if c then .ok () else .error (.unmet what)

end Violation

/-- The failure of an operation that reports errors of type `ε` and has preconditions. -/
inductive Failure (ε : Type) where
  /-- A precondition of the operation does not hold. -/
  | violation (v : Violation)
  /-- The operation reports an error. -/
  | error (e : ε)

/-- Lifts a broken precondition into a failure. -/
def Failure.lift {ε β : Type} (r : Except Violation β) : Except (Failure ε) β := r.mapError .violation

end MixedFem
