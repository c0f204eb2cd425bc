import ZaggCore.Util.Numeric
import ZaggCore.Foundations.Triples

/-! # What the two protocols of a slot share

The levels and results of `scp/SCPDriver.h` and `scp/SCP.h`, and the ways a call can fail. -/

namespace ZaggCore.Scp
open Numeric
set_option autoImplicit false

inductive ValidationLevel where
  | kInvalidValue
  | kFullyValidatedValue
  | kMaybeValidValue
  deriving DecidableEq, Repr

/-- `SCP::EnvelopeState`. -/
inductive EnvelopeState where
  | INVALID
  | VALID
  deriving DecidableEq, Repr

/-- How a call can end other than by returning: the driver throws, a debug assertion fails, the protocol
throws, a null pointer is followed, or the fuel of the model is used up. -/
inductive Failure where
  | driver (e : Exception)
  | dbgAssert (expression : String)
  | runtime_error (what : String)
  | nullDereference
  | outOfFuel
  deriving DecidableEq, Repr

end ZaggCore.Scp
