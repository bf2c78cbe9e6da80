import Mathlib

namespace PegaInfer

/-- A `u32` token id. -/
abbrev Token := UInt32

inductive FinishReason
  | length
  | stop
  | error
  deriving DecidableEq

end PegaInfer
