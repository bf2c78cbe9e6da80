import Mathlib

namespace PegaInfer.Frontend

/-- The value of an `f32`; zero has one sign. -/
inductive F32
  | finite (value : ℚ)
  | infinite (negative : Bool)
  | nan
  deriving DecidableEq

/-- Comparison with a finite constant. -/
def F32.lt : F32 → ℚ → Bool
  | .finite value, bound => value < bound
  | .infinite negative, _ => negative
  | .nan, _ => false

/-- The finite value. -/
def F32.value : F32 → Option ℚ
  | .finite value => some value
  | _ => none

structure SamplingParams where
  temperature : F32
  topK : Int
  topP : F32
  ignoreEos : Bool
  deriving DecidableEq

/-- The constant is `1e-5` rounded to an `f32`. -/
def SamplingParams.isGreedy (params : SamplingParams) : Bool :=
  params.temperature.lt (10995116 / 2 ^ 40) || params.topK = 1

end PegaInfer.Frontend
