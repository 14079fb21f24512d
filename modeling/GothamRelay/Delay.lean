import Mathlib.Data.Rat.Floor
import GothamRelay.Time

namespace GothamRelay

/-- The random generator as the scheduler uses it: one uniform draw from the
unit interval, and the logarithm the draw is put through. -/
structure Sampling (ρ : Type) where
  gen : ρ → ℚ × ρ
  ln : ℚ → ℚ

def Sampling.plain : Sampling Unit where
  gen rng := (1 / 2, rng)
  ln u := u - 1

def minPositive : ℚ := 1 / 2 ^ 1022

/-- `Duration::from_secs_f64`, to the nearest nanosecond. -/
def Duration.fromSecsF64 (secs : ℚ) : Duration :=
  (secs * nanosPerSec + 1 / 2).floor.toNat

structure PoissonScheduler where
  lambda : ℚ
  meanMicros : UInt64

namespace PoissonScheduler

def new (meanDelayMicros : UInt64) : PoissonScheduler where
  lambda :=
    if meanDelayMicros = 0 then 0 else 1000000 / (meanDelayMicros.toNat : ℚ)
  meanMicros := meanDelayMicros

/-- No randomness is consumed when the mean is zero. -/
def nextDelay (sampling : Sampling ρ) (scheduler : PoissonScheduler) (rng : ρ) :
    Duration × ρ :=
  if scheduler.lambda = 0 then
    (0, rng)
  else
    let drawn := sampling.gen rng
    let u := if drawn.1 = 0 then minPositive else drawn.1
    let secs := -sampling.ln u / scheduler.lambda
    let maxSecs := 100 * (scheduler.meanMicros.toNat : ℚ) / 1000000
    (Duration.fromSecsF64 (min (max secs 0) maxSecs), drawn.2)

end PoissonScheduler

end GothamRelay
