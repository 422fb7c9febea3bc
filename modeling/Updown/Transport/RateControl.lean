import Mathlib.Algebra.Order.Floor.Ring
import Mathlib.Tactic

set_option autoImplicit false

/-! # The receiver's rate calculator and timeout predictor

`ReceiverRateCalculator` (`transport/rate_control.rs`) and `TimeoutPredictor`
(`transport/timeout_predictor.rs`). Floating-point numbers are elements of an ordered field `R`;
`powf` and `sqrt` are parameters. Instants and durations are in nanoseconds.
-/

namespace Updown

/-- The floating-point functions that have no exact counterpart in an ordered field. -/
structure FloatFns (R : Type) where
  powf : R → R → R
  sqrt : R → R

/-- Receiver-side rate calculator. -/
structure ReceiverRateCalculator (R : Type) where
  currentRateBps : ℕ
  targetRateBps : ℕ
  minRateBps : ℕ
  maxRateBps : ℕ
  /-- `(timestamp_us, owd_us)`. -/
  owdHistory : List (ℕ × R)
  prevUtility : R
  prevRate : ℕ
  monitorInterval : ℕ
  lastCompute : ℕ

namespace ReceiverRateCalculator

variable {R : Type}

/-- Record an OWD sample, keeping a bounded history. -/
def recordOwd (c : ReceiverRateCalculator R) (timestampUs : ℕ) (owdUs : R) :
    ReceiverRateCalculator R :=
  let history := c.owdHistory ++ [(timestampUs, owdUs)]
  { c with owdHistory := if history.length > 10000 then history.drop 5000 else history }

variable [Field R] [LinearOrder R]

def new (now : ℕ) (targetRateMbps : ℕ) : ReceiverRateCalculator R :=
  let target := targetRateMbps * 1000000
  { currentRateBps := target, targetRateBps := target, minRateBps := 8000000,
    maxRateBps := target * 2, owdHistory := [], prevUtility := 0, prevRate := target,
    monitorInterval := 100000000, lastCompute := now }

/-- Estimate the OWD gradient via linear regression on the last 200 samples. -/
def owdGradient (c : ReceiverRateCalculator R) : R :=
  if c.owdHistory.length < 10 then 0
  else
    let samples := c.owdHistory.drop (c.owdHistory.length - 200)
    let n : R := samples.length
    let t₀ : R := ((samples.head?.map fun s => (s.1 : R)).getD 0)
    let sumT : R := (samples.map fun s => (s.1 : R) - t₀).sum
    let sumOwd : R := (samples.map fun s => s.2).sum
    let sumTOwd : R := (samples.map fun s => ((s.1 : R) - t₀) * s.2).sum
    let sumT2 : R := (samples.map fun s => ((s.1 : R) - t₀) * ((s.1 : R) - t₀)).sum
    let denom : R := n * sumT2 - sumT * sumT
    if |denom| < 1 / (10 : R) ^ (10 : ℕ) then 0 else (n * sumTOwd - sumT * sumOwd) / denom

variable [FloorRing R]

/-- Compute the suggested rate from the utility function, once every monitor interval. -/
def computeRate (F : FloatFns R) (now : ℕ) (c : ReceiverRateCalculator R) (lossRatio : R) :
    ReceiverRateCalculator R :=
  if now - c.lastCompute < c.monitorInterval then c
  else
    let x : R := c.currentRateBps
    let utility := F.powf x (9 / 10) - 10 * x * lossRatio - 5 * x * max c.owdGradient 0
    let rateDelta := x - c.prevRate
    let gradient := (utility - c.prevUtility) / rateDelta
    let omega : R := c.targetRateBps * (5 / 100)
    let signum : R := if gradient < 0 then -1 else 1
    let step := omega * signum * min (F.sqrt |gradient|) 1
    let newRate := ⌊x + step⌋.toNat
    let rate :=
      if 0 < c.prevRate ∧ 0 < |rateDelta| then
        min (max newRate c.minRateBps) c.maxRateBps
      else c.currentRateBps
    { c with lastCompute := now, currentRateBps := rate, prevUtility := utility,
             prevRate := rate }

end ReceiverRateCalculator

/-- Predicts when each block should arrive. The two counts are `u32` values. -/
structure TimeoutPredictor where
  /-- Bytes per second. -/
  estimatedRateBps : ℚ
  blockSize : ℕ
  safetyMargin : ℚ
  /-- `(block_id, arrival_time, bytes)`. -/
  arrivalHistory : List (ℕ × ℕ × ℕ)
  lateBlocks : ℕ
  onTimeBlocks : ℕ

namespace TimeoutPredictor

def new (targetRateMbps blockSize : ℕ) : TimeoutPredictor :=
  { estimatedRateBps := targetRateMbps * 1000000 / 8, blockSize := blockSize,
    safetyMargin := 2, arrivalHistory := [], lateBlocks := 0, onTimeBlocks := 0 }

/-- How long a block should take to arrive, with the safety margin, in nanoseconds. A `Duration` has
no upper bound here. -/
def predictedBlockDuration (p : TimeoutPredictor) : ℚ :=
  if p.estimatedRateBps ≤ 0 then 30 * 10 ^ 9
  else p.blockSize / p.estimatedRateBps * p.safetyMargin * 10 ^ 9

/-- Record a block arrival; `true` if it was late. -/
def recordArrival (now : ℕ) (p : TimeoutPredictor) (blockId startedExpecting blockBytes : ℕ) :
    TimeoutPredictor × Bool :=
  let elapsed : ℚ := (now - startedExpecting : ℕ)
  let late := decide (p.predictedBlockDuration < elapsed)
  let actualRate : ℚ := blockBytes / (elapsed / 10 ^ 9)
  let history := p.arrivalHistory ++ [(blockId, now, blockBytes)]
  ({ p with
      lateBlocks := if late then (p.lateBlocks + 1) % 2 ^ 32 else p.lateBlocks
      onTimeBlocks := if late then p.onTimeBlocks else (p.onTimeBlocks + 1) % 2 ^ 32
      safetyMargin :=
        if late then min (p.safetyMargin * (11 / 10)) 5
        else max (p.safetyMargin * (99 / 100)) (12 / 10)
      estimatedRateBps :=
        if 0 < elapsed then 2 / 10 * actualRate + 8 / 10 * p.estimatedRateBps
        else p.estimatedRateBps
      arrivalHistory := if history.length > 256 then history.drop 128 else history },
    late)

end TimeoutPredictor

end Updown
