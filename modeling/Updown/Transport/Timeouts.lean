import Mathlib.Data.Rat.Floor
import Updown.Lib.MovingAverage
import Updown.Transport.RateControl

set_option autoImplicit false

/-! # The timeout predictor over runs

`TimeoutPredictor` (`transport/timeout_predictor.rs`) fed with the arrivals of one block after the
other. Its margin stays in its bounds whatever arrives (`MarginOk.run`), and it adapts: at a steady
rate only finitely many blocks are late, however wrong its estimate was before (`late_stops`).
-/

namespace Updown.TimeoutPredictor

/-- A call of `record_arrival`, with the time it is made. -/
structure Arrival where
  now : ℕ
  blockId : ℕ
  startedExpecting : ℕ
  blockBytes : ℕ

namespace Arrival

/-- In nanoseconds. -/
def elapsed (a : Arrival) : ℕ := a.now - a.startedExpecting

/-- Bytes per second. -/
def rate (a : Arrival) : ℚ := a.blockBytes / ((a.elapsed : ℚ) / 10 ^ 9)

end Arrival

/-- The call, and whether the block is late. -/
def record (p : TimeoutPredictor) (a : Arrival) : TimeoutPredictor × Bool :=
  p.recordArrival a.now a.blockId a.startedExpecting a.blockBytes

def run (p : TimeoutPredictor) (arrivals : List Arrival) : TimeoutPredictor :=
  arrivals.foldl (fun p a => (p.record a).1) p

theorem run_append (p : TimeoutPredictor) (as bs : List Arrival) :
    p.run (as ++ bs) = (p.run as).run bs := List.foldl_append

/-! ## One arrival -/

section

variable (p : TimeoutPredictor) (a : Arrival)

theorem late_iff : (p.record a).2 = true ↔ p.predictedBlockDuration < a.elapsed :=
  decide_eq_true_iff

theorem record_estimatedRateBps : (p.record a).1.estimatedRateBps =
    if 0 < a.elapsed then 2 / 10 * a.rate + 8 / 10 * p.estimatedRateBps
    else p.estimatedRateBps := by
  have hcast : ((0 : ℚ) < (a.elapsed : ℕ)) ↔ 0 < a.elapsed := Nat.cast_pos
  show (if (0 : ℚ) < (a.elapsed : ℕ) then _ else _) = _
  by_cases h : 0 < a.elapsed
  · rw [if_pos h, if_pos (hcast.mpr h)]
    rfl
  · rw [if_neg h, if_neg (fun hpos => h (hcast.mp hpos))]

theorem record_blockSize : (p.record a).1.blockSize = p.blockSize := rfl

theorem record_lateBlocks : (p.record a).1.lateBlocks =
    if (p.record a).2 then (p.lateBlocks + 1) % 2 ^ 32 else p.lateBlocks := rfl

end

/-- The margin is between 1.2 and 5. -/
def MarginOk (p : TimeoutPredictor) : Prop := 12 / 10 ≤ p.safetyMargin ∧ p.safetyMargin ≤ 5

theorem marginOk_new (targetRateMbps blockSize : ℕ) : (new targetRateMbps blockSize).MarginOk := by
  show (12 / 10 : ℚ) ≤ 2 ∧ (2 : ℚ) ≤ 5
  norm_num

theorem MarginOk.record {p : TimeoutPredictor} (h : p.MarginOk) (a : Arrival) :
    (p.record a).1.MarginOk := by
  obtain ⟨hlow, hhigh⟩ := h
  have hmargin : (p.record a).1.safetyMargin =
      if (p.record a).2 then min (p.safetyMargin * (11 / 10)) 5
      else max (p.safetyMargin * (99 / 100)) (12 / 10) := rfl
  rw [MarginOk, hmargin]
  cases (p.record a).2 with
  | true =>
      rw [if_pos rfl]
      exact ⟨le_min (by linarith) (by norm_num), min_le_right _ _⟩
  | false =>
      rw [if_neg Bool.false_ne_true]
      exact ⟨le_max_right _ _, max_le (by linarith) (by norm_num)⟩

/-! ## Runs -/

/-- The samples of the rate estimate. -/
def rateSamples (arrivals : List Arrival) : List (Bool × ℚ) :=
  (arrivals.filter fun a => 0 < a.elapsed).map fun a => (false, a.rate)

theorem rateSamples_cons (a : Arrival) (arrivals : List Arrival) :
    rateSamples (a :: arrivals) =
      if 0 < a.elapsed then (false, a.rate) :: rateSamples arrivals else rateSamples arrivals := by
  unfold rateSamples
  rw [List.filter_cons]
  by_cases h : 0 < a.elapsed
  · rw [if_pos (decide_eq_true h), if_pos h, List.map_cons]
  · rw [if_neg (by simpa using h), if_neg h]

theorem estimatedRateBps_run (arrivals : List Arrival) : ∀ p : TimeoutPredictor,
    (p.run arrivals).estimatedRateBps
      = MovingAverage.estimate (2 / 10) p.estimatedRateBps (rateSamples arrivals) := by
  induction arrivals with
  | nil => exact fun p => rfl
  | cons a arrivals ih =>
      intro p
      show ((p.record a).1.run arrivals).estimatedRateBps = _
      rw [ih, record_estimatedRateBps, rateSamples_cons]
      by_cases h : 0 < a.elapsed
      · rw [if_pos h, if_pos h, MovingAverage.estimate, if_neg Bool.false_ne_true]
        norm_num
      · rw [if_neg h, if_neg h]

theorem MarginOk.run {p : TimeoutPredictor} (h : p.MarginOk) (arrivals : List Arrival) :
    (p.run arrivals).MarginOk := by
  induction arrivals generalizing p with
  | nil => exact h
  | cons a arrivals ih => exact ih (h.record a)

theorem blockSize_run (arrivals : List Arrival) : ∀ p : TimeoutPredictor,
    (p.run arrivals).blockSize = p.blockSize := by
  induction arrivals with
  | nil => exact fun p => rfl
  | cons a arrivals ih =>
      intro p
      exact (ih (p.record a).1).trans (record_blockSize p a)

/-! ## A steady rate -/

section

variable {blockSize elapsed : ℕ}

/-- Blocks of `blockSize` bytes that take `elapsed` nanoseconds each. -/
def Steady (blockSize elapsed : ℕ) (arrivals : List Arrival) : Prop :=
  ∀ a ∈ arrivals, a.blockBytes = blockSize ∧ a.elapsed = elapsed

/-- The rate of such blocks, in bytes per second. -/
def steadyRate (blockSize elapsed : ℕ) : ℚ := blockSize / ((elapsed : ℚ) / 10 ^ 9)

theorem steadyRate_pos (hsize : 0 < blockSize) (helapsed : 0 < elapsed) :
    0 < steadyRate blockSize elapsed := by
  unfold steadyRate
  positivity

theorem Steady.tail {a : Arrival} {arrivals : List Arrival}
    (h : Steady blockSize elapsed (a :: arrivals)) : Steady blockSize elapsed arrivals :=
  fun b hb => h b (List.mem_cons_of_mem _ hb)

theorem Steady.rate {a : Arrival} {arrivals : List Arrival}
    (h : Steady blockSize elapsed (a :: arrivals)) : a.rate = steadyRate blockSize elapsed := by
  obtain ⟨hbytes, htime⟩ := h a List.mem_cons_self
  rw [Arrival.rate, hbytes, htime, steadyRate]

theorem rateSamples_of_steady (helapsed : 0 < elapsed) {arrivals : List Arrival}
    (h : Steady blockSize elapsed arrivals) :
    rateSamples arrivals =
      List.replicate arrivals.length (false, steadyRate blockSize elapsed) := by
  induction arrivals with
  | nil => rfl
  | cons a arrivals ih =>
      have htime : 0 < a.elapsed := (h a List.mem_cons_self).2 ▸ helapsed
      rw [rateSamples_cons, if_pos htime, ih h.tail, h.rate, List.length_cons,
        List.replicate_succ]

/-- The estimate is within a fifth of the rate, which the smallest margin makes up for. -/
structure Settled (blockSize elapsed : ℕ) (p : TimeoutPredictor) : Prop where
  margin : p.MarginOk
  size : p.blockSize = blockSize
  near : |p.estimatedRateBps - steadyRate blockSize elapsed| < steadyRate blockSize elapsed / 5

/-- The predicted duration is then not below the true one. -/
theorem Settled.le_predicted {p : TimeoutPredictor} (h : Settled blockSize elapsed p)
    (hsize : 0 < blockSize) (helapsed : 0 < elapsed) :
    (elapsed : ℚ) ≤ p.predictedBlockDuration := by
  have hrate := steadyRate_pos hsize helapsed
  obtain ⟨hlow, hhigh⟩ := abs_lt.mp h.near
  have hpos : 0 < p.estimatedRateBps := by linarith
  have hB : (0 : ℚ) < blockSize := Nat.cast_pos.mpr hsize
  have hE : (0 : ℚ) < elapsed := Nat.cast_pos.mpr helapsed
  have hexact : (blockSize : ℚ) / steadyRate blockSize elapsed * 10 ^ 9 = elapsed := by
    unfold steadyRate
    field_simp
  rw [predictedBlockDuration, if_neg (not_le.mpr hpos), h.size]
  calc (elapsed : ℚ)
      = blockSize / (steadyRate blockSize elapsed * (12 / 10)) * (12 / 10) * 10 ^ 9 := by
        rw [← hexact]
        field_simp
    _ ≤ blockSize / p.estimatedRateBps * p.safetyMargin * 10 ^ 9 := by
        have hmargin := h.margin.1
        have hest : p.estimatedRateBps ≤ steadyRate blockSize elapsed * (12 / 10) := by linarith
        gcongr

/-- Such a block is on time, and the estimate stays that close. -/
theorem Settled.record {p : TimeoutPredictor} (h : Settled blockSize elapsed p)
    (hsize : 0 < blockSize) (helapsed : 0 < elapsed) {a : Arrival} {arrivals : List Arrival}
    (hsteady : Steady blockSize elapsed (a :: arrivals)) :
    (p.record a).2 = false ∧ Settled blockSize elapsed (p.record a).1 := by
  have htime : a.elapsed = elapsed := (hsteady a List.mem_cons_self).2
  refine ⟨?_, h.margin.record a, h.size, ?_⟩
  · rw [Bool.eq_false_iff, Ne, late_iff, htime, not_lt]
    exact h.le_predicted hsize helapsed
  · rw [record_estimatedRateBps, if_pos (htime ▸ helapsed), hsteady.rate]
    have hshrink : 2 / 10 * steadyRate blockSize elapsed + 8 / 10 * p.estimatedRateBps
        - steadyRate blockSize elapsed
        = 8 / 10 * (p.estimatedRateBps - steadyRate blockSize elapsed) := by ring
    rw [hshrink, abs_mul, abs_of_pos (by norm_num : (0 : ℚ) < 8 / 10)]
    have := h.near
    have := abs_nonneg (p.estimatedRateBps - steadyRate blockSize elapsed)
    linarith

/-- Such blocks leave it settled … -/
theorem Settled.run {arrivals : List Arrival} (hsize : 0 < blockSize) (helapsed : 0 < elapsed)
    (hsteady : Steady blockSize elapsed arrivals) : ∀ {p : TimeoutPredictor},
    Settled blockSize elapsed p → Settled blockSize elapsed (p.run arrivals) := by
  induction arrivals with
  | nil => exact fun h => h
  | cons a arrivals ih => exact fun h => ih hsteady.tail (h.record hsize helapsed hsteady).2

/-- … and none is counted late. -/
theorem Settled.lateBlocks_run {arrivals : List Arrival} (hsize : 0 < blockSize)
    (helapsed : 0 < elapsed) (hsteady : Steady blockSize elapsed arrivals) :
    ∀ {p : TimeoutPredictor}, Settled blockSize elapsed p →
      (p.run arrivals).lateBlocks = p.lateBlocks := by
  induction arrivals with
  | nil => exact fun _ => rfl
  | cons a arrivals ih =>
      intro p h
      obtain ⟨honTime, hnext⟩ := h.record hsize helapsed hsteady
      calc ((p.record a).1.run arrivals).lateBlocks
          = (p.record a).1.lateBlocks := ih hsteady.tail hnext
        _ = p.lateBlocks := by rw [record_lateBlocks, honTime, if_neg Bool.false_ne_true]

/-- **The predictor adapts**: however wrong its estimate is after the blocks of the past, once the
blocks take the same time each, only the first `n` of them can be late. -/
theorem late_stops (targetRateMbps blockSize elapsed : ℕ) (hsize : 0 < blockSize)
    (helapsed : 0 < elapsed) (past : List Arrival) :
    ∃ n, ∀ early later : List Arrival, Steady blockSize elapsed (early ++ later) →
      n ≤ early.length →
      (∀ before a after, later = before ++ a :: after →
        (((new targetRateMbps blockSize).run (past ++ early ++ before)).record a).2 = false) ∧
      ((new targetRateMbps blockSize).run (past ++ early ++ later)).lateBlocks
        = ((new targetRateMbps blockSize).run (past ++ early)).lateBlocks := by
  have hweight : (0 : ℚ) < 2 / 10 := by norm_num
  have hmargin : 0 < steadyRate blockSize elapsed / 5 := by
    have := steadyRate_pos hsize helapsed
    positivity
  obtain ⟨n, hn⟩ := MovingAverage.exists_estimate_near hweight (by norm_num)
    (steadyRate blockSize elapsed) ((new targetRateMbps blockSize).run past).estimatedRateBps
    hmargin
  refine ⟨n, fun early later hsteady hlength => ?_⟩
  have hearly : Steady blockSize elapsed early :=
    fun a ha => hsteady a (List.mem_append_left _ ha)
  have hlater : Steady blockSize elapsed later :=
    fun a ha => hsteady a (List.mem_append_right _ ha)
  -- from here on the estimate is within a fifth of the rate, which the margin covers
  have hsettled : Settled blockSize elapsed
      ((new targetRateMbps blockSize).run (past ++ early)) := by
    refine ⟨(marginOk_new targetRateMbps blockSize).run _, blockSize_run _ _, ?_⟩
    rw [run_append, estimatedRateBps_run, rateSamples_of_steady helapsed hearly]
    exact hn _ hlength
  constructor
  · rintro before a after rfl
    have hbefore : Steady blockSize elapsed before :=
      fun b hb => hlater b (List.mem_append_left _ hb)
    have hrest : Steady blockSize elapsed (a :: after) :=
      fun b hb => hlater b (List.mem_append_right _ hb)
    rw [run_append _ (past ++ early)]
    exact ((hsettled.run hsize helapsed hbefore).record hsize helapsed hrest).1
  · rw [run_append _ (past ++ early)]
    exact Settled.lateBlocks_run hsize helapsed hlater hsettled

/-- A target of a gigabit a second, and one block that took a minute before the network settles at
a hundred milliseconds a block. -/
theorem late_stops_slowStart :
    ∃ n, ∀ early later : List Arrival, Steady 4194304 100000000 (early ++ later) →
      n ≤ early.length →
      (∀ before a after, later = before ++ a :: after →
        (((new 1000 4194304).run
          ([⟨60000000000, 0, 0, 4194304⟩] ++ early ++ before)).record a).2 = false) ∧
      ((new 1000 4194304).run ([⟨60000000000, 0, 0, 4194304⟩] ++ early ++ later)).lateBlocks
        = ((new 1000 4194304).run ([⟨60000000000, 0, 0, 4194304⟩] ++ early)).lateBlocks :=
  late_stops 1000 4194304 100000000 (by decide) (by decide) [⟨60000000000, 0, 0, 4194304⟩]

end

end Updown.TimeoutPredictor
