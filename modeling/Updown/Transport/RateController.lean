import Mathlib.Tactic

set_option autoImplicit false

/-! # The sender's rate controller

`RateController` (`transport/rate_control.rs`): the rate is cut when delays grow, raised step by
step when they do not, and overwritten by what the receiver suggests. Rates are bytes per second,
instants and durations nanoseconds. A scaling such as `(rate as f64 * 0.8) as u64` is the floor of
the exact product; products are taken to fit `u64`.
-/

namespace Updown

/-- Rate control mode. -/
inductive RateMode where
  /-- Fill the pipe to target rate regardless of other traffic. -/
  | fixed
  /-- Back off when detecting congestion. -/
  | fair
  /-- Only use bandwidth that other flows are not using. -/
  | scavenger
  deriving DecidableEq

structure RateController where
  targetRate : ℕ
  currentRate : ℕ
  minRate : ℕ
  maxRate : ℕ
  mode : RateMode
  minOwd : ℕ
  smoothedOwd : ℕ
  prevSmoothedOwd : ℕ
  owdIncreaseStreak : ℕ
  lastAdjustment : ℕ
  adjustInterval : ℕ
  alpha : ℚ

namespace RateController

def new (now targetRateMbps : ℕ) (mode : RateMode) : RateController :=
  let targetRate := targetRateMbps * 1000000 / 8
  { targetRate := targetRate, currentRate := targetRate, maxRate := targetRate * 2,
    minRate := 1000000, mode := mode, minOwd := 999000000000, smoothedOwd := 0,
    prevSmoothedOwd := 0, owdIncreaseStreak := 0, lastAdjustment := now,
    adjustInterval := 50000000, alpha := 125 / 1000 }

/-- `Duration::as_micros`. -/
def asMicros (duration : ℕ) : ℕ := duration / 1000

def owdRatio (c : RateController) : ℚ :=
  if asMicros c.minOwd = 0 then 1 else (asMicros c.smoothedOwd : ℚ) / asMicros c.minOwd

/-- Cut the rate to `num / den` of itself, but not below the floor. -/
def cut (c : RateController) (num den : ℕ) : RateController :=
  { c with currentRate := max (c.currentRate * num / den) c.minRate }

/-- Raise the rate by a part of the target, but not above the target. -/
def raise (c : RateController) (parts : ℕ) : RateController :=
  { c with currentRate := min (c.currentRate + c.targetRate / parts) c.targetRate }

/-- The adjustment itself, once its interval is over. -/
def adjust (c : RateController) : RateController :=
  match c.mode with
  | .fixed =>
      if 2 < c.owdRatio ∧ 5 < c.owdIncreaseStreak then c.cut 8 10 else c.raise 20
  | .fair =>
      if 3 / 2 < c.owdRatio ∨ 3 < c.owdIncreaseStreak then
        { c.cut 9 10 with owdIncreaseStreak := 0 }
      else if c.owdRatio < 11 / 10 then c.raise 50
      else c
  | .scavenger =>
      if 11 / 10 < c.owdRatio ∨ 1 < c.owdIncreaseStreak then
        { c.cut 5 10 with owdIncreaseStreak := 0 }
      else if c.owdRatio < 102 / 100 then c.raise 100
      else c

def maybeAdjustRate (now : ℕ) (c : RateController) : RateController :=
  if now - c.lastAdjustment < c.adjustInterval then c
  else adjust { c with lastAdjustment := now }

/-- The delay estimates after a measurement. -/
def recordOwd (c : RateController) (owd : ℕ) : RateController :=
  let smoothedUs : ℚ := asMicros c.smoothedOwd
  let newSmoothed := smoothedUs * (1 - c.alpha) + asMicros owd * c.alpha
  let smoothed := if c.smoothedOwd = 0 then owd else ⌊newSmoothed⌋.toNat * 1000
  { c with
    minOwd := if owd < c.minOwd then owd else c.minOwd
    prevSmoothedOwd := c.smoothedOwd
    smoothedOwd := smoothed
    owdIncreaseStreak := if c.smoothedOwd < smoothed then c.owdIncreaseStreak + 1 else 0 }

/-- Update with a delay measurement. -/
def updateOwd (now : ℕ) (c : RateController) (owd : ℕ) : RateController :=
  maybeAdjustRate now (c.recordOwd owd)

/-- The receiver suggests a rate, in bits per second. -/
def applyReceiverSuggestion (now : ℕ) (c : RateController) (suggestedRateBps : ℕ) :
    RateController :=
  let suggestedBytes := suggestedRateBps / 8
  let rate :=
    match c.mode with
    | .fixed =>
        if suggestedBytes < c.targetRate * 80 / 100 then max suggestedBytes c.minRate
        else c.targetRate
    | .fair | .scavenger => min (max suggestedBytes c.minRate) c.maxRate
  { c with currentRate := rate, lastAdjustment := now }

/-! ## Bounds -/

/-- A call from outside, with the time it is made. -/
inductive RateCall where
  | updateOwd (now owd : ℕ)
  | applyReceiverSuggestion (now suggestedRateBps : ℕ)

def call (c : RateController) : RateCall → RateController
  | .updateOwd now owd => c.updateOwd now owd
  | .applyReceiverSuggestion now rate => c.applyReceiverSuggestion now rate

/-- What does not change in a call. -/
structure SamePolicy (c c' : RateController) : Prop where
  targetRate : c'.targetRate = c.targetRate
  minRate : c'.minRate = c.minRate
  maxRate : c'.maxRate = c.maxRate
  mode : c'.mode = c.mode

/-- The rate is within its bounds, and the bounds are in order. -/
structure InBounds (c : RateController) : Prop where
  min_le_target : c.minRate ≤ c.targetRate
  target_le_max : c.targetRate ≤ c.maxRate
  min_le : c.minRate ≤ c.currentRate
  le_max : c.currentRate ≤ c.maxRate
  fixed_le_target : c.mode = .fixed → c.currentRate ≤ c.targetRate

theorem inBounds_new {now targetRateMbps : ℕ} {mode : RateMode} (h : 8 ≤ targetRateMbps) :
    (new now targetRateMbps mode).InBounds := by
  have htarget : 1000000 ≤ targetRateMbps * 1000000 / 8 := by omega
  constructor
  · exact htarget
  · show targetRateMbps * 1000000 / 8 ≤ targetRateMbps * 1000000 / 8 * 2
    omega
  · exact htarget
  · show targetRateMbps * 1000000 / 8 ≤ targetRateMbps * 1000000 / 8 * 2
    omega
  · intro _
    exact le_rfl

variable {c c' : RateController}

/-- **The bounds hold as soon as the new rate keeps them.** -/
theorem InBounds.of_rate (h : c.InBounds) (hpolicy : SamePolicy c c')
    (hmin : c.minRate ≤ c'.currentRate) (hmax : c'.currentRate ≤ max c.currentRate c.targetRate) :
    c'.InBounds := by
  have hle := h.le_max
  have htarget := h.target_le_max
  constructor
  · rw [hpolicy.minRate, hpolicy.targetRate]
    exact h.min_le_target
  · rw [hpolicy.targetRate, hpolicy.maxRate]
    exact htarget
  · rw [hpolicy.minRate]
    exact hmin
  · rw [hpolicy.maxRate]
    omega
  · rw [hpolicy.mode, hpolicy.targetRate]
    intro hfixed
    have := h.fixed_le_target hfixed
    omega

theorem samePolicy_cut (c : RateController) (num den : ℕ) : SamePolicy c (c.cut num den) :=
  ⟨rfl, rfl, rfl, rfl⟩

theorem samePolicy_raise (c : RateController) (parts : ℕ) : SamePolicy c (c.raise parts) :=
  ⟨rfl, rfl, rfl, rfl⟩

/-- A cut by a proper fraction keeps the bounds. -/
theorem InBounds.cut (h : c.InBounds) {num den : ℕ} (hle : num ≤ den) :
    (c.cut num den).InBounds := by
  have hcut : c.currentRate * num / den ≤ c.currentRate :=
    calc c.currentRate * num / den
        ≤ c.currentRate * den / den := Nat.div_le_div_right (Nat.mul_le_mul_left _ hle)
      _ ≤ c.currentRate := Nat.div_le_of_le_mul (Nat.mul_comm _ _).le
  have hmin := h.min_le
  refine h.of_rate (samePolicy_cut c num den) (le_max_right _ _) ?_
  show max (c.currentRate * num / den) c.minRate ≤ max c.currentRate c.targetRate
  omega

/-- A raise keeps the bounds. -/
theorem InBounds.raise (h : c.InBounds) (parts : ℕ) : (c.raise parts).InBounds := by
  refine h.of_rate (samePolicy_raise c parts) ?_ ?_
  · show c.minRate ≤ min (c.currentRate + c.targetRate / parts) c.targetRate
    exact le_min (le_trans h.min_le (Nat.le_add_right _ _)) h.min_le_target
  · show min (c.currentRate + c.targetRate / parts) c.targetRate ≤ _
    exact le_trans (min_le_right _ _) (le_max_right _ _)

/-- Everything but the rate may change. -/
theorem InBounds.of_same_rate (h : c.InBounds) (hpolicy : SamePolicy c c')
    (hrate : c'.currentRate = c.currentRate) : c'.InBounds :=
  h.of_rate hpolicy (hrate ▸ h.min_le) (hrate ▸ le_max_left _ _)

theorem InBounds.adjust (h : c.InBounds) : c.adjust.InBounds := by
  unfold RateController.adjust
  split
  · split
    · exact h.cut (by decide)
    · exact h.raise 20
  · split
    · exact (h.cut (by decide)).of_same_rate ⟨rfl, rfl, rfl, rfl⟩ rfl
    · split
      · exact h.raise 50
      · exact h
  · split
    · exact (h.cut (by decide)).of_same_rate ⟨rfl, rfl, rfl, rfl⟩ rfl
    · split
      · exact h.raise 100
      · exact h

theorem InBounds.updateOwd (h : c.InBounds) (now owd : ℕ) : (c.updateOwd now owd).InBounds := by
  have hrecord : (c.recordOwd owd).InBounds := h.of_same_rate ⟨rfl, rfl, rfl, rfl⟩ rfl
  have hnow : InBounds { c.recordOwd owd with lastAdjustment := now } :=
    hrecord.of_same_rate ⟨rfl, rfl, rfl, rfl⟩ rfl
  unfold RateController.updateOwd maybeAdjustRate
  split
  · exact hrecord
  · exact hnow.adjust

theorem InBounds.applyReceiverSuggestion (h : c.InBounds) (now rate : ℕ) :
    (c.applyReceiverSuggestion now rate).InBounds := by
  have hmin := h.min_le_target
  have hmax := h.target_le_max
  cases hmode : c.mode with
  | fixed =>
      refine h.of_rate ⟨rfl, rfl, rfl, rfl⟩ ?_ ?_
        <;> simp only [RateController.applyReceiverSuggestion, hmode] <;> split <;> omega
  | fair | scavenger =>
      -- the suggestion may lie above the target, but not above the ceiling
      simp only [RateController.applyReceiverSuggestion, hmode]
      constructor
      · exact hmin
      · exact hmax
      · show c.minRate ≤ min (max (rate / 8) c.minRate) c.maxRate
        omega
      · show min (max (rate / 8) c.minRate) c.maxRate ≤ c.maxRate
        omega
      · intro hfixed
        cases hfixed

/-- **Every call keeps the bounds.** -/
theorem InBounds.call (h : c.InBounds) (x : RateCall) : (c.call x).InBounds := by
  cases x with
  | updateOwd now owd => exact h.updateOwd now owd
  | applyReceiverSuggestion now rate => exact h.applyReceiverSuggestion now rate

theorem InBounds.foldl (calls : List RateCall) :
    ∀ {c : RateController}, c.InBounds → (calls.foldl RateController.call c).InBounds := by
  induction calls with
  | nil =>
      intro c h
      exact h
  | cons x calls ih =>
      intro c h
      exact ih (h.call x)

theorem samePolicy_adjust (c : RateController) : SamePolicy c c.adjust := by
  unfold adjust
  split <;> (repeat' split) <;> exact ⟨rfl, rfl, rfl, rfl⟩

/-- No call changes the policy. -/
theorem samePolicy_call (c : RateController) (x : RateCall) : SamePolicy c (c.call x) := by
  cases x with
  | updateOwd now owd =>
      have hadjust := samePolicy_adjust { c.recordOwd owd with lastAdjustment := now }
      show SamePolicy c (maybeAdjustRate now (c.recordOwd owd))
      unfold maybeAdjustRate
      split
      · exact ⟨rfl, rfl, rfl, rfl⟩
      · exact ⟨hadjust.targetRate, hadjust.minRate, hadjust.maxRate, hadjust.mode⟩
  | applyReceiverSuggestion now rate => exact ⟨rfl, rfl, rfl, rfl⟩

theorem mode_foldl (calls : List RateCall) :
    ∀ c : RateController, (calls.foldl RateController.call c).mode = c.mode := by
  induction calls with
  | nil =>
      intro c
      rfl
  | cons x calls ih =>
      intro c
      calc ((x :: calls).foldl RateController.call c).mode
          = (c.call x).mode := ih (c.call x)
        _ = c.mode := (samePolicy_call c x).mode

/-- **The rate stays within policy bounds**, whatever is measured and suggested. -/
theorem rate_in_bounds {now targetRateMbps : ℕ} {mode : RateMode} (h : 8 ≤ targetRateMbps)
    (calls : List RateCall) :
    let c := calls.foldl RateController.call (new now targetRateMbps mode)
    c.minRate ≤ c.currentRate ∧ c.currentRate ≤ c.maxRate ∧
      (mode = .fixed → c.currentRate ≤ c.targetRate) := by
  intro c
  have hbounds : c.InBounds := InBounds.foldl calls (inBounds_new h)
  have hmode : c.mode = mode := mode_foldl calls _
  refine ⟨hbounds.min_le, hbounds.le_max, fun hfixed => ?_⟩
  exact hbounds.fixed_le_target (hmode.trans hfixed)

theorem rate_in_bounds_small :
    let c := [RateCall.updateOwd 60000000 1000000, .applyReceiverSuggestion 70000000 4000000,
      .updateOwd 200000000 9000000].foldl RateController.call (new 0 8 .fixed)
    c.minRate ≤ c.currentRate ∧ c.currentRate ≤ c.maxRate ∧
      (RateMode.fixed = .fixed → c.currentRate ≤ c.targetRate) :=
  rate_in_bounds (by decide) _

end RateController

end Updown
