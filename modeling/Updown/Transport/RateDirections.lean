import Updown.Lib.Transition
import Updown.Transport.RateController

set_option autoImplicit false

/-! # Which way the rate goes

`RateController` (`transport/rate_control.rs`) clamps a cut at the floor and a raise at the target.
The floor is 8 Mbps whatever the target is, and a suggestion may lift the rate above the target, up
to the ceiling. So the rate goes the way it should exactly as long as floor, rate and target are in
this order where the branch compares them (`followsDelay_iff`); a run with a target of 8 Mbps or
more and no suggestion above the target keeps them so (`ordered_of_reaches`).
-/

namespace Updown

/-- The branches of `maybe_adjust_rate` that change the rate. -/
inductive RateBranch where
  | congestion
  | increase
  deriving DecidableEq

namespace RateController

/-- The branch that an adjustment takes, if it takes one. -/
def branch (c : RateController) : Option RateBranch :=
  match c.mode with
  | .fixed =>
      if 2 < c.owdRatio ∧ 5 < c.owdIncreaseStreak then some .congestion else some .increase
  | .fair =>
      if 3 / 2 < c.owdRatio ∨ 3 < c.owdIncreaseStreak then some .congestion
      else if c.owdRatio < 11 / 10 then some .increase
      else none
  | .scavenger =>
      if 11 / 10 < c.owdRatio ∨ 1 < c.owdIncreaseStreak then some .congestion
      else if c.owdRatio < 102 / 100 then some .increase
      else none

/-- The measurement of a delay at time `now` leads to an adjustment that takes the branch. -/
def Takes (c : RateController) (now owd : ℕ) (b : RateBranch) : Prop :=
  c.adjustInterval ≤ now - c.lastAdjustment ∧ (c.recordOwd owd).branch = some b

/-- Congestion does not raise the rate, ease does not lower it, and a smaller suggestion does not
lead to a higher rate. -/
structure FollowsDelay (c : RateController) : Prop where
  congestion : ∀ now owd, c.Takes now owd .congestion →
    (c.updateOwd now owd).currentRate ≤ c.currentRate
  increase : ∀ now owd, c.Takes now owd .increase →
    c.currentRate ≤ (c.updateOwd now owd).currentRate
  suggestion : ∀ now a b, a ≤ b →
    (c.applyReceiverSuggestion now a).currentRate ≤ (c.applyReceiverSuggestion now b).currentRate

/-- Floor, rate and target are in this order where the branches compare them. -/
structure LimitsInOrder (c : RateController) : Prop where
  floor : ∀ now owd, c.Takes now owd .congestion → c.minRate ≤ c.currentRate
  target : ∀ now owd, c.Takes now owd .increase → c.currentRate ≤ c.targetRate
  fixed : c.mode = .fixed → c.minRate ≤ c.targetRate

/-! ## One step -/

section

variable {c : RateController} {now owd : ℕ}

/-- **What an adjustment does to the rate**: a cut by a proper fraction, a step, or nothing. -/
theorem currentRate_adjust (c : RateController) :
    ∃ num den parts, num ≤ den ∧ c.adjust.currentRate =
      match c.branch with
      | some .congestion => max (c.currentRate * num / den) c.minRate
      | some .increase => min (c.currentRate + c.targetRate / parts) c.targetRate
      | none => c.currentRate := by
  cases hmode : c.mode with
  | fixed =>
      refine ⟨8, 10, 20, by decide, ?_⟩
      simp only [adjust, branch, hmode]
      split <;> rfl
  | fair =>
      refine ⟨9, 10, 50, by decide, ?_⟩
      simp only [adjust, branch, hmode]
      split
      · rfl
      · split <;> rfl
  | scavenger =>
      refine ⟨5, 10, 100, by decide, ?_⟩
      simp only [adjust, branch, hmode]
      split
      · rfl
      · split <;> rfl

/-- A measurement that is due leads to what its branch says. -/
theorem updateOwd_of_due (owd : ℕ) (hdue : c.adjustInterval ≤ now - c.lastAdjustment) :
    ∃ num den parts, num ≤ den ∧ (c.updateOwd now owd).currentRate =
      match (c.recordOwd owd).branch with
      | some .congestion => max (c.currentRate * num / den) c.minRate
      | some .increase => min (c.currentRate + c.targetRate / parts) c.targetRate
      | none => c.currentRate := by
  have hnot : ¬ now - (c.recordOwd owd).lastAdjustment < (c.recordOwd owd).adjustInterval :=
    not_lt.mpr hdue
  obtain ⟨num, den, parts, hle, hrate⟩ :=
    currentRate_adjust { c.recordOwd owd with lastAdjustment := now }
  refine ⟨num, den, parts, hle, ?_⟩
  rw [updateOwd, maybeAdjustRate, if_neg hnot, hrate]
  rfl

/-- A measurement that leads to an adjustment. -/
theorem updateOwd_of_takes {b : RateBranch} (h : c.Takes now owd b) :
    ∃ num den parts, num ≤ den ∧ (c.updateOwd now owd).currentRate =
      match b with
      | .congestion => max (c.currentRate * num / den) c.minRate
      | .increase => min (c.currentRate + c.targetRate / parts) c.targetRate := by
  obtain ⟨hdue, hbranch⟩ := h
  obtain ⟨num, den, parts, hle, hrate⟩ := updateOwd_of_due owd hdue
  refine ⟨num, den, parts, hle, ?_⟩
  rw [hrate, hbranch]
  cases b <;> rfl

/-- A measurement leads to an adjustment in one of the branches, or leaves the rate alone. -/
theorem takes_or_same (c : RateController) (now owd : ℕ) :
    (∃ b, c.Takes now owd b) ∨ (c.updateOwd now owd).currentRate = c.currentRate := by
  by_cases hdue : c.adjustInterval ≤ now - c.lastAdjustment
  · cases hbranch : (c.recordOwd owd).branch with
    | some b => exact Or.inl ⟨b, hdue, hbranch⟩
    | none =>
        obtain ⟨_, _, _, _, hrate⟩ := updateOwd_of_due owd hdue
        rw [hbranch] at hrate
        exact Or.inr hrate
  · have hearly : now - (c.recordOwd owd).lastAdjustment < (c.recordOwd owd).adjustInterval :=
      not_le.mp hdue
    right
    rw [updateOwd, maybeAdjustRate, if_pos hearly]
    rfl

/-- A cut does not raise the rate exactly if the rate is not below the floor. -/
theorem congestion_le_iff (h : c.Takes now owd .congestion) :
    (c.updateOwd now owd).currentRate ≤ c.currentRate ↔ c.minRate ≤ c.currentRate := by
  obtain ⟨num, den, _, hle, hrate⟩ := updateOwd_of_takes h
  have hcut : c.currentRate * num / den ≤ c.currentRate :=
    calc c.currentRate * num / den
        ≤ c.currentRate * den / den := Nat.div_le_div_right (Nat.mul_le_mul_left _ hle)
      _ ≤ c.currentRate := Nat.div_le_of_le_mul (Nat.mul_comm _ _).le
  rw [hrate]
  constructor
  · intro h
    exact (le_max_right _ _).trans h
  · intro hfloor
    exact max_le hcut hfloor

/-- A step does not lower the rate exactly if the rate is not above the target. -/
theorem increase_ge_iff (h : c.Takes now owd .increase) :
    c.currentRate ≤ (c.updateOwd now owd).currentRate ↔ c.currentRate ≤ c.targetRate := by
  obtain ⟨_, _, parts, _, hrate⟩ := updateOwd_of_takes h
  rw [hrate]
  constructor
  · intro h
    exact h.trans (min_le_right _ _)
  · intro htarget
    exact le_min (Nat.le_add_right _ _) htarget

/-- Suggestions in fixed mode: the target takes over where the suggestions come close to it, and is
not below what the floor makes of smaller ones. -/
theorem suggestion_mono_iff (htarget : 2 ≤ c.targetRate) :
    (∀ now a b, a ≤ b → (c.applyReceiverSuggestion now a).currentRate ≤
      (c.applyReceiverSuggestion now b).currentRate) ↔
    (c.mode = .fixed → c.minRate ≤ c.targetRate) := by
  constructor
  · intro h hfixed
    -- no rate at all is raised to the floor, the target itself is taken
    have hzero : (0 : ℕ) / 8 < c.targetRate * 80 / 100 := by omega
    have hfull : ¬ c.targetRate * 8 / 8 < c.targetRate * 80 / 100 := by omega
    have hle := h 0 0 (c.targetRate * 8) (Nat.zero_le _)
    simp only [applyReceiverSuggestion, hfixed, if_pos hzero, if_neg hfull] at hle
    exact (le_max_right _ _).trans hle
  · intro h now a b hab
    have hdiv : a / 8 ≤ b / 8 := Nat.div_le_div_right hab
    cases hmode : c.mode with
    | fixed =>
        have hfloor := h hmode
        simp only [applyReceiverSuggestion, hmode]
        split
        · split
          · exact max_le_max_right _ hdiv
          · exact max_le (by omega) hfloor
        · rw [if_neg (by omega)]
    | fair | scavenger =>
        simp only [applyReceiverSuggestion, hmode]
        exact min_le_min_right _ (max_le_max_right _ hdiv)

/-- **The rate goes the way it should exactly as long as the limits are in order.** -/
theorem followsDelay_iff (htarget : 2 ≤ c.targetRate) : c.FollowsDelay ↔ c.LimitsInOrder := by
  constructor
  · intro h
    exact ⟨fun now owd ht => (congestion_le_iff ht).mp (h.congestion now owd ht),
      fun now owd ht => (increase_ge_iff ht).mp (h.increase now owd ht),
      (suggestion_mono_iff htarget).mp h.suggestion⟩
  · intro h
    exact ⟨fun now owd ht => (congestion_le_iff ht).mpr (h.floor now owd ht),
      fun now owd ht => (increase_ge_iff ht).mpr (h.target now owd ht),
      (suggestion_mono_iff htarget).mpr h.fixed⟩

end

/-! ## Runs -/

/-- A target in bytes per second, and its ceiling. -/
def setTarget (c : RateController) (target : ℕ) : RateController :=
  { c with targetRate := target, maxRate := target * 2 }

def setTargetRateMbps (c : RateController) (mbps : ℕ) : RateController :=
  c.setTarget (mbps * 1000000 / 8)

/-- Whatever can be done to a controller. -/
inductive Command where
  | call (x : RateCall)
  | setTargetRateMbps (mbps : ℕ)

def command (c : RateController) : Command → Option RateController
  | .call x => some (c.call x)
  | .setTargetRateMbps mbps => some (c.setTargetRateMbps mbps)

/-- Targets are a megabit per second or more. -/
def Positive (_ : RateController) : Command → Prop
  | .call _ => True
  | .setTargetRateMbps mbps => 1 ≤ mbps

/-- Suggestions in fair and scavenger mode do not exceed the target; a new target is not below the
floor or the current rate. -/
def WithinTarget (c : RateController) : Command → Prop
  | .call (.updateOwd ..) => True
  | .call (.applyReceiverSuggestion _ bps) => c.mode = .fixed ∨ bps / 8 ≤ c.targetRate
  | .setTargetRateMbps mbps => 8 ≤ mbps ∧ c.currentRate ≤ mbps * 1000000 / 8

/-- The bounds are in order, with a floor of 8 Mbps, and the rate is not above the target. -/
structure Ordered (c : RateController) : Prop extends InBounds c where
  minRate : c.minRate = 1000000
  le_target : c.currentRate ≤ c.targetRate

section

variable {c c' : RateController}

theorem ordered_new {now mbps : ℕ} {mode : RateMode} (h : 8 ≤ mbps) :
    (new now mbps mode).Ordered := ⟨inBounds_new h, rfl, le_rfl⟩

theorem Ordered.limitsInOrder (h : c.Ordered) : c.LimitsInOrder :=
  ⟨fun _ _ _ => h.min_le, fun _ _ _ => h.le_target, fun _ => h.min_le_target⟩

/-- A measurement keeps the rate at the target or below. -/
theorem Ordered.updateOwd_le (h : c.Ordered) (now owd : ℕ) :
    (c.updateOwd now owd).currentRate ≤ c.targetRate := by
  rcases takes_or_same c now owd with ⟨b, htakes⟩ | hsame
  · cases b with
    | congestion => exact ((congestion_le_iff htakes).mpr h.min_le).trans h.le_target
    | increase =>
        obtain ⟨_, _, _, _, hrate⟩ := updateOwd_of_takes htakes
        rw [hrate]
        exact min_le_right _ _
  · rw [hsame]
    exact h.le_target

/-- So does a suggestion that does not exceed the target. -/
theorem Ordered.applyReceiverSuggestion_le (h : c.Ordered) {bps : ℕ} (now : ℕ)
    (hwithin : c.mode = .fixed ∨ bps / 8 ≤ c.targetRate) :
    (c.applyReceiverSuggestion now bps).currentRate ≤ c.targetRate := by
  have hfloor := h.min_le_target
  cases hmode : c.mode with
  | fixed =>
      simp only [applyReceiverSuggestion, hmode]
      split
      · apply max_le _ hfloor
        omega
      · exact le_rfl
  | fair | scavenger =>
      have hbps : bps / 8 ≤ c.targetRate := hwithin.resolve_left (by simp [hmode])
      simp only [applyReceiverSuggestion, hmode]
      exact (min_le_left _ _).trans (max_le hbps hfloor)

theorem Ordered.setTarget (h : c.Ordered) {target : ℕ} (hfloor : 1000000 ≤ target)
    (hrate : c.currentRate ≤ target) : (c.setTarget target).Ordered := by
  have hmin : c.minRate ≤ target := h.minRate.trans_le hfloor
  have hdouble : target ≤ target * 2 := Nat.le_mul_of_pos_right _ two_pos
  exact ⟨⟨hmin, hdouble, h.min_le, hrate.trans hdouble, fun _ => hrate⟩, h.minRate, hrate⟩

/-- **Every command within the target keeps the order.** -/
theorem Ordered.command (h : c.Ordered) {x : Command} (hx : c.WithinTarget x)
    (hs : c.command x = some c') : c'.Ordered := by
  cases x with
  | call x =>
      obtain rfl : c.call x = c' := Option.some.inj hs
      have hpolicy := samePolicy_call c x
      refine ⟨h.toInBounds.call x, hpolicy.minRate.trans h.minRate, ?_⟩
      rw [hpolicy.targetRate]
      cases x with
      | updateOwd now owd => exact h.updateOwd_le now owd
      | applyReceiverSuggestion now bps => exact h.applyReceiverSuggestion_le now hx
  | setTargetRateMbps mbps =>
      obtain rfl : c.setTargetRateMbps mbps = c' := Option.some.inj hs
      obtain ⟨hfloor, hrate⟩ := hx
      exact h.setTarget (by omega) hrate

/-- A target of a megabit per second or more stays one. -/
theorem two_le_target_of_reaches {now mbps : ℕ} {mode : RateMode} (h : 1 ≤ mbps)
    (hreach : Transition.Reaches RateController.command Positive (new now mbps mode) c) :
    2 ≤ c.targetRate := by
  apply hreach.invariant (I := fun c => 2 ≤ c.targetRate)
  · show 2 ≤ mbps * 1000000 / 8
    omega
  · intro d x d' hd hx hs
    cases x with
    | call x =>
        obtain rfl : d.call x = d' := Option.some.inj hs
        rw [(samePolicy_call d x).targetRate]
        exact hd
    | setTargetRateMbps mbps' =>
        obtain rfl : d.setTargetRateMbps mbps' = d' := Option.some.inj hs
        have hpos : 1 ≤ mbps' := hx
        show 2 ≤ mbps' * 1000000 / 8
        omega

end

/-- **The direction of the rate in every run.** In every state that can be reached it is right
exactly if the limits are in order, and they are in every run from a target of 8 Mbps or more whose
commands stay within the target. -/
theorem rate_directions {mbps : ℕ} (h : 1 ≤ mbps) (now : ℕ) (mode : RateMode) :
    (∀ c, Transition.Reaches command Positive (new now mbps mode) c →
      (c.FollowsDelay ↔ c.LimitsInOrder)) ∧
    (8 ≤ mbps → ∀ c, Transition.Reaches command WithinTarget (new now mbps mode) c →
      c.FollowsDelay) := by
  constructor
  · intro c hreach
    exact followsDelay_iff (two_le_target_of_reaches h hreach)
  · intro hfloor c hreach
    have hordered : c.Ordered :=
      hreach.invariant (ordered_new hfloor) fun _ _ _ hinv hx hs => hinv.command hx hs
    have hmin := hordered.minRate
    have htarget := hordered.min_le_target
    exact (followsDelay_iff (by omega)).mpr hordered.limitsInOrder

theorem rate_directions_hundred :
    (∀ c, Transition.Reaches command Positive (new 0 100 .fair) c →
      (c.FollowsDelay ↔ c.LimitsInOrder)) ∧
    (8 ≤ 100 → ∀ c, Transition.Reaches command WithinTarget (new 0 100 .fair) c →
      c.FollowsDelay) :=
  rate_directions (by decide) 0 .fair

/-- The receiver suggests twice the target; the next measurement finds no congestion, and the
increase branch halves the rate. -/
theorem increase_halves_rate :
    ¬ ∀ c, Transition.Reaches command Positive (new 0 100 .fair) c → c.FollowsDelay := by
  intro h
  let c := (new 0 100 .fair).applyReceiverSuggestion 0 200000000
  have hreach : Transition.Reaches command Positive (new 0 100 .fair) c :=
    Transition.Reaches.single (e := .call (.applyReceiverSuggestion 0 200000000)) trivial rfl
  have htakes : c.Takes 50000000 1000000 .increase := by
    constructor
    · norm_num [c, applyReceiverSuggestion, new]
    · norm_num [c, branch, owdRatio, recordOwd, applyReceiverSuggestion, new, asMicros]
  have hle := (increase_ge_iff htakes).mp ((h c hreach).increase _ _ htakes)
  norm_num [c, applyReceiverSuggestion, new] at hle

end RateController

end Updown
