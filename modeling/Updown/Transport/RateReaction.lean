import Mathlib.Analysis.SpecialFunctions.Pow.Real
import Updown.Lib.Transition
import Updown.Transport.RateControl

set_option autoImplicit false

/-! # How the receiver's rate calculator reacts to loss

`compute_rate` stores the rate it suggests as the previous rate too, and both start at the target:
the ascent compares the current rate with itself and never takes a step.
-/

namespace Updown

namespace ReceiverRateCalculator

variable {R : Type} [Field R] [LinearOrder R] [FloorRing R]

/-- A call of the calculator; a rate computation comes with the time it is made. -/
inductive Call (R : Type) where
  | recordOwd (timestampUs : ℕ) (owdUs : R)
  | computeRate (now : ℕ) (lossRatio : R)

def Call.computes : Call R → Bool
  | .recordOwd .. => false
  | .computeRate .. => true

def call (F : FloatFns R) (c : ReceiverRateCalculator R) :
    Call R → Option (ReceiverRateCalculator R)
  | .recordOwd timestampUs owdUs => some (c.recordOwd timestampUs owdUs)
  | .computeRate now lossRatio => some (c.computeRate F now lossRatio)

/-- A computation is past its monitor interval and sees everything lost. -/
def TotalLoss (c : ReceiverRateCalculator R) : Call R → Prop
  | .recordOwd .. => True
  | .computeRate now lossRatio => c.monitorInterval ≤ now - c.lastCompute ∧ lossRatio = 1

/-- Total loss that lasts long enough brings the suggested rate below the target. -/
def Reacts (F : FloatFns R) (targetRateMbps : ℕ) : Prop :=
  ∃ n, ∀ (now : ℕ) (calls : List (Call R)) (c : ReceiverRateCalculator R),
    n ≤ calls.countP Call.computes →
    Transition.AllowedAlong (call F) TotalLoss (new now targetRateMbps) calls →
    Transition.runAll (call F) (new now targetRateMbps) calls = some c →
    c.currentRateBps < targetRateMbps * 1000000

/-- The current rate is the previous one and the target. -/
structure AtTarget (target : ℕ) (c : ReceiverRateCalculator R) : Prop where
  prevRate : c.prevRate = target
  currentRateBps : c.currentRateBps = target

variable {F : FloatFns R} {target : ℕ} {c c' : ReceiverRateCalculator R}

theorem AtTarget.computeRate (h : c.AtTarget target) (now : ℕ) (lossRatio : R) :
    (c.computeRate F now lossRatio).AtTarget target := by
  unfold ReceiverRateCalculator.computeRate
  split
  · exact h
  · -- the rate is compared with itself
    have hdelta : ¬ 0 < |(c.currentRateBps : R) - c.prevRate| := by
      rw [h.currentRateBps, h.prevRate]
      simp [abs]
    constructor
    · simpa [hdelta] using h.currentRateBps
    · simpa [hdelta] using h.currentRateBps

/-- **No call moves the rate.** -/
theorem AtTarget.call {x : Call R} (h : c.AtTarget target) (hs : call F c x = some c') :
    c'.AtTarget target := by
  cases x with
  | recordOwd timestampUs owdUs =>
      obtain rfl : c.recordOwd timestampUs owdUs = c' := Option.some.inj hs
      exact ⟨h.prevRate, h.currentRateBps⟩
  | computeRate now lossRatio =>
      obtain rfl : c.computeRate F now lossRatio = c' := Option.some.inj hs
      exact h.computeRate now lossRatio

/-- **The rate is the target in every run**, whatever is lost and however long it takes. -/
theorem currentRateBps_of_reaches {P : ReceiverRateCalculator R → Call R → Prop}
    {now targetRateMbps : ℕ}
    (h : Transition.Reaches (ReceiverRateCalculator.call F) P (new now targetRateMbps) c) :
    c.currentRateBps = targetRateMbps * 1000000 := by
  have hc : c.AtTarget (targetRateMbps * 1000000) :=
    h.invariant ⟨rfl, rfl⟩ fun _ _ _ hinv _ hs => hinv.call hs
  exact hc.currentRateBps

/-- Computations under total loss, one at the end of each monitor interval. -/
def lossCalls (now : ℕ) : ℕ → List (Call R)
  | 0 => []
  | n + 1 => .computeRate (now + 100000000) 1 :: lossCalls (now + 100000000) n

omit [LinearOrder R] [FloorRing R] in
theorem countP_lossCalls (n : ℕ) :
    ∀ now, (lossCalls now n : List (Call R)).countP Call.computes = n := by
  induction n with
  | zero =>
      intro now
      rfl
  | succ n ih =>
      intro now
      rw [lossCalls, List.countP_cons_of_pos rfl, ih]

/-- They are all due. -/
theorem run_lossCalls (F : FloatFns R) (n : ℕ) : ∀ {c : ReceiverRateCalculator R},
    c.monitorInterval = 100000000 →
    Transition.AllowedAlong (call F) TotalLoss c (lossCalls c.lastCompute n) ∧
      ∃ c', Transition.runAll (call F) c (lossCalls c.lastCompute n) = some c' := by
  induction n with
  | zero =>
      intro c _
      exact ⟨trivial, c, rfl⟩
  | succ n ih =>
      intro c hinterval
      let d := c.computeRate F (c.lastCompute + 100000000) 1
      have hd : d.lastCompute = c.lastCompute + 100000000 ∧ d.monitorInterval = 100000000 := by
        have hdue : ¬ c.lastCompute + 100000000 - c.lastCompute < c.monitorInterval := by omega
        simp only [d, ReceiverRateCalculator.computeRate, if_neg hdue]
        exact ⟨trivial, hinterval⟩
      obtain ⟨hallowed, c', hrun⟩ := ih hd.2
      rw [hd.1] at hallowed hrun
      refine ⟨⟨⟨by omega, rfl⟩, ?_⟩, c', hrun⟩
      intro s hs
      obtain rfl : d = s := Option.some.inj hs
      exact hallowed

/-- Total loss of any length leaves the rate at the target. -/
theorem exists_run_at_target (F : FloatFns R) (targetRateMbps n : ℕ) :
    ∃ (calls : List (Call R)) (c : ReceiverRateCalculator R),
      n ≤ calls.countP Call.computes ∧
      Transition.AllowedAlong (call F) TotalLoss (new 0 targetRateMbps) calls ∧
      Transition.runAll (call F) (new 0 targetRateMbps) calls = some c ∧
      c.currentRateBps = targetRateMbps * 1000000 := by
  obtain ⟨hallowed, c, hrun⟩ := run_lossCalls F n (c := new 0 targetRateMbps) rfl
  refine ⟨lossCalls 0 n, c, (countP_lossCalls n 0).ge, hallowed, hrun, ?_⟩
  exact currentRateBps_of_reaches (Transition.Reaches.of_runAll hrun hallowed)

/-- **No loss makes the calculator react**, at any target. -/
theorem not_reacts (F : FloatFns R) (targetRateMbps : ℕ) : ¬ Reacts F targetRateMbps := by
  rintro ⟨n, hn⟩
  obtain ⟨calls, c, hcount, hallowed, hrun, hc⟩ := exists_run_at_target F targetRateMbps n
  exact absurd (hn 0 calls c hcount hallowed hrun) (by omega)

/-- A target of 100 Mbps, with the real power and square root. -/
theorem hundredMbps_not_reacts :
    ¬ Reacts (R := ℝ) { powf := fun x y => x ^ y, sqrt := Real.sqrt } 100 := by
  rintro ⟨n, hn⟩
  obtain ⟨calls, c, hcount, hallowed, hrun, hc⟩ := exists_run_at_target (R := ℝ) _ 100 n
  exact absurd (hn 0 calls c hcount hallowed hrun) (by omega)

end ReceiverRateCalculator

end Updown
