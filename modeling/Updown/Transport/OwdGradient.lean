import Updown.Lib.BoundedLog
import Updown.Lib.LeastSquares
import Updown.Transport.RateReaction

set_option autoImplicit false

/-! # The gradient of the one-way delay

`ReceiverRateCalculator` (`transport/rate_control.rs`) keeps a bounded history of delay samples and
estimates the gradient of the delay from the last 200 of them. Dropping old samples is invisible
(`owdGradient_eq_slope`), and what comes out is the slope of the line that fits these samples best
(`owdGradient_fits`).
-/

namespace Updown.ReceiverRateCalculator

open BoundedLog LeastSquares

variable {R : Type} [Field R] [LinearOrder R] [FloorRing R]

/-- The sample that a call records. -/
def Call.sample : Call R → Option (ℕ × R)
  | .recordOwd timestampUs owdUs => some (timestampUs, owdUs)
  | .computeRate _ _ => none

/-- All samples that have been recorded. -/
def samples (calls : List (Call R)) : List (ℕ × R) := calls.filterMap Call.sample

/-- The samples as points of time and delay. -/
def points (ss : List (ℕ × R)) : List (R × R) := ss.map fun s => ((s.1 : R), s.2)

/-- The samples that count, of all that have been recorded. -/
def recent (calls : List (Call R)) : List (R × R) := points (latest 200 (samples calls))

theorem owdHistory_computeRate (F : FloatFns R) (now : ℕ) (c : ReceiverRateCalculator R)
    (lossRatio : R) : (c.computeRate F now lossRatio).owdHistory = c.owdHistory := by
  unfold computeRate
  split
  · rfl
  · rfl

/-- The history is the log of the samples, bounded to 10000 entries. -/
theorem owdHistory_runAll {F : FloatFns R} (calls : List (Call R)) :
    ∀ {c c' : ReceiverRateCalculator R}, Transition.runAll (call F) c calls = some c' →
      c'.owdHistory = pushAll 10000 5000 c.owdHistory (samples calls) := by
  induction calls with
  | nil =>
      intro c c' h
      obtain rfl := Option.some.inj h
      rfl
  | cons x calls ih =>
      intro c c' h
      obtain ⟨d, hd, h⟩ := Option.bind_eq_some_iff.mp h
      rw [ih h]
      cases x with
      | recordOwd timestampUs owdUs =>
          obtain rfl := Option.some.inj hd
          rfl
      | computeRate now lossRatio =>
          obtain rfl := Option.some.inj hd
          rw [owdHistory_computeRate]
          rfl

/-! ## The quotient of sums -/

omit [LinearOrder R] [FloorRing R] in
/-- The spread of times in microseconds is a whole number. -/
theorem exists_spread_points (ss : List (ℕ × R)) : ∃ z : ℤ, spread (points ss) = z := by
  have hsum : total Prod.fst (points ss) = ((ss.map Prod.fst).sum : ℕ) := by
    rw [total, points, List.map_map, Nat.cast_list_sum, List.map_map]
    rfl
  have hsquares : total (fun p => p.1 * p.1) (points ss)
      = ((ss.map fun s => s.1 * s.1).sum : ℕ) := by
    rw [total, points, List.map_map, Nat.cast_list_sum, List.map_map]
    congr 1
    exact List.map_congr_left fun s _ => (Nat.cast_mul _ _).symm
  refine ⟨(ss.length : ℤ) * (ss.map fun s => s.1 * s.1).sum
    - (ss.map Prod.fst).sum * (ss.map Prod.fst).sum, ?_⟩
  rw [spread, hsum, hsquares, points, List.length_map]
  simp only [Int.cast_sub, Int.cast_mul, Int.cast_natCast]

omit [FloorRing R] in
/-- With fewer than ten samples there is no estimate. -/
theorem owdGradient_of_few {c : ReceiverRateCalculator R} (h : c.owdHistory.length < 10) :
    c.owdGradient = 0 := if_pos h

variable [IsStrictOrderedRing R]

omit [FloorRing R] in
/-- **The gradient is the slope over the last 200 samples**; the guard against a small denominator
only stops a division by zero. -/
theorem owdGradient_eq_slope {c : ReceiverRateCalculator R} (h : 10 ≤ c.owdHistory.length) :
    c.owdGradient = fitSlope (points (latest 200 c.owdHistory)) := by
  have hmap : ∀ (t₀ : R) (ss : List (ℕ × R)),
      ((points ss).map fun p => (p.1 - t₀, p.2)) = ss.map fun s => ((s.1 : R) - t₀, s.2) := by
    intro t₀ ss
    rw [points, List.map_map]
    rfl
  -- the sums of the code are those of the points, moved by the first time
  obtain ⟨t₀, hgradient⟩ : ∃ t₀ : R, c.owdGradient =
      if |spread ((points (latest 200 c.owdHistory)).map fun p => (p.1 - t₀, p.2))|
        < 1 / (10 : R) ^ (10 : ℕ) then 0
      else fitSlope ((points (latest 200 c.owdHistory)).map fun p => (p.1 - t₀, p.2)) := by
    refine ⟨((latest 200 c.owdHistory).head?.map fun s => (s.1 : R)).getD 0, ?_⟩
    unfold owdGradient
    rw [if_neg (Nat.not_lt.mpr h), hmap]
    simp only [fitSlope, spread, cross, total, List.map_map, List.length_map]
    rfl
  rw [hgradient, fitSlope_shift, spread_shift]
  obtain ⟨z, hz⟩ := exists_spread_points (latest 200 c.owdHistory)
  split
  · next hsmall =>
      -- a whole number that is so small is zero
      have hzero : z = 0 := by
        by_contra hne
        have hone : (1 : R) ≤ |(z : R)| := by exact_mod_cast Int.one_le_abs hne
        have hlt : 1 / (10 : R) ^ (10 : ℕ) ≤ 1 := by norm_num
        rw [hz] at hsmall
        linarith
      rw [fitSlope, hz, hzero, Int.cast_zero, div_zero]
  · rfl

/-- **The gradient is the slope of the line that fits the last 200 samples best**, in every run of
the calculator and however many samples it has dropped: no line leaves smaller squared residuals.
There is no slope if there are fewer than ten samples or all of them are of one time. -/
theorem owdGradient_fits {F : FloatFns R} {now targetRateMbps : ℕ} {calls : List (Call R)}
    {c : ReceiverRateCalculator R}
    (hrun : Transition.runAll (call F) (new now targetRateMbps) calls = some c) :
    c.owdHistory.length ≤ 10000 ∧
    ((samples calls).length < 10 ∨ (∀ p ∈ recent calls, ∀ q ∈ recent calls, p.1 = q.1) →
      c.owdGradient = 0) ∧
    (10 ≤ (samples calls).length → (∃ p ∈ recent calls, ∃ q ∈ recent calls, p.1 ≠ q.1) →
      ∀ a b, residual (recent calls) (intercept (recent calls)) c.owdGradient
        ≤ residual (recent calls) a b) := by
  have hhistory : c.owdHistory = pushAll 10000 5000 [] (samples calls) :=
    owdHistory_runAll calls hrun
  -- the bounded history has lost only samples older than the last 200
  have hlatest : latest 200 c.owdHistory = latest 200 (samples calls) := by
    rw [hhistory]
    exact latest_pushAll (by norm_num) _
  have hslope : 10 ≤ (samples calls).length → c.owdGradient = fitSlope (recent calls) := by
    intro hlen
    rw [recent, ← hlatest]
    refine owdGradient_eq_slope ?_
    rw [hhistory]
    have hfits : 10 + 5000 ≤ 10000 + 1 := by norm_num
    rcases le_length_pushAll hfits (samples calls) with h | h
    · exact h
    · rwa [h]
  refine ⟨?_, ?_, fun hlen hdiff a b => ?_⟩
  · rw [hhistory]
    exact length_pushAll_le (by norm_num) _ _ (Nat.zero_le _)
  · intro h
    rcases Nat.lt_or_ge (samples calls).length 10 with hfew | hlen
    · refine owdGradient_of_few (lt_of_le_of_lt ?_ hfew)
      rw [hhistory]
      exact (pushAll_isSuffix (samples calls) []).length_le
    -- all samples of one time: the denominator is zero and the code answers 0
    · have hsame := h.resolve_left (Nat.not_lt.mpr hlen)
      rw [hslope hlen, fitSlope, (spread_eq_zero_iff _).mpr hsame, div_zero]
  · obtain ⟨p, hp, q, hq, hne⟩ := hdiff
    have hspread : spread (recent calls) ≠ 0 :=
      fun hzero => hne ((spread_eq_zero_iff _).mp hzero p hp q hq)
    rw [hslope hlen]
    exact residual_fit_le hspread a b

/-- Ten samples of a queue that builds up. -/
noncomputable def buildUp : List (Call ℝ) :=
  (List.range 10).map fun i : ℕ => .recordOwd i (2 * (i : ℝ))

theorem owdGradient_fits_buildUp :
    ∃ c, Transition.runAll (call { powf := fun x y => x ^ y, sqrt := Real.sqrt }) (new 0 100) buildUp
        = some c ∧
      ∀ a b, residual (recent buildUp) (intercept (recent buildUp)) c.owdGradient
        ≤ residual (recent buildUp) a b := by
  obtain ⟨c, hc⟩ : ∃ c, Transition.runAll (call { powf := fun x y => x ^ y, sqrt := Real.sqrt })
      (new 0 100) buildUp = some c := ⟨_, rfl⟩
  have hsamples : samples buildUp = (List.range 10).map fun i : ℕ => (i, 2 * (i : ℝ)) := rfl
  have hmem : ∀ i : ℕ, i < 10 → ((i : ℝ), 2 * (i : ℝ)) ∈ recent buildUp := by
    intro i hi
    refine List.mem_map.mpr ⟨(i, 2 * (i : ℝ)), ?_, rfl⟩
    rw [hsamples]
    exact List.mem_map.mpr ⟨i, List.mem_range.mpr hi, rfl⟩
  exact ⟨c, hc, (owdGradient_fits hc).2.2 (by decide)
    ⟨_, hmem 0 (by norm_num), _, hmem 1 (by norm_num), by norm_num⟩⟩

end Updown.ReceiverRateCalculator
