import Updown.Fec.Codec
import Updown.Lib.MovingAverage

set_option autoImplicit false

/-! # Adaptive redundancy over runs

`AdaptiveFec` (`fec/mod.rs`) fed with the statistics of one block after the other. The loss estimate
is a moving average of the reported losses, so it stays among them, and the recommended ratio is
monotone in it (`bounded_and_monotone`). The margin on the estimate is a factor, while the
redundancy that makes up for a loss `L` is `L / (1 - L)`: the factor is enough up to a loss of
`3 / 13` and not beyond (`coversLoss_iff`).
-/

namespace Updown

namespace AdaptiveFec

/-- The controller after the statistics of a run of blocks. -/
def run (a : AdaptiveFec) (ss : List DecodeStats) : AdaptiveFec := ss.foldl update a

theorem run_append (a : AdaptiveFec) (ss ts : List DecodeStats) :
    a.run (ss ++ ts) = (a.run ss).run ts := List.foldl_append

/-- The loss that `update` reads out of the statistics. -/
def measured (s : DecodeStats) : ℚ := max s.estimatedLoss 0

/-- The samples of the average: the first block starts it, and so does the one at which the count
of blocks comes round to one again. -/
def samples : ℕ → List DecodeStats → List (Bool × ℚ)
  | _, [] => []
  | n, s :: ss =>
      (decide ((n + 1) % 2 ^ 32 = 1), measured s) :: samples ((n + 1) % 2 ^ 32) ss

/-! ## The estimate as a moving average -/

theorem lossEstimate_run (a : AdaptiveFec) (ss : List DecodeStats) :
    (a.run ss).lossEstimate
      = MovingAverage.estimate a.alpha a.lossEstimate (samples a.blocksObserved ss) := by
  induction ss generalizing a with
  | nil => rfl
  | cons s ss ih =>
      calc ((a.update s).run ss).lossEstimate
          = MovingAverage.estimate a.alpha (a.update s).lossEstimate
              (samples ((a.blocksObserved + 1) % 2 ^ 32) ss) := ih (a.update s)
        _ = MovingAverage.estimate a.alpha a.lossEstimate (samples a.blocksObserved (s :: ss)) := by
              simp [MovingAverage.estimate, samples, update, measured]

/-- Updates change the estimate and the count, and none of the settings. -/
theorem run_settings (a : AdaptiveFec) (ss : List DecodeStats) :
    a.run ss = { a with
      lossEstimate := (a.run ss).lossEstimate
      blocksObserved := (a.run ss).blocksObserved } := by
  induction ss generalizing a with
  | nil => rfl
  | cons s ss ih => exact ih (a.update s)

theorem mem_samples {n : ℕ} {ss : List DecodeStats} {p : Bool × ℚ} (h : p ∈ samples n ss) :
    ∃ s ∈ ss, p.2 = measured s := by
  induction ss generalizing n with
  | nil => cases h
  | cons s ss ih =>
      rcases List.mem_cons.mp h with rfl | hrest
      · exact ⟨s, List.mem_cons_self, rfl⟩
      · obtain ⟨t, ht, heq⟩ := ih hrest
        exact ⟨t, List.mem_cons_of_mem _ ht, heq⟩

/-- Statistics of two runs position by position: the marks agree, the samples compare. -/
theorem samples_mono {n : ℕ} {ss ts : List DecodeStats}
    (h : List.Forall₂ (fun s t => s.estimatedLoss ≤ t.estimatedLoss) ss ts) :
    List.Forall₂ (fun p q => p.1 = q.1 ∧ p.2 ≤ q.2) (samples n ss) (samples n ts) := by
  induction h generalizing n with
  | nil => exact .nil
  | cons hst _ ih => exact .cons ⟨rfl, max_le_max_right 0 hst⟩ ih

/-- The first block starts the average. -/
theorem samples_new (s : DecodeStats) (ss : List DecodeStats) :
    samples new.blocksObserved (s :: ss) = (true, measured s) :: samples 1 ss := rfl

/-! ## Bounds and monotonicity -/

theorem le_foldr_measured {ss : List DecodeStats} {s : DecodeStats} (h : s ∈ ss) :
    measured s ≤ (ss.map measured).foldr max 0 :=
  List.le_max_of_le' 0 (List.mem_map_of_mem h) le_rfl

theorem foldr_measured_nonneg (ss : List DecodeStats) : 0 ≤ (ss.map measured).foldr max 0 := by
  induction ss with
  | nil => exact le_rfl
  | cons s ss ih => exact ih.trans (le_max_right _ _)

/-- The estimate lies between zero and the largest loss reported. -/
theorem lossEstimate_run_mem (ss : List DecodeStats) :
    (new.run ss).lossEstimate ∈ Set.Icc 0 ((ss.map measured).foldr max 0) := by
  rw [lossEstimate_run]
  apply MovingAverage.estimate_mem (convex_Icc _ _)
  · norm_num [new]
  · norm_num [new]
  · intro p hp
    obtain ⟨s, hs, heq⟩ := mem_samples hp
    rw [heq]
    exact ⟨le_max_right _ _, le_foldr_measured hs⟩
  · exact ⟨le_rfl, foldr_measured_nonneg ss⟩

theorem lossEstimate_run_mono {ss ts : List DecodeStats}
    (h : List.Forall₂ (fun s t => s.estimatedLoss ≤ t.estimatedLoss) ss ts) :
    (new.run ss).lossEstimate ≤ (new.run ts).lossEstimate := by
  rw [lossEstimate_run, lossEstimate_run]
  apply MovingAverage.estimate_mono _ _ (samples_mono h) le_rfl
  · norm_num [new]
  · norm_num [new]

/-- The recommended ratio is the estimate with its margin, between the floor and the ceiling. -/
theorem recommendedRatio_run (ss : List DecodeStats) :
    (new.run ss).recommendedRatio
      = min (max ((new.run ss).lossEstimate * new.safetyMargin) new.minRatio) new.maxRatio := by
  unfold recommendedRatio
  rw [run_settings]

theorem recommendedRatio_run_mem (ss : List DecodeStats) :
    (new.run ss).recommendedRatio ∈ Set.Icc new.minRatio new.maxRatio := by
  rw [recommendedRatio_run]
  constructor
  · apply le_min (le_max_right _ _)
    norm_num [new]
  · exact min_le_right _ _

/-- **The controller over runs**: the estimate lies between zero and the largest loss reported, the
ratio within its limits and not below the margin on the estimate, and a run that reports at least as
much loss at every position ends with a ratio at least as large. -/
theorem bounded_and_monotone :
    (∀ ss : List DecodeStats,
      0 ≤ (new.run ss).lossEstimate ∧
      (new.run ss).lossEstimate ≤ (ss.map measured).foldr max 0 ∧
      new.minRatio ≤ (new.run ss).recommendedRatio ∧
      (new.run ss).recommendedRatio ≤ new.maxRatio ∧
      min new.maxRatio (new.safetyMargin * (new.run ss).lossEstimate)
        ≤ (new.run ss).recommendedRatio) ∧
    ∀ ss ts : List DecodeStats,
      List.Forall₂ (fun s t => s.estimatedLoss ≤ t.estimatedLoss) ss ts →
      (new.run ss).recommendedRatio ≤ (new.run ts).recommendedRatio := by
  constructor
  · intro ss
    obtain ⟨hnonneg, hle⟩ := lossEstimate_run_mem ss
    obtain ⟨hmin, hmax⟩ := recommendedRatio_run_mem ss
    refine ⟨hnonneg, hle, hmin, hmax, ?_⟩
    rw [recommendedRatio_run, min_comm, mul_comm]
    exact min_le_min_right _ (le_max_left _ _)
  · intro ss ts h
    have hmargin : 0 ≤ new.safetyMargin := by norm_num [new]
    have hmono := mul_le_mul_of_nonneg_right (lossEstimate_run_mono h) hmargin
    rw [recommendedRatio_run, recommendedRatio_run]
    exact min_le_min_right _ (max_le_max_right _ hmono)

theorem bounded_and_monotone_two :
    (new.run [⟨100, 100, 0, 0⟩, ⟨100, 100, 0, -1 / 10⟩]).recommendedRatio
      ≤ (new.run [⟨100, 130, 30, 3 / 10⟩, ⟨100, 100, 0, 0⟩]).recommendedRatio :=
  bounded_and_monotone.2 _ _ (.cons (by norm_num) (.cons (by norm_num) .nil))

/-! ## The margin against the loss -/

/-- The ratio `r` makes up for the loss `L`: of a symbol and its share of repair symbols a whole
symbol is left, and so, in expectation, are `K` of the symbols sent for a block of `K`. -/
def CoversLoss (r L : ℚ) : Prop :=
  1 ≤ (1 + r) * (1 - L) ∧
    ∀ (e : FecEncoder) (K : ℕ), e.repairRatio = r → (K : ℚ) ≤ (K + e.numRepair K) * (1 - L)

/-- What is left of the whole block follows from what is left of a symbol. -/
theorem coversLoss_of_le {r L : ℚ} (hL : L ≤ 1) (h : 1 ≤ (1 + r) * (1 - L)) : CoversLoss r L := by
  refine ⟨h, fun e K he => ?_⟩
  have hceil : (K : ℚ) * r ≤ e.numRepair K := by
    have hround : (K : ℚ) * r ≤ ⌈(K : ℚ) * r⌉ := Int.le_ceil _
    have hnat : ⌈(K : ℚ) * r⌉ ≤ (e.numRepair K : ℤ) := by
      rw [FecEncoder.numRepair, he]
      exact Int.self_le_toNat _
    exact hround.trans (by exact_mod_cast hnat)
  calc (K : ℚ)
      ≤ K * ((1 + r) * (1 - L)) := le_mul_of_one_le_right (Nat.cast_nonneg K) h
    _ = (K + K * r) * (1 - L) := by ring
    _ ≤ (K + e.numRepair K) * (1 - L) := by
          have := sub_nonneg.mpr hL
          gcongr

/-- Blocks that all report the loss `L` give the estimate `L`. -/
theorem lossEstimate_run_const {L : ℚ} (hL : 0 ≤ L) {ss : List DecodeStats} (hne : ss ≠ [])
    (hss : ∀ s ∈ ss, s.estimatedLoss = L) : (new.run ss).lossEstimate = L := by
  have hmeasured : ∀ s ∈ ss, measured s = L := by
    intro s hs
    rw [measured, hss s hs, max_eq_left hL]
  cases ss with
  | nil => exact absurd rfl hne
  | cons s ss =>
      have hmem : (new.run (s :: ss)).lossEstimate ∈ ({L} : Set ℚ) := by
        rw [lossEstimate_run, samples_new, MovingAverage.estimate_start]
        apply MovingAverage.estimate_mem (convex_singleton L)
        · norm_num [new]
        · norm_num [new]
        · intro p hp
          obtain ⟨t, ht, heq⟩ := mem_samples hp
          exact heq.trans (hmeasured t (List.mem_cons_of_mem _ ht))
        · exact hmeasured s List.mem_cons_self
      exact hmem

/-- **The recommended ratio covers a steady loss up to `3 / 13` and none beyond.** -/
theorem coversLoss_iff {L : ℚ} (h0 : 0 ≤ L) (h1 : L ≤ 1 / 3) {ss : List DecodeStats}
    (hne : ss ≠ []) (hss : ∀ s ∈ ss, s.estimatedLoss = L) :
    CoversLoss (new.run ss).recommendedRatio L ↔ L ≤ 3 / 13 := by
  have hratio : (new.run ss).recommendedRatio = max (L * (13 / 10)) (2 / 100) := by
    rw [recommendedRatio_run, lossEstimate_run_const h0 hne hss]
    apply min_eq_left
    apply max_le
    · norm_num [new]
      linarith
    · norm_num [new]
  rw [hratio]
  constructor
  · rintro ⟨hcovers, -⟩
    -- beyond `3 / 13` the ratio is above its floor, and `(1 + 1.3 L) (1 - L)` below one
    by_contra! hL
    rw [max_eq_left (by linarith)] at hcovers
    nlinarith
  · intro hL
    apply coversLoss_of_le (by linarith)
    rcases le_total (L * (13 / 10)) (2 / 100) with hfloor | hmargin
    · rw [max_eq_right hfloor]
      linarith
    · rw [max_eq_left hmargin]
      nlinarith

theorem coversLoss_iff_fifth :
    ([⟨100, 125, 25, 1 / 5⟩] : List DecodeStats) ≠ [] ∧
      (CoversLoss (new.run [⟨100, 125, 25, 1 / 5⟩]).recommendedRatio (1 / 5) ↔
        (1 / 5 : ℚ) ≤ 3 / 13) :=
  ⟨by simp, coversLoss_iff (by norm_num) (by norm_num) (by simp) (by simp)⟩

/-- At a loss of 30% on every block the ratio is 39%, and 97.3% of a symbol is left. -/
theorem not_coversLoss_thirty :
    ¬ ∀ (L : ℚ) (ss : List DecodeStats), 0 ≤ L → L ≤ 1 / 3 → ss ≠ [] →
      (∀ s ∈ ss, s.estimatedLoss = L) → CoversLoss (new.run ss).recommendedRatio L := by
  intro h
  obtain ⟨hcovers, -⟩ := h (3 / 10) [⟨100, 130, 30, 3 / 10⟩] (by norm_num) (by norm_num) (by simp)
    (by simp)
  norm_num [run, new, update, recommendedRatio] at hcovers

end AdaptiveFec

end Updown
