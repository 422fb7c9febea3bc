import Mathlib.Algebra.Order.BigOperators.Group.List
import Mathlib.Tactic

set_option autoImplicit false

/-! # Least squares

The line that fits a list of points best. `fitSlope` is the usual quotient of sums; `spread` is its
denominator, zero exactly if all points lie over one place (`spread_eq_zero_iff`). Otherwise the
line with this slope and `intercept` has the smallest sum of squared residuals of all lines
(`residual_fit_le`), and moving all points along the first axis does not change the slope
(`fitSlope_shift`).
-/

namespace LeastSquares

variable {K : Type} [Field K]

/-- The sum of a quantity over the points. -/
def total (f : K × K → K) (ps : List (K × K)) : K := (ps.map f).sum

theorem total_cons (f : K × K → K) (p : K × K) (ps : List (K × K)) :
    total f (p :: ps) = f p + total f ps := by
  rw [total, List.map_cons, List.sum_cons, total]

/-- `n ∑x² - (∑x)²`. -/
def spread (ps : List (K × K)) : K :=
  ps.length * total (fun p => p.1 * p.1) ps - total Prod.fst ps * total Prod.fst ps

/-- `n ∑xy - ∑x ∑y`. -/
def cross (ps : List (K × K)) : K :=
  ps.length * total (fun p => p.1 * p.2) ps - total Prod.fst ps * total Prod.snd ps

def fitSlope (ps : List (K × K)) : K := cross ps / spread ps

def intercept (ps : List (K × K)) : K :=
  (total Prod.snd ps - fitSlope ps * total Prod.fst ps) / ps.length

/-- How far the points are from the line `a + b x`. -/
def residual (ps : List (K × K)) (a b : K) : K :=
  total (fun p => (p.2 - (a + b * p.1)) ^ 2) ps

/-! ## The spread -/

theorem spread_cons (p : K × K) (ps : List (K × K)) :
    spread (p :: ps) = spread ps + total (fun q => (p.1 - q.1) ^ 2) ps := by
  have hsum : total (fun q => (p.1 - q.1) ^ 2) ps
      = ps.length * (p.1 * p.1) - 2 * p.1 * total Prod.fst ps + total (fun q => q.1 * q.1) ps := by
    induction ps with
    | nil => simp [total]
    | cons q ps ih =>
        simp only [total_cons, List.length_cons, ih]
        push_cast
        ring
  rw [hsum]
  simp only [spread, total_cons, List.length_cons]
  push_cast
  ring

section Ordered

variable [LinearOrder K] [IsStrictOrderedRing K]

theorem total_nonneg {f : K × K → K} {ps : List (K × K)} (h : ∀ p ∈ ps, 0 ≤ f p) :
    0 ≤ total f ps := by
  refine List.sum_nonneg fun x hx => ?_
  obtain ⟨p, hp, rfl⟩ := List.mem_map.mp hx
  exact h p hp

theorem spread_nonneg (ps : List (K × K)) : 0 ≤ spread ps := by
  induction ps with
  | nil => simp [spread, total]
  | cons p ps ih =>
      rw [spread_cons]
      exact add_nonneg ih (total_nonneg fun q _ => sq_nonneg _)

/-- A sum of squares is zero only if the squares are. -/
theorem eq_of_total_sq {x : K} {ps : List (K × K)} (h : total (fun q => (x - q.1) ^ 2) ps = 0) :
    ∀ q ∈ ps, q.1 = x := by
  induction ps with
  | nil => exact fun q hq => absurd hq List.not_mem_nil
  | cons p ps ih =>
      rw [total_cons] at h
      have hrest : 0 ≤ total (fun q => (x - q.1) ^ 2) ps := total_nonneg fun q _ => sq_nonneg _
      have hp : (x - p.1) ^ 2 = 0 := by
        have := sq_nonneg (x - p.1)
        linarith
      intro q hq
      rcases List.mem_cons.mp hq with rfl | hq
      · exact (sub_eq_zero.mp (pow_eq_zero_iff two_ne_zero |>.mp hp)).symm
      · exact ih (by linarith) q hq

/-- **The spread is zero exactly if all points lie over one place.** -/
theorem spread_eq_zero_iff (ps : List (K × K)) :
    spread ps = 0 ↔ ∀ p ∈ ps, ∀ q ∈ ps, p.1 = q.1 := by
  induction ps with
  | nil => simp [spread, total]
  | cons p ps ih =>
      rw [spread_cons]
      have hspread := spread_nonneg ps
      have hsquares : 0 ≤ total (fun q => (p.1 - q.1) ^ 2) ps := total_nonneg fun q _ => sq_nonneg _
      constructor
      · intro h
        have hall : ∀ q ∈ p :: ps, q.1 = p.1 := by
          intro q hq
          rcases List.mem_cons.mp hq with rfl | hq
          · rfl
          · exact eq_of_total_sq (by linarith) q hq
        exact fun q hq q' hq' => (hall q hq).trans (hall q' hq').symm
      · intro h
        have hzero : spread ps = 0 := ih.mpr fun q hq q' hq' =>
          h q (List.mem_cons_of_mem _ hq) q' (List.mem_cons_of_mem _ hq')
        have hrest : total (fun q => (p.1 - q.1) ^ 2) ps = 0 := by
          refine List.sum_eq_zero fun x hx => ?_
          obtain ⟨q, hq, rfl⟩ := List.mem_map.mp hx
          rw [h p List.mem_cons_self q (List.mem_cons_of_mem _ hq), sub_self, zero_pow two_ne_zero]
        rw [hzero, hrest, add_zero]

end Ordered

/-! ## The best line -/

/-- The residual of a line, by the sums over the points. -/
theorem residual_eq (ps : List (K × K)) (a b : K) :
    residual ps a b = total (fun p => p.2 * p.2) ps - 2 * a * total Prod.snd ps
      - 2 * b * total (fun p => p.1 * p.2) ps + ps.length * (a * a)
      + 2 * a * b * total Prod.fst ps + b * b * total (fun p => p.1 * p.1) ps := by
  induction ps with
  | nil => simp [residual, total]
  | cons p ps ih =>
      rw [residual, total_cons, ← residual, ih]
      simp only [total_cons, List.length_cons]
      push_cast
      ring

/-- **No line fits better.** -/
theorem residual_fit_le [LinearOrder K] [IsStrictOrderedRing K] {ps : List (K × K)}
    (h : spread ps ≠ 0) (a b : K) :
    residual ps (intercept ps) (fitSlope ps) ≤ residual ps a b := by
  have hn : (0 : K) < ps.length := by
    cases ps with
    | nil => exact absurd (by simp [spread, total]) h
    | cons p ps => exact_mod_cast Nat.succ_pos _
  have hspread : 0 < spread ps := lt_of_le_of_ne (spread_nonneg ps) (Ne.symm h)
  -- `n` times the residual is a sum of two squares and what no line changes
  have hsquares : ∀ a b : K, (ps.length : K) * residual ps a b =
      (ps.length * a + b * total Prod.fst ps - total Prod.snd ps) ^ 2
        + spread ps * (b - fitSlope ps) ^ 2
        + (ps.length * total (fun p => p.2 * p.2) ps - total Prod.snd ps ^ 2
            - fitSlope ps ^ 2 * spread ps) := by
    intro a b
    have hcross : fitSlope ps * spread ps = cross ps := div_mul_cancel₀ _ h
    have hexpand : spread ps * (b - fitSlope ps) ^ 2 - fitSlope ps ^ 2 * spread ps
        = b ^ 2 * spread ps - 2 * b * cross ps := by
      rw [← hcross]
      ring
    have hgoal : (ps.length : K) * residual ps a b =
        (ps.length * a + b * total Prod.fst ps - total Prod.snd ps) ^ 2
          + (b ^ 2 * spread ps - 2 * b * cross ps)
          + (ps.length * total (fun p => p.2 * p.2) ps - total Prod.snd ps ^ 2) := by
      rw [residual_eq, spread, cross]
      ring
    rw [hgoal, ← hexpand]
    ring
  have hfit : (ps.length : K) * intercept ps + fitSlope ps * total Prod.fst ps
      - total Prod.snd ps = 0 := by
    rw [intercept, mul_div_cancel₀ _ hn.ne']
    ring
  refine le_of_mul_le_mul_left ?_ hn
  rw [hsquares, hsquares a b, hfit, sub_self]
  have h1 := sq_nonneg (ps.length * a + b * total Prod.fst ps - total Prod.snd ps)
  have h2 := mul_nonneg hspread.le (sq_nonneg (b - fitSlope ps))
  linarith

/-! ## Moving the points -/

theorem total_map (f : K × K → K) (g : K × K → K × K) (ps : List (K × K)) :
    total f (ps.map g) = total (fun p => f (g p)) ps := by
  rw [total, List.map_map, total]
  rfl

theorem total_fst_shift (c : K) (ps : List (K × K)) :
    total Prod.fst (ps.map fun p => (p.1 - c, p.2)) = total Prod.fst ps - ps.length * c := by
  induction ps with
  | nil => simp [total]
  | cons p ps ih =>
      rw [List.map_cons, total_cons, total_cons, ih, List.length_cons]
      push_cast
      ring

theorem spread_shift (c : K) (ps : List (K × K)) :
    spread (ps.map fun p => (p.1 - c, p.2)) = spread ps := by
  have hsquares : total (fun p => p.1 * p.1) (ps.map fun p => (p.1 - c, p.2))
      = total (fun p => p.1 * p.1) ps - 2 * c * total Prod.fst ps + ps.length * (c * c) := by
    induction ps with
    | nil => simp [total]
    | cons p ps ih =>
        rw [List.map_cons, total_cons, total_cons, total_cons, ih, List.length_cons]
        push_cast
        ring
  rw [spread, spread, total_fst_shift, hsquares, List.length_map]
  ring

theorem cross_shift (c : K) (ps : List (K × K)) :
    cross (ps.map fun p => (p.1 - c, p.2)) = cross ps := by
  have hproducts : total (fun p => p.1 * p.2) (ps.map fun p => (p.1 - c, p.2))
      = total (fun p => p.1 * p.2) ps - c * total Prod.snd ps := by
    induction ps with
    | nil => simp [total]
    | cons p ps ih =>
        rw [List.map_cons, total_cons, total_cons, total_cons, ih]
        ring
  rw [cross, cross, total_fst_shift, hproducts, total_map Prod.snd, List.length_map]
  ring

/-- **Moving all points along the first axis** does not change the slope. -/
theorem fitSlope_shift (c : K) (ps : List (K × K)) :
    fitSlope (ps.map fun p => (p.1 - c, p.2)) = fitSlope ps := by
  rw [fitSlope, fitSlope, cross_shift, spread_shift]

end LeastSquares
