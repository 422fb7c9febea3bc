import Mathlib.Analysis.Convex.Basic
import Mathlib.Tactic

set_option autoImplicit false

/-! # Moving averages

An exponentially weighted average over an ordered field: each sample is mixed into the estimate with
weight `α`, and a sample marked as a start replaces it. The estimate never leaves a convex set that
the samples lie in (`estimate_mem`), it is monotone in the samples (`estimate_mono`), and if they
stay the same it comes arbitrarily close to them (`exists_estimate_near`).
-/

namespace MovingAverage

variable {K : Type} [Field K] [LinearOrder K] [IsStrictOrderedRing K] {α e e' : K}

/-- The estimate after the samples, each with the mark whether it is a start. -/
def estimate (α e : K) : List (Bool × K) → K
  | [] => e
  | (start, m) :: rest => estimate α (if start then m else α * m + (1 - α) * e) rest

theorem estimate_mem {s : Set K} (hs : Convex K s) (h0 : 0 ≤ α) (h1 : α ≤ 1)
    {samples : List (Bool × K)} (hmem : ∀ p ∈ samples, p.2 ∈ s) (he : e ∈ s) :
    estimate α e samples ∈ s := by
  induction samples generalizing e with
  | nil => exact he
  | cons p rest ih =>
      obtain ⟨start, m⟩ := p
      have hm : m ∈ s := hmem (start, m) List.mem_cons_self
      apply ih fun q hq => hmem q (List.mem_cons_of_mem _ hq)
      cases start with
      | true => exact hm
      | false => exact hs hm he h0 (sub_nonneg.mpr h1) (by ring)

omit [LinearOrder K] [IsStrictOrderedRing K] in
/-- What comes before a start does not count. -/
theorem estimate_start (m : K) (rest : List (Bool × K)) :
    estimate α e ((true, m) :: rest) = estimate α m rest := rfl

theorem estimate_mono (h0 : 0 ≤ α) (h1 : α ≤ 1) {ps qs : List (Bool × K)}
    (h : List.Forall₂ (fun p q => p.1 = q.1 ∧ p.2 ≤ q.2) ps qs) (he : e ≤ e') :
    estimate α e ps ≤ estimate α e' qs := by
  induction h generalizing e e' with
  | nil => exact he
  | @cons p q ps qs hpq _ ih =>
      obtain ⟨start, m⟩ := p
      obtain ⟨start', m'⟩ := q
      obtain ⟨rfl, hm⟩ : start = start' ∧ m ≤ m' := hpq
      apply ih
      cases start with
      | true => exact hm
      | false =>
          show α * m + (1 - α) * e ≤ α * m' + (1 - α) * e'
          have := sub_nonneg.mpr h1
          gcongr

/-! ## A steady sample -/

omit [LinearOrder K] [IsStrictOrderedRing K] in
/-- The distance to a sample that stays the same shrinks by the same factor each time. -/
theorem estimate_replicate (m : K) (n : ℕ) :
    ∀ e : K, estimate α e (List.replicate n (false, m)) = m + (1 - α) ^ n * (e - m) := by
  induction n with
  | zero =>
      intro e
      rw [List.replicate_zero, estimate, pow_zero]
      ring
  | succ n ih =>
      intro e
      rw [List.replicate_succ, estimate, if_neg Bool.false_ne_true, ih, pow_succ]
      ring

/-- **The average settles**: it comes and stays as close to a steady sample as one likes. -/
theorem exists_estimate_near [Archimedean K] (h0 : 0 < α) (h1 : α ≤ 1) (m e : K) {ε : K}
    (hε : 0 < ε) :
    ∃ n, ∀ k ≥ n, |estimate α e (List.replicate k (false, m)) - m| < ε := by
  have hfactor : 0 ≤ 1 - α := sub_nonneg.mpr h1
  have hlt : 1 - α < 1 := sub_lt_self 1 h0
  obtain ⟨n, hn⟩ := exists_pow_lt_of_lt_one (show 0 < ε / (|e - m| + 1) by positivity) hlt
  refine ⟨n, fun k hk => ?_⟩
  rw [estimate_replicate, add_sub_cancel_left, abs_mul, abs_of_nonneg (pow_nonneg hfactor k)]
  have hpow : (1 - α) ^ k ≤ (1 - α) ^ n := pow_le_pow_of_le_one hfactor hlt.le hk
  calc (1 - α) ^ k * |e - m|
      ≤ (1 - α) ^ n * (|e - m| + 1) := by
        have := abs_nonneg (e - m)
        gcongr
        linarith
    _ < ε / (|e - m| + 1) * (|e - m| + 1) := by
        have := abs_nonneg (e - m)
        gcongr
    _ = ε := div_mul_cancel₀ _ (by positivity)

end MovingAverage
