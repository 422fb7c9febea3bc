import Mathlib.Tactic

set_option autoImplicit false

/-! # Pacing by sleeping

A sender works, and now and then compares the clock with the time its work should have taken so far:
if it is ahead by more than a threshold `θ`, it sleeps for the difference. The length of a sleep is
a 64-bit number. Work may take any time. `earliest` is the least time such a run can end
(`earliest_le_run`, `exists_run_eq_earliest`).
-/

namespace Pacer

/-- The clock after the check at time `now` of work that is due to be done at time `due`. -/
def pace (θ due now : ℕ) : ℕ :=
  if now < due ∧ θ < due - now then now + (due - now) % 2 ^ 64 else now

/-- The clock after steps of work that take the given times, some of which are followed by a
check. -/
def run (θ : ℕ) : ℕ → List (ℕ × Option ℕ) → ℕ
  | now, [] => now
  | now, (work, none) :: steps => run θ (now + work) steps
  | now, (work, some due) :: steps => run θ (pace θ due (now + work)) steps

/-- The least time after a step of work and a check. -/
def earliestPace (θ due now : ℕ) : ℕ :=
  if now + 2 ^ 64 ≤ due then now + (due - now) % 2 ^ 64 else max now (due - θ)

/-- The least time after steps of which the checks are given. -/
def earliest (θ : ℕ) : ℕ → List (Option ℕ) → ℕ
  | now, [] => now
  | now, none :: checks => earliest θ now checks
  | now, some due :: checks => earliest θ (earliestPace θ due now) checks

variable {θ : ℕ}

/-! ## One check -/

theorem earliestPace_le_pace (hθ : θ < 2 ^ 64) (due now work : ℕ) :
    earliestPace θ due now ≤ pace θ due (now + work) := by
  unfold earliestPace pace
  by_cases hlong : now + 2 ^ 64 ≤ due
  · rw [if_pos hlong]
    have hmod := Nat.mod_le (due - now) (2 ^ 64)
    by_cases hsleep : now + work < due ∧ θ < due - (now + work)
    · rw [if_pos hsleep]
      have hsplit : due - now = due - (now + work) + work := by omega
      calc now + (due - now) % 2 ^ 64
          = now + (due - (now + work) + work) % 2 ^ 64 := by rw [hsplit]
        _ ≤ now + ((due - (now + work)) % 2 ^ 64 + work % 2 ^ 64) := by
            rw [Nat.add_mod]
            exact Nat.add_le_add_left (Nat.mod_le _ _) _
        _ ≤ now + work + (due - (now + work)) % 2 ^ 64 := by
            have := Nat.mod_le work (2 ^ 64)
            omega
    · rw [if_neg hsleep]
      have hcut : 2 ^ 64 + (due - now) % 2 ^ 64 ≤ due - now := by
        have := Nat.div_add_mod (due - now) (2 ^ 64)
        have : 1 ≤ (due - now) / 2 ^ 64 := Nat.div_pos (by omega) (by norm_num)
        omega
      omega
  · rw [if_neg hlong]
    by_cases hsleep : now + work < due ∧ θ < due - (now + work)
    · rw [if_pos hsleep, Nat.mod_eq_of_lt (by omega)]
      omega
    · rw [if_neg hsleep]
      omega

theorem exists_pace_eq (hθ : θ < 2 ^ 64) (due now : ℕ) :
    ∃ work, pace θ due (now + work) = earliestPace θ due now := by
  unfold earliestPace pace
  by_cases hlong : now + 2 ^ 64 ≤ due
  · refine ⟨0, ?_⟩
    rw [if_pos hlong, Nat.add_zero, if_pos (by omega)]
  · -- work until the threshold is no longer exceeded
    refine ⟨max now (due - θ) - now, ?_⟩
    rw [if_neg hlong, if_neg (by omega)]
    omega

theorem earliestPace_mono (hθ : θ < 2 ^ 64) (due : ℕ) {now now' : ℕ} (h : now ≤ now') :
    earliestPace θ due now ≤ earliestPace θ due now' := by
  obtain ⟨work, hwork⟩ := exists_pace_eq hθ due now'
  obtain ⟨late, rfl⟩ := Nat.exists_eq_add_of_le h
  calc earliestPace θ due now ≤ pace θ due (now + (late + work)) := earliestPace_le_pace hθ due now _
    _ = earliestPace θ due (now + late) := by rw [← hwork, Nat.add_assoc]

/-! ## Whole runs -/

theorem earliest_mono (hθ : θ < 2 ^ 64) (checks : List (Option ℕ)) :
    ∀ {now now' : ℕ}, now ≤ now' → earliest θ now checks ≤ earliest θ now' checks := by
  induction checks with
  | nil => exact fun h => h
  | cons check checks ih =>
      intro now now' h
      cases check with
      | none => exact ih h
      | some due => exact ih (earliestPace_mono hθ due h)

/-- **No run ends before `earliest`** … -/
theorem earliest_le_run (hθ : θ < 2 ^ 64) (steps : List (ℕ × Option ℕ)) :
    ∀ now, earliest θ now (steps.map Prod.snd) ≤ run θ now steps := by
  induction steps with
  | nil => exact fun now => le_refl now
  | cons step steps ih =>
      obtain ⟨work, check⟩ := step
      intro now
      cases check with
      | none =>
          calc earliest θ now (steps.map Prod.snd)
              ≤ earliest θ (now + work) (steps.map Prod.snd) :=
                earliest_mono hθ _ (Nat.le_add_right now work)
            _ ≤ run θ (now + work) steps := ih _
      | some due =>
          calc earliest θ (earliestPace θ due now) (steps.map Prod.snd)
              ≤ earliest θ (pace θ due (now + work)) (steps.map Prod.snd) :=
                earliest_mono hθ _ (earliestPace_le_pace hθ due now work)
            _ ≤ run θ (pace θ due (now + work)) steps := ih _

/-- … **and some run ends then.** -/
theorem exists_run_eq_earliest (hθ : θ < 2 ^ 64) (checks : List (Option ℕ)) :
    ∀ now, ∃ steps, steps.map Prod.snd = checks ∧ run θ now steps = earliest θ now checks := by
  induction checks with
  | nil => exact fun now => ⟨[], rfl, rfl⟩
  | cons check checks ih =>
      intro now
      cases check with
      | none =>
          obtain ⟨steps, hsteps, hrun⟩ := ih now
          exact ⟨(0, none) :: steps, by rw [List.map_cons, hsteps], hrun⟩
      | some due =>
          obtain ⟨work, hwork⟩ := exists_pace_eq hθ due now
          obtain ⟨steps, hsteps, hrun⟩ := ih (earliestPace θ due now)
          refine ⟨(work, some due) :: steps, by rw [List.map_cons, hsteps], ?_⟩
          rw [run, hwork, hrun, earliest]

/-- Steps without a check do not matter. -/
theorem earliest_filterMap (θ : ℕ) (checks : List (Option ℕ)) :
    ∀ now, earliest θ now checks = earliest θ now ((checks.filterMap id).map some) := by
  induction checks with
  | nil => exact fun _ => rfl
  | cons check checks ih =>
      intro now
      cases check with
      | none => exact ih now
      | some due => exact ih (earliestPace θ due now)

theorem run_of_free {steps : List (ℕ × Option ℕ)} (h : ∀ step ∈ steps, step = (0, none)) :
    ∀ now, run θ now steps = now := by
  induction steps with
  | nil => exact fun _ => rfl
  | cons step steps ih =>
      intro now
      rw [h step List.mem_cons_self]
      exact ih (fun step' hstep' => h step' (List.mem_cons_of_mem step hstep')) now

/-! ## Where sleeps are not cut off -/

/-- Each check is due less than `2^64 - θ` after the one before, and not before it. -/
def Steady (θ : ℕ) : ℕ → List ℕ → Prop
  | _, [] => True
  | due, due' :: dues => due ≤ due' ∧ due' + θ < due + 2 ^ 64 ∧ Steady θ due' dues

/-- **Then a run can end `θ` before its last check is due, and not earlier.** -/
theorem earliest_eq (dues : List ℕ) :
    ∀ {due : ℕ}, Steady θ due dues →
      earliest θ (due - θ) (dues.map some) = dues.getLastD due - θ := by
  induction dues with
  | nil => exact fun _ => rfl
  | cons due' dues ih =>
      intro due h
      obtain ⟨hle, hlt, hrest⟩ := h
      have hpace : earliestPace θ due' (due - θ) = due' - θ := by
        rw [earliestPace, if_neg (by omega)]
        omega
      rw [List.map_cons, earliest, hpace, ih hrest, List.getLastD_cons]

end Pacer
