import Mathlib.Data.List.Basic
import Mathlib.Tactic

set_option autoImplicit false

/-! # Fixed windows

A counter admits events at times in `ℕ`. A window starts with the first event it admits, lasts `W`,
and admits at most `max` events; a window that is over is replaced at the next event, and may be
forgotten before (`forget`). Two windows that follow each other can both be full, so what holds of
every interval shorter than `W` is the bound `2 * max - 1` (`Tracks.countP_le`): the first event of
a window is `W` before every event of the next. `Spread` is that fact about the list of admitted
times, the newest first, and `Tracks` ties the list to the state of the counter.
-/

namespace FixedWindow

variable {W max keep now clock : ℕ}

/-! ## The counter -/

/-- Count and start of the window that runs, if there is one. -/
abbrev Window := Option (ℕ × ℕ)

/-- The window an event at `now` falls into. -/
def current (W now : ℕ) (w : Window) : ℕ × ℕ :=
  let entry := w.getD (0, now)
  if W ≤ now - entry.2 then (0, now) else entry

/-- Admit the event at `now` if its window has room. -/
def grant (W max now : ℕ) (w : Window) : Window × Bool :=
  if max ≤ (current W now w).1 then (some (current W now w), false)
  else (some ((current W now w).1 + 1, (current W now w).2), true)

/-- Forget a window that started `keep` ago or earlier. -/
def forget (keep now : ℕ) (w : Window) : Window := w.filter fun entry => now - entry.2 < keep

/-! ## Spread-out lists -/

/-- An element and the one `k + 1` places after it are at least `W` apart. -/
def Spread (W k : ℕ) : List ℕ → Prop
  | [] => True
  | t :: ts => (∀ t' ∈ ts.drop k, t' + W ≤ t) ∧ Spread W k ts

/-- **An interval shorter than `W` holds at most `k + 1` elements** of a spread-out list. -/
theorem Spread.countP_le {k a b : ℕ} {ts : List ℕ} (h : Spread W k ts) (hab : b < a + W) :
    ts.countP (fun t => a ≤ t ∧ t ≤ b) ≤ k + 1 := by
  induction ts with
  | nil => simp
  | cons t ts ih =>
      obtain ⟨hfar, hrest⟩ := h
      by_cases ht : a ≤ t ∧ t ≤ b
      · -- what comes after the next `k` elements lies before the interval
        have hdrop : (ts.drop k).countP (fun t => a ≤ t ∧ t ≤ b) = 0 := by
          rw [List.countP_eq_zero]
          intro t' ht'
          have := hfar t' ht'
          simp only [decide_eq_true_eq]
          omega
        have htake : (ts.take k).countP (fun t => a ≤ t ∧ t ≤ b) ≤ k :=
          le_trans List.countP_le_length (List.length_take_le k ts)
        rw [List.countP_cons_of_pos (by simpa using ht), ← List.take_append_drop k ts,
          List.countP_append, hdrop]
        omega
      · rw [List.countP_cons_of_neg (by simpa using ht)]
        exact ih hrest

theorem forall_mem_drop_mono {α : Type*} {P : α → Prop} {l : List α} {m n : ℕ}
    (h : ∀ x ∈ l.drop m, P x) (hmn : m ≤ n) : ∀ x ∈ l.drop n, P x := by
  intro x hx
  rw [← Nat.add_sub_cancel' hmn, ← List.drop_drop] at hx
  exact h x (List.mem_of_mem_drop hx)

/-! ## What the counter knows of the times it has admitted -/

/-- A window is running: its own events are the first `count` ones, and what is `max` places
further is a whole window away. -/
structure Running (W max : ℕ) (admitted : List ℕ) (count start : ℕ) : Prop where
  counted : 0 < count ∨ max = 0
  count_le : count ≤ max
  older : ∀ t ∈ admitted.drop (count - 1), t ≤ start
  far : ∀ t ∈ admitted.drop (count + max - 1), t + W ≤ start

/-- The state of the counter goes with the times it has admitted up to `clock`, newest first. -/
structure Tracks (W max : ℕ) (w : Window) (admitted : List ℕ) (clock : ℕ) : Prop where
  none_of_zero : max = 0 → admitted = []
  le_clock : ∀ t ∈ admitted, t ≤ clock
  spread : Spread W (2 * max - 2) admitted
  /-- Without a window, the last one is over. -/
  ended : w = none → ∀ t ∈ admitted.drop (max - 1), t + W ≤ clock
  running : ∀ count start, w = some (count, start) →
    start ≤ clock ∧ Running W max admitted count start

theorem tracks_start (W max clock : ℕ) : Tracks W max none [] clock where
  none_of_zero := fun _ => rfl
  le_clock := by simp
  spread := trivial
  ended := by simp
  running := by simp

variable {w : Window} {admitted : List ℕ}

theorem Tracks.later (h : Tracks W max w admitted clock) (hclock : clock ≤ now) :
    Tracks W max w admitted now where
  none_of_zero := h.none_of_zero
  le_clock := fun t ht => (h.le_clock t ht).trans hclock
  spread := h.spread
  ended := fun hnone t ht => (h.ended hnone t ht).trans hclock
  running := fun count start hsome =>
    ⟨(h.running count start hsome).1.trans hclock, (h.running count start hsome).2⟩

/-- A window that started `W` ago or earlier is over. -/
theorem Tracks.far_of_late (h : Tracks W max w admitted clock) {count start : ℕ}
    (hsome : w = some (count, start)) (hlate : start + W ≤ clock) :
    ∀ t ∈ admitted.drop (max - 1), t + W ≤ clock := by
  intro t ht
  obtain ⟨-, hrun⟩ := h.running count start hsome
  have hcount := hrun.count_le
  have hstart := forall_mem_drop_mono hrun.older (show count - 1 ≤ max - 1 by omega) t ht
  omega

/-- The window of an event is a new one, the last being over, or the one that runs. -/
theorem Tracks.current_cases (h : Tracks W max w admitted clock) :
    (current W clock w = (0, clock) ∧ ∀ t ∈ admitted.drop (max - 1), t + W ≤ clock) ∨
      w = some (current W clock w) := by
  cases hw : w with
  | none =>
      refine Or.inl ⟨?_, h.ended hw⟩
      simp [current]
  | some entry =>
      obtain ⟨count, start⟩ := entry
      have hstart := (h.running count start hw).1
      by_cases hlate : W ≤ clock - start
      · refine Or.inl ⟨?_, h.far_of_late hw (by omega)⟩
        simp [current, hlate]
      · refine Or.inr ?_
        simp [current, hlate]

/-! ## The steps -/

/-- The event that starts a window. -/
theorem Running.first (hmax : 0 < max) (hle : ∀ t ∈ admitted, t ≤ now)
    (hfar : ∀ t ∈ admitted.drop (max - 1), t + W ≤ now) :
    Running W max (now :: admitted) 1 now where
  counted := Or.inl Nat.one_pos
  count_le := hmax
  older := by simpa using hle
  far := by
    have hdrop : (now :: admitted).drop (1 + max - 1) = admitted.drop (max - 1) := by
      rw [show 1 + max - 1 = (max - 1) + 1 by omega, List.drop_succ_cons]
    rwa [hdrop]

/-- A further event of a window. -/
theorem Running.next {count start : ℕ} (h : Running W max admitted count start)
    (hroom : count < max) : Running W max (now :: admitted) (count + 1) start where
  counted := Or.inl (Nat.succ_pos count)
  count_le := hroom
  older := by
    have hpos : 0 < count := by
      rcases h.counted with hpos | hzero <;> omega
    have hdrop : (now :: admitted).drop (count + 1 - 1) = admitted.drop (count - 1) := by
      rw [show count + 1 - 1 = (count - 1) + 1 by omega, List.drop_succ_cons]
    rw [hdrop]
    exact h.older
  far := by
    have hdrop : (now :: admitted).drop (count + 1 + max - 1)
        = admitted.drop (count + max - 1) := by
      rw [show count + 1 + max - 1 = (count + max - 1) + 1 by omega, List.drop_succ_cons]
    rw [hdrop]
    exact h.far

/-- An event is admitted at `clock`. -/
theorem Tracks.cons (h : Tracks W max w admitted clock) (hmax : 0 < max) {count start : ℕ}
    (hstart : start ≤ clock) (hrun : Running W max (clock :: admitted) count start)
    (hfar : ∀ t ∈ admitted.drop (2 * max - 2), t + W ≤ clock) :
    Tracks W max (some (count, start)) (clock :: admitted) clock where
  none_of_zero := fun hzero => absurd hzero hmax.ne'
  le_clock := by
    intro t ht
    rcases List.mem_cons.mp ht with rfl | ht
    · exact le_refl t
    · exact h.le_clock t ht
  spread := ⟨hfar, h.spread⟩
  ended := by simp
  running := by
    intro count' start' heq
    obtain ⟨rfl, rfl⟩ := Prod.mk.inj (Option.some.inj heq)
    exact ⟨hstart, hrun⟩

/-- A counter that admits nothing. -/
theorem tracks_of_zero (W clock : ℕ) : Tracks W 0 (some (0, clock)) [] clock where
  none_of_zero := fun _ => rfl
  le_clock := by simp
  spread := trivial
  ended := by simp
  running := by
    intro count start heq
    obtain ⟨rfl, rfl⟩ := Prod.mk.inj (Option.some.inj heq)
    exact ⟨le_refl clock, Or.inr rfl, le_refl 0, by simp, by simp⟩

/-- **After an event the counter still tracks what it has admitted.** -/
theorem Tracks.grant (h : Tracks W max w admitted clock) :
    Tracks W max (grant W max clock w).1
      (if (FixedWindow.grant W max clock w).2 then clock :: admitted else admitted) clock := by
  unfold FixedWindow.grant
  rcases h.current_cases with ⟨hcur, hfar⟩ | hold
  · -- a new window
    rw [hcur]
    by_cases hmax : max = 0
    · obtain rfl := h.none_of_zero hmax
      subst hmax
      exact tracks_of_zero W clock
    · have hpos : 0 < max := Nat.pos_of_ne_zero hmax
      rw [if_neg (by simpa using hmax)]
      exact h.cons hpos (le_refl clock) (Running.first hpos h.le_clock hfar)
        (forall_mem_drop_mono hfar (by omega))
  · -- the window that runs
    obtain ⟨hstart, hrun⟩ := h.running _ _ hold
    by_cases hfull : max ≤ (current W clock w).1
    · rw [if_pos hfull, ← hold]
      exact h
    · have hroom := Nat.lt_of_not_le hfull
      rw [if_neg hfull]
      refine h.cons (Nat.zero_lt_of_lt hroom) hstart (hrun.next hroom) fun t ht => ?_
      have hfar := forall_mem_drop_mono hrun.far
        (show (current W clock w).1 + max - 1 ≤ 2 * max - 2 by omega) t ht
      exact hfar.trans hstart

/-- Forgetting a window that is over changes nothing. -/
theorem Tracks.forget (h : Tracks W max w admitted clock) (hkeep : W ≤ keep) :
    Tracks W max (forget keep clock w) admitted clock := by
  cases w with
  | none => exact h
  | some entry =>
      obtain ⟨count, start⟩ := entry
      by_cases hlate : clock - start < keep
      · rw [FixedWindow.forget, Option.filter_some_pos (by simpa using hlate)]
        exact h
      · have hstart := (h.running count start rfl).1
        rw [FixedWindow.forget, Option.filter_some_neg (by simpa using hlate)]
        exact ⟨h.none_of_zero, h.le_clock, h.spread,
          fun _ => h.far_of_late rfl (by omega), by simp⟩

/-- **Every interval shorter than `W` holds at most `2 * max - 1` admitted events.** -/
theorem Tracks.countP_le (h : Tracks W max w admitted clock) {a b : ℕ} (hab : b < a + W) :
    admitted.countP (fun t => a ≤ t ∧ t ≤ b) ≤ 2 * max - 1 := by
  by_cases hmax : max = 0
  · rw [h.none_of_zero hmax]
    simp
  · calc admitted.countP (fun t => a ≤ t ∧ t ≤ b)
        ≤ 2 * max - 2 + 1 := h.spread.countP_le hab
      _ = 2 * max - 1 := by omega

/-! ## Counters that cannot be told apart -/

variable {w₁ w₂ w₃ : Window}

/-- Every event from `clock` on falls into the same window. -/
def Agree (W clock : ℕ) (w₁ w₂ : Window) : Prop :=
  ∀ now, clock ≤ now → current W now w₁ = current W now w₂

theorem Agree.refl (w : Window) : Agree W clock w w := fun _ _ => rfl

theorem Agree.symm (h : Agree W clock w₁ w₂) : Agree W clock w₂ w₁ :=
  fun t ht => (h t ht).symm

theorem Agree.trans (h₁ : Agree W clock w₁ w₂) (h₂ : Agree W clock w₂ w₃) :
    Agree W clock w₁ w₃ := fun t ht => (h₁ t ht).trans (h₂ t ht)

theorem Agree.later (h : Agree W clock w₁ w₂) (hclock : clock ≤ now) : Agree W now w₁ w₂ :=
  fun t ht => h t (hclock.trans ht)

/-- They answer an event alike, and are the same after it. -/
theorem Agree.grant (h : Agree W clock w₁ w₂) (hclock : clock ≤ now) :
    FixedWindow.grant W max now w₁ = FixedWindow.grant W max now w₂ := by
  unfold FixedWindow.grant
  rw [h now hclock]

/-- A window that has been over for long enough is not missed. -/
theorem agree_forget (hkeep : W ≤ keep) (w : Window) : Agree W now (forget keep now w) w := by
  intro t ht
  cases w with
  | none => rfl
  | some entry =>
      by_cases hlate : now - entry.2 < keep
      · rw [forget, Option.filter_some_pos (by simpa using hlate)]
      · have hover : W ≤ t - entry.2 := by omega
        rw [forget, Option.filter_some_neg (by simpa using hlate)]
        simp [current, hover]

/-- The event at `now` starts a new window. -/
def Resets (W now : ℕ) (w : Window) : Prop := ∀ entry, w = some entry → W ≤ now - entry.2

theorem exists_of_not_resets (h : ¬ Resets W now w) : w = some (current W now w) := by
  cases w with
  | none => exact absurd (fun _ hsome => nomatch hsome) h
  | some entry =>
      have hrunning : ¬ W ≤ now - entry.2 := fun hlate =>
        h fun _ hsome => Option.some.inj hsome ▸ hlate
      simp [current, hrunning]

end FixedWindow
