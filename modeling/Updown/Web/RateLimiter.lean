import Mathlib.Data.Nat.Notation
import Mathlib.Logic.Function.Basic

set_option autoImplicit false

/-! # The server's rate limiter

`RateLimiter` of `web/api.rs`: a count of requests for each action and key, started anew when its
window is over. Instants are in nanoseconds.
-/

namespace Updown.Web

/-- Rate limit window in seconds. -/
def RATE_LIMIT_WINDOW_SECS : ℕ := 60

/-- `Duration::as_secs`. -/
def asSecs (duration : ℕ) : ℕ := duration / 1000000000

structure RateLimiter where
  /-- Maps (action, key) to (count, window start). -/
  buckets : String × String → Option (ℕ × ℕ)

namespace RateLimiter

def new : RateLimiter := { buckets := fun _ => none }

/-- The count of the window that runs, and its start; an expired window is replaced. -/
def entry (now : ℕ) (l : RateLimiter) (bucket : String × String) : ℕ × ℕ :=
  let entry := (l.buckets bucket).getD (0, now)
  if RATE_LIMIT_WINDOW_SECS ≤ asSecs (now - entry.2) then (0, now) else entry

/-- Check if an action is allowed: `true` if allowed, `false` if rate limited. -/
def check (now : ℕ) (l : RateLimiter) (action key : String) (max : ℕ) : RateLimiter × Bool :=
  let entry := l.entry now (action, key)
  if max ≤ entry.1 then
    ({ buckets := Function.update l.buckets (action, key) (some entry) }, false)
  else
    ({ buckets := Function.update l.buckets (action, key) (some (entry.1 + 1, entry.2)) }, true)

/-- Periodic cleanup of expired entries. -/
def cleanup (now : ℕ) (l : RateLimiter) : RateLimiter :=
  { buckets := fun bucket => (l.buckets bucket).filter fun entry =>
      asSecs (now - entry.2) < RATE_LIMIT_WINDOW_SECS * 2 }

/-- **A check touches no other bucket.** -/
theorem buckets_check_of_ne {now max : ℕ} {l : RateLimiter} {action key : String}
    {bucket : String × String} (h : bucket ≠ (action, key)) :
    (l.check now action key max).1.buckets bucket = l.buckets bucket := by
  unfold check
  dsimp only
  split <;> exact Function.update_of_ne h _ _

/-- **An action that is allowed is counted, and within the limit.** -/
theorem check_true {now max : ℕ} {l : RateLimiter} {action key : String}
    (h : (l.check now action key max).2 = true) :
    ∃ count start, (l.check now action key max).1.buckets (action, key) = some (count, start) ∧
      0 < count ∧ count ≤ max := by
  unfold check at h ⊢
  dsimp only at h ⊢
  split at h
  · cases h
  · next hroom =>
      rw [if_neg hroom]
      exact ⟨_, _, Function.update_self _ _ _, Nat.succ_pos _, Nat.lt_of_not_le hroom⟩

end RateLimiter

end Updown.Web
