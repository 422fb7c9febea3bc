import Updown.Lib.FixedWindow
import Updown.Web.RateLimiter

set_option autoImplicit false

/-! # What the rate limiter allows in a minute

A bucket of the `RateLimiter` is a fixed-window counter (`buckets_check`, `buckets_cleanup`): a
window starts with the first request it counts and is replaced when it is 60 seconds old. Two
windows can meet inside a shorter interval, so that such an interval holds up to `2 * max - 1`
allowed requests (`allowed_le`), and `allowed_straddle` shows that it can hold as many.
-/

namespace Updown.Web.RateLimiter

/-- `RATE_LIMIT_WINDOW_SECS` in nanoseconds. -/
def WINDOW_NANOS : ℕ := 60000000000

/-- A call on the limiter, with the time it is made. -/
inductive LimiterCall where
  | check (now : ℕ) (action key : String) (max : ℕ)
  | cleanup (now : ℕ)

def LimiterCall.time : LimiterCall → ℕ
  | .check now _ _ _ => now
  | .cleanup now => now

def call (l : RateLimiter) : LimiterCall → RateLimiter
  | .check now action key max => (l.check now action key max).1
  | .cleanup now => l.cleanup now

/-- The call is a check of the bucket that returns `true`. -/
def allows (l : RateLimiter) (bucket : String × String) : LimiterCall → Bool
  | .check now action key max => (action, key) = bucket && (l.check now action key max).2
  | .cleanup _ => false

/-- The times of the checks of a bucket that return `true`, in order. -/
def allowed (bucket : String × String) : RateLimiter → List LimiterCall → List ℕ
  | _, [] => []
  | l, c :: cs => (if l.allows bucket c then [c.time] else []) ++ allowed bucket (l.call c) cs

/-- Calls at nondecreasing times in which the bucket is always checked with the limit `max`. -/
structure Schedule (bucket : String × String) (max : ℕ) (calls : List LimiterCall) : Prop where
  ordered : calls.Pairwise fun c c' => c.time ≤ c'.time
  limit : ∀ now m, .check now bucket.1 bucket.2 m ∈ calls → m = max

theorem Schedule.tail {bucket : String × String} {max : ℕ} {c : LimiterCall}
    {cs : List LimiterCall} (h : Schedule bucket max (c :: cs)) : Schedule bucket max cs where
  ordered := (List.pairwise_cons.mp h.ordered).2
  limit := fun now m hm => h.limit now m (List.mem_cons_of_mem c hm)

/-! ## A bucket is a fixed-window counter -/

theorem window_le_asSecs {duration : ℕ} :
    RATE_LIMIT_WINDOW_SECS ≤ asSecs duration ↔ WINDOW_NANOS ≤ duration := by
  unfold RATE_LIMIT_WINDOW_SECS asSecs WINDOW_NANOS
  omega

theorem asSecs_lt_two_windows {duration : ℕ} :
    asSecs duration < RATE_LIMIT_WINDOW_SECS * 2 ↔ duration < 2 * WINDOW_NANOS := by
  unfold RATE_LIMIT_WINDOW_SECS asSecs WINDOW_NANOS
  omega

theorem entry_eq (now : ℕ) (l : RateLimiter) (bucket : String × String) :
    l.entry now bucket = FixedWindow.current WINDOW_NANOS now (l.buckets bucket) := by
  simp only [entry, FixedWindow.current, window_le_asSecs]

/-- **A check is an event of its bucket's counter.** -/
theorem buckets_check (now max : ℕ) (l : RateLimiter) (action key : String) :
    (l.check now action key max).1.buckets (action, key)
        = (FixedWindow.grant WINDOW_NANOS max now (l.buckets (action, key))).1 ∧
      (l.check now action key max).2
        = (FixedWindow.grant WINDOW_NANOS max now (l.buckets (action, key))).2 := by
  unfold check FixedWindow.grant
  dsimp only
  rw [entry_eq]
  split
  · exact ⟨Function.update_self _ _ _, rfl⟩
  · exact ⟨Function.update_self _ _ _, rfl⟩

/-- **A cleanup forgets windows that have been over for a while.** -/
theorem buckets_cleanup (now : ℕ) (l : RateLimiter) (bucket : String × String) :
    (l.cleanup now).buckets bucket
      = FixedWindow.forget (2 * WINDOW_NANOS) now (l.buckets bucket) := by
  simp only [cleanup, FixedWindow.forget, asSecs_lt_two_windows]

/-- One call, seen from the bucket. -/
theorem tracks_call {bucket : String × String} {max clock : ℕ} {l : RateLimiter}
    {c : LimiterCall} {times : List ℕ}
    (h : FixedWindow.Tracks WINDOW_NANOS max (l.buckets bucket) times clock)
    (hclock : clock ≤ c.time) (hmax : ∀ now m, c = .check now bucket.1 bucket.2 m → m = max) :
    FixedWindow.Tracks WINDOW_NANOS max ((l.call c).buckets bucket)
      (if l.allows bucket c then c.time :: times else times) c.time := by
  cases c with
  | check now action key m =>
      have hlater : FixedWindow.Tracks WINDOW_NANOS max (l.buckets bucket) times now :=
        h.later hclock
      by_cases hbucket : (action, key) = bucket
      · subst hbucket
        obtain rfl := hmax now m rfl
        obtain ⟨hstate, hres⟩ := buckets_check now m l action key
        have hstep := hlater.grant
        rw [← hstate, ← hres] at hstep
        simpa [call, allows, LimiterCall.time] using hstep
      · have hsame : (l.check now action key m).1.buckets bucket = l.buckets bucket :=
          buckets_check_of_ne (Ne.symm hbucket)
        simpa [call, allows, hbucket, hsame, LimiterCall.time] using hlater
  | cleanup now =>
      have hlater : FixedWindow.Tracks WINDOW_NANOS max (l.buckets bucket) times now :=
        h.later hclock
      simpa [call, allows, buckets_cleanup, LimiterCall.time] using hlater.forget (by omega)

/-- The whole run, seen from the bucket. -/
theorem tracks_run {bucket : String × String} {max : ℕ} {calls : List LimiterCall} :
    ∀ {l : RateLimiter} {times : List ℕ} {clock : ℕ},
      FixedWindow.Tracks WINDOW_NANOS max (l.buckets bucket) times clock →
      Schedule bucket max calls → (∀ c ∈ calls, clock ≤ c.time) →
      ∃ w clock', FixedWindow.Tracks WINDOW_NANOS max w
        ((allowed bucket l calls).reverse ++ times) clock' := by
  induction calls with
  | nil =>
      intro l times clock h _ _
      exact ⟨l.buckets bucket, clock, by simpa [allowed] using h⟩
  | cons c cs ih =>
      intro l times clock h hsched hclock
      have hstep := tracks_call h (hclock c (by simp)) fun now m hc =>
        hsched.limit now m (by simp [hc])
      obtain ⟨w, clock', hrun⟩ := ih hstep hsched.tail
        (List.pairwise_cons.mp hsched.ordered).1
      refine ⟨w, clock', ?_⟩
      rw [allowed]
      by_cases hallow : l.allows bucket c = true
      · simpa [hallow] using hrun
      · simpa [hallow] using hrun

/-- **Every interval shorter than 60 seconds holds at most `2 * max - 1` requests that are
allowed**, however checks of the bucket, other checks and cleanups follow one another. -/
theorem allowed_le {bucket : String × String} {max : ℕ} {calls : List LimiterCall}
    (hcalls : Schedule bucket max calls) {a b : ℕ} (hab : b < a + WINDOW_NANOS) :
    (allowed bucket new calls).countP (fun t => a ≤ t ∧ t ≤ b) ≤ 2 * max - 1 := by
  have hstart : FixedWindow.Tracks WINDOW_NANOS max (new.buckets bucket) [] 0 :=
    FixedWindow.tracks_start WINDOW_NANOS max 0
  obtain ⟨w, clock, h⟩ := tracks_run hstart hcalls fun _ _ => Nat.zero_le _
  have hle := h.countP_le hab
  rwa [List.append_nil, List.countP_reverse] at hle

/-! ## The bound is reached -/

/-- A check whose window has room. -/
theorem allowed_cons {bucket : String × String} {max now count start : ℕ} {l : RateLimiter}
    (hcur : FixedWindow.current WINDOW_NANOS now (l.buckets bucket) = (count, start))
    (hroom : count < max) (rest : List LimiterCall) :
    ∃ l' : RateLimiter, l'.buckets bucket = some (count + 1, start) ∧
      allowed bucket l (.check now bucket.1 bucket.2 max :: rest) = now :: allowed bucket l' rest := by
  have hgrant : FixedWindow.grant WINDOW_NANOS max now (l.buckets bucket)
      = (some (count + 1, start), true) := by
    rw [FixedWindow.grant, hcur, if_neg (Nat.not_le.mpr hroom)]
  obtain ⟨hnext, hres⟩ := buckets_check now max l bucket.1 bucket.2
  rw [Prod.mk.eta, hgrant] at hnext hres
  refine ⟨_, hnext, ?_⟩
  simp [allowed, allows, hres, call, LimiterCall.time]

/-- Checks at one time, as long as the window has room for them. -/
theorem allowed_replicate {bucket : String × String} {max now start k : ℕ} :
    ∀ {l : RateLimiter} {count : ℕ}, l.buckets bucket = some (count, start) →
      now - start < WINDOW_NANOS → count + k ≤ max → ∀ rest : List LimiterCall,
      ∃ l' : RateLimiter, l'.buckets bucket = some (count + k, start) ∧
        allowed bucket l (List.replicate k (.check now bucket.1 bucket.2 max) ++ rest)
          = List.replicate k now ++ allowed bucket l' rest := by
  induction k with
  | zero =>
      intro l count hstate _ _ rest
      exact ⟨l, hstate, rfl⟩
  | succ k ih =>
      intro l count hstate hwindow hroom rest
      have hcur : FixedWindow.current WINDOW_NANOS now (l.buckets bucket) = (count, start) := by
        simp [FixedWindow.current, hstate, Nat.not_le.mpr hwindow]
      rw [List.replicate_succ, List.replicate_succ, List.cons_append]
      obtain ⟨l₁, hl₁, hhead⟩ := allowed_cons hcur (show count < max by omega)
        (List.replicate k (.check now bucket.1 bucket.2 max) ++ rest)
      obtain ⟨l₂, hl₂, hrest⟩ := ih hl₁ hwindow (by omega) rest
      refine ⟨l₂, ?_, ?_⟩
      · rw [hl₂, Nat.add_assoc, Nat.add_comm 1 k]
      · rw [hhead, hrest, List.cons_append]

/-- One request that starts a window, the rest of its requests when it is almost over, and a full
window right after it. -/
def straddle (bucket : String × String) (max : ℕ) : List LimiterCall :=
  .check 0 bucket.1 bucket.2 max ::
    (List.replicate (max - 1) (.check (WINDOW_NANOS - 1) bucket.1 bucket.2 max) ++
      List.replicate max (.check WINDOW_NANOS bucket.1 bucket.2 max))

/-- **The bound of `allowed_le` is reached**, for every limit. -/
theorem allowed_straddle (bucket : String × String) {max : ℕ} (hmax : 0 < max) :
    (allowed bucket new (straddle bucket max)).countP
      (fun t => WINDOW_NANOS - 1 ≤ t ∧ t ≤ WINDOW_NANOS) = 2 * max - 1 := by
  obtain ⟨k, rfl⟩ := Nat.exists_eq_succ_of_ne_zero hmax.ne'
  have hlong : 1 < WINDOW_NANOS := by decide
  have htimes : allowed bucket new (straddle bucket (k + 1))
      = 0 :: (List.replicate k (WINDOW_NANOS - 1)
        ++ WINDOW_NANOS :: List.replicate k WINDOW_NANOS) := by
    have hcur₀ : FixedWindow.current WINDOW_NANOS 0 (new.buckets bucket) = (0, 0) := rfl
    -- the first window: one request at its start, the others at its end
    obtain ⟨l₁, hl₁, h₁⟩ := allowed_cons hcur₀ hmax
      (List.replicate k (.check (WINDOW_NANOS - 1) bucket.1 bucket.2 (k + 1)) ++
        List.replicate (k + 1) (.check WINDOW_NANOS bucket.1 bucket.2 (k + 1)))
    obtain ⟨l₂, hl₂, h₂⟩ := allowed_replicate hl₁
      (show WINDOW_NANOS - 1 - 0 < WINDOW_NANOS by omega) (show 0 + 1 + k ≤ k + 1 by omega)
      (List.replicate (k + 1) (.check WINDOW_NANOS bucket.1 bucket.2 (k + 1)))
    -- the second one
    have hcur₂ : FixedWindow.current WINDOW_NANOS WINDOW_NANOS (l₂.buckets bucket)
        = (0, WINDOW_NANOS) := by
      simp [FixedWindow.current, hl₂]
    obtain ⟨l₃, hl₃, h₃⟩ := allowed_cons hcur₂ hmax
      (List.replicate k (.check WINDOW_NANOS bucket.1 bucket.2 (k + 1)))
    obtain ⟨l₄, -, h₄⟩ := allowed_replicate hl₃
      (show WINDOW_NANOS - WINDOW_NANOS < WINDOW_NANOS by omega) (show 0 + 1 + k ≤ k + 1 by omega) []
    rw [List.append_nil, allowed, List.append_nil] at h₄
    rw [straddle, Nat.add_sub_cancel, h₁, h₂, List.replicate_succ, h₃, h₄]
  rw [htimes, List.countP_cons_of_neg (by simp; omega), List.countP_append,
    List.countP_cons_of_pos (by simp), List.countP_replicate, List.countP_replicate,
    if_pos (by simp), if_pos (by simp)]
  omega

theorem schedule_straddle (bucket : String × String) (max : ℕ) :
    Schedule bucket max (straddle bucket max) where
  ordered := by
    unfold straddle
    rw [List.pairwise_cons, List.pairwise_append]
    refine ⟨fun _ _ => Nat.zero_le _, ?_, ?_, ?_⟩
    · exact List.pairwise_replicate.mpr (Or.inr (le_refl _))
    · exact List.pairwise_replicate.mpr (Or.inr (le_refl _))
    · intro c hc c' hc'
      rw [List.eq_of_mem_replicate hc, List.eq_of_mem_replicate hc']
      exact Nat.sub_le _ _
  limit := by
    intro now m h
    simp only [straddle, List.mem_cons, List.mem_append, List.mem_replicate,
      LimiterCall.check.injEq] at h
    omega

namespace Small

/-- **More than `max` requests in less than a minute**: with the limit 2, a request that starts a
window, one when the window is almost over, and two right after. -/
theorem not_allowed_le_max : ¬ ∀ (bucket : String × String) (max : ℕ) (calls : List LimiterCall),
    Schedule bucket max calls → ∀ a b, b < a + WINDOW_NANOS →
      (allowed bucket new calls).countP (fun t => a ≤ t ∧ t ≤ b) ≤ max := by
  intro h
  have hle := h ("upload", "global") 2 (straddle ("upload", "global") 2) (schedule_straddle _ 2)
    (WINDOW_NANOS - 1) WINDOW_NANOS (by decide)
  have hcount : (allowed ("upload", "global") new (straddle ("upload", "global") 2)).countP
      (fun t => WINDOW_NANOS - 1 ≤ t ∧ t ≤ WINDOW_NANOS) = 3 := by decide +kernel
  omega

theorem allowed_le_straddle :
    (allowed ("upload", "global") new (straddle ("upload", "global") 2)).countP
      (fun t => WINDOW_NANOS - 1 ≤ t ∧ t ≤ WINDOW_NANOS) ≤ 3 :=
  allowed_le (schedule_straddle _ 2) (by decide)

end Small

end Updown.Web.RateLimiter
