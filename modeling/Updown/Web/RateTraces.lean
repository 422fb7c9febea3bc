import Updown.Web.RateWindow

set_option autoImplicit false

/-! # What the rate limiter's answers depend on

The buckets of a limiter that was cleaned up agree with those of one that was not, although they
need not be equal (`agree_call`): an entry that `cleanup` drops is one that `check` would start
anew. `answers_eq` says that a check is answered as if no cleanup and no check of another bucket had
been made, and that a window holds at most as many allowed requests as its limit.
-/

namespace Updown.Web.RateLimiter

open FixedWindow (Agree)

/-- What a check of a bucket with a limit has returned. -/
structure Answer where
  bucket : String × String
  max : ℕ
  allowed : Bool
  deriving DecidableEq

def LimiterCall.bucket : LimiterCall → Option (String × String)
  | .check _ action key _ => some (action, key)
  | .cleanup _ => none

def answer (l : RateLimiter) : LimiterCall → List Answer
  | .check now action key max => [⟨(action, key), max, (l.check now action key max).2⟩]
  | .cleanup _ => []

/-- The answers of the checks, in order. -/
def answers : RateLimiter → List LimiterCall → List Answer
  | _, [] => []
  | l, c :: cs => l.answer c ++ answers (l.call c) cs

/-- The state after some calls. -/
def run (l : RateLimiter) (calls : List LimiterCall) : RateLimiter := calls.foldl call l

/-! ## What a call changes -/

variable {l l' : RateLimiter} {bucket : String × String} {clock : ℕ} {c : LimiterCall}

/-- A call that is no check of the bucket leaves it as it is, but for windows that are over. -/
theorem agree_call_of_ne (hbucket : c.bucket ≠ some bucket) :
    Agree WINDOW_NANOS c.time ((l.call c).buckets bucket) (l.buckets bucket) := by
  cases c with
  | check now action key max =>
      have hne : bucket ≠ (action, key) := fun heq => hbucket (congrArg some heq.symm)
      rw [call, buckets_check_of_ne hne]
      exact Agree.refl _
  | cleanup now =>
      rw [call, buckets_cleanup]
      exact FixedWindow.agree_forget (by omega) _

theorem agree_call (h : Agree WINDOW_NANOS clock (l.buckets bucket) (l'.buckets bucket))
    (hclock : clock ≤ c.time) :
    Agree WINDOW_NANOS c.time ((l.call c).buckets bucket) ((l'.call c).buckets bucket) := by
  by_cases hbucket : c.bucket = some bucket
  · cases c with
    | check now action key max =>
        obtain rfl := Option.some.inj hbucket
        have hgrant : FixedWindow.grant WINDOW_NANOS max now (l.buckets (action, key)) =
            FixedWindow.grant WINDOW_NANOS max now (l'.buckets (action, key)) := h.grant hclock
        rw [call, call, (buckets_check now max l action key).1,
          (buckets_check now max l' action key).1, hgrant]
        exact Agree.refl _
    | cleanup now => cases hbucket
  · exact ((agree_call_of_ne hbucket).trans (h.later hclock)).trans (agree_call_of_ne hbucket).symm

/-- A check of a bucket on which two limiters agree is answered alike. -/
theorem answer_eq (h : Agree WINDOW_NANOS clock (l.buckets bucket) (l'.buckets bucket))
    (hclock : clock ≤ c.time) (hbucket : c.bucket = some bucket) : l.answer c = l'.answer c := by
  cases c with
  | check now action key max =>
      obtain rfl := Option.some.inj hbucket
      have hgrant : FixedWindow.grant WINDOW_NANOS max now (l.buckets (action, key)) =
          FixedWindow.grant WINDOW_NANOS max now (l'.buckets (action, key)) := h.grant hclock
      rw [answer, answer, (buckets_check now max l action key).2,
        (buckets_check now max l' action key).2, hgrant]
  | cleanup now => rfl

theorem bucket_of_mem_answer {a : Answer} (h : a ∈ l.answer c) : c.bucket = some a.bucket := by
  cases c with
  | check now action key max =>
      obtain rfl := List.mem_singleton.mp h
      rfl
  | cleanup now => cases h

theorem bucket_of_mem_answers {a : Answer} {calls : List LimiterCall} :
    ∀ {l : RateLimiter}, a ∈ answers l calls → ∃ c ∈ calls, c.bucket = some a.bucket := by
  induction calls with
  | nil => intro l h; cases h
  | cons c cs ih =>
      intro l h
      rcases List.mem_append.mp h with hc | hcs
      · exact ⟨c, List.mem_cons_self, bucket_of_mem_answer hc⟩
      · obtain ⟨c', hc', hbucket⟩ := ih hcs
        exact ⟨c', List.mem_cons_of_mem c hc', hbucket⟩

/-- The answers for some buckets are the same when other calls are left out. -/
theorem filter_answers (S : String × String → Bool) (kept : LimiterCall → Bool)
    (hkept : ∀ c bucket, c.bucket = some bucket → S bucket = true → kept c = true)
    {calls : List LimiterCall} (hordered : calls.Pairwise fun c c' => c.time ≤ c'.time) :
    ∀ (l l' : RateLimiter) (clock : ℕ),
      (∀ bucket, S bucket = true →
        Agree WINDOW_NANOS clock (l.buckets bucket) (l'.buckets bucket)) →
      (∀ c ∈ calls, clock ≤ c.time) →
      (answers l calls).filter (fun a => S a.bucket) =
        (answers l' (calls.filter kept)).filter fun a => S a.bucket := by
  -- the limiters agree on the buckets of `S` at the clock, which each call moves on
  induction calls with
  | nil => intros; rfl
  | cons c cs ih =>
      intro l l' clock hagree hclock
      obtain ⟨hle, hcs⟩ := List.pairwise_cons.mp hordered
      have hc := hclock c List.mem_cons_self
      rw [answers, List.filter_append]
      by_cases hkeep : kept c = true
      · have hsame : (l.answer c).filter (fun a => S a.bucket) =
            (l'.answer c).filter fun a => S a.bucket := by
          cases c with
          | check now action key max =>
              by_cases hS : S (action, key) = true
              · rw [answer_eq (hagree _ hS) hc rfl]
              · simp [answer, hS]
          | cleanup now => rfl
        rw [List.filter_cons_of_pos hkeep, answers, List.filter_append, hsame,
          ih hcs _ _ _ (fun bucket hS => agree_call (hagree bucket hS) hc) hle]
      · have hnone : (l.answer c).filter (fun a => S a.bucket) = [] := by
          cases c with
          | check now action key max =>
              have hS : ¬ S (action, key) = true := fun hS => hkeep (hkept _ _ rfl hS)
              simp [answer, hS]
          | cleanup now => rfl
        -- what is left out checks no bucket of `S`: a cleanup, or a check of another bucket
        rw [List.filter_cons_of_neg hkeep, hnone, List.nil_append]
        refine ih hcs _ _ _ (fun bucket hS => ?_) hle
        have hne : c.bucket ≠ some bucket := fun heq => hkeep (hkept c bucket heq hS)
        exact (agree_call_of_ne hne).trans ((hagree bucket hS).later hc)

/-! ## One window -/

/-- The call is a check that starts a new window of its bucket. -/
def Resets (l : RateLimiter) (bucket : String × String) : LimiterCall → Prop
  | .check now action key _ => (action, key) = bucket ∧
      ∀ entry, l.buckets bucket = some entry → RATE_LIMIT_WINDOW_SECS ≤ asSecs (now - entry.2)
  | .cleanup _ => False

/-- None of the calls starts a new window of the bucket. -/
def NoReset (bucket : String × String) : RateLimiter → List LimiterCall → Prop
  | _, [] => True
  | l, c :: cs => ¬ l.Resets bucket c ∧ NoReset bucket (l.call c) cs

/-- An allowed check of the bucket with the limit `max`. -/
def Answer.Allows (bucket : String × String) (max : ℕ) (a : Answer) : Prop :=
  a.bucket = bucket ∧ a.max = max ∧ a.allowed = true

instance (bucket : String × String) (max : ℕ) (a : Answer) : Decidable (a.Allows bucket max) :=
  inferInstanceAs (Decidable (_ ∧ _ ∧ _))

/-- How many checks of the bucket with the limit `max` are allowed. -/
def countAllowed (bucket : String × String) (max : ℕ) (l : RateLimiter)
    (calls : List LimiterCall) : ℕ :=
  (answers l calls).countP fun a => a.Allows bucket max

theorem countAllowed_cons (bucket : String × String) (max : ℕ) (l : RateLimiter) (c : LimiterCall)
    (cs : List LimiterCall) :
    countAllowed bucket max l (c :: cs) =
      (l.answer c).countP (fun a => a.Allows bucket max) +
        countAllowed bucket max (l.call c) cs := by
  rw [countAllowed, answers, List.countP_append, countAllowed]

theorem countP_answer_of_ne {max : ℕ} (h : c.bucket ≠ some bucket) :
    (l.answer c).countP (fun a => a.Allows bucket max) = 0 := by
  rw [List.countP_eq_zero]
  intro a ha
  have hne : a.bucket ≠ bucket := fun heq => h (heq ▸ bucket_of_mem_answer ha)
  simp [Answer.Allows, hne]

/-- The number of requests that the window of the bucket has counted. -/
def counted (l : RateLimiter) (bucket : String × String) : ℕ := (l.buckets bucket).elim 0 Prod.fst

/-- A check that is allowed is counted in its window. -/
theorem countP_answer_check_le (now : ℕ) (l : RateLimiter) (action key : String) (m max : ℕ) :
    (l.answer (.check now action key m)).countP (fun a => a.Allows (action, key) max) +
        (max - (l.call (.check now action key m)).counted (action, key)) ≤
      max - (l.entry now (action, key)).1 := by
  unfold answer call check counted
  dsimp only
  by_cases hfull : m ≤ (l.entry now (action, key)).1
  · simp [hfull, Answer.Allows]
  · rw [if_neg hfull]
    by_cases hmax : m = max
    · simp [hmax, Answer.Allows]
      omega
    · simp [hmax, Answer.Allows]
      omega

/-- A call that is no check of the bucket leaves its entry or drops it. -/
theorem buckets_call_of_ne (h : c.bucket ≠ some bucket) :
    (l.call c).buckets bucket = l.buckets bucket ∨ (l.call c).buckets bucket = none := by
  cases c with
  | check now action key max =>
      exact Or.inl (buckets_check_of_ne fun heq => h (congrArg some heq.symm))
  | cleanup now =>
      rw [call, buckets_cleanup, FixedWindow.forget]
      cases l.buckets bucket with
      | none => exact Or.inl rfl
      | some entry =>
          by_cases hkeep : now - entry.2 < 2 * WINDOW_NANOS
          · exact Or.inl (Option.filter_some_pos (by simpa using hkeep))
          · exact Or.inr (Option.filter_some_neg (by simpa using hkeep))

theorem entry_eq_of_not_resets {now max : ℕ} {action key : String}
    (h : ¬ l.Resets (action, key) (.check now action key max)) :
    l.buckets (action, key) = some (l.entry now (action, key)) := by
  rw [entry_eq]
  refine FixedWindow.exists_of_not_resets fun hresets => h ⟨rfl, fun entry hentry => ?_⟩
  exact window_le_asSecs.mpr (hresets entry hentry)

/-- While the window is not replaced, what it has counted and what is still allowed stay within the
limit. Without an entry nothing can be allowed, since that would start a new window. -/
theorem countAllowed_le_of_noReset (max : ℕ) {calls : List LimiterCall} :
    ∀ {l : RateLimiter}, NoReset bucket l calls →
      (l.buckets bucket = none → countAllowed bucket max l calls = 0) ∧
        countAllowed bucket max l calls ≤ max - l.counted bucket := by
  induction calls with
  | nil => exact fun _ => ⟨fun _ => rfl, Nat.zero_le _⟩
  | cons c cs ih =>
      intro l h
      obtain ⟨hreset, hrest⟩ := h
      obtain ⟨hnone, hle⟩ := ih hrest
      rw [countAllowed_cons]
      by_cases hbucket : c.bucket = some bucket
      · cases c with
        | check now action key m =>
            obtain rfl := Option.some.inj hbucket
            have hentry := entry_eq_of_not_resets hreset
            have hcheck := countP_answer_check_le now l action key m max
            have hcounted : l.counted (action, key) = (l.entry now (action, key)).1 := by
              rw [counted, hentry]
              rfl
            refine ⟨fun hmissing => ?_, by omega⟩
            rw [hentry] at hmissing
            cases hmissing
        | cleanup now => cases hbucket
      · rw [countP_answer_of_ne hbucket, Nat.zero_add]
        rcases buckets_call_of_ne hbucket with hsame | hdropped
        · rw [counted, hsame] at hle
          exact ⟨fun hmissing => hnone (hsame.trans hmissing), hle⟩
        · rw [hnone hdropped]
          exact ⟨fun _ => rfl, Nat.zero_le _⟩

/-- A window that is not replaced within the calls after the first holds at most as many allowed
requests as the limit they were checked with. -/
theorem countAllowed_le {max : ℕ} {first : LimiterCall} {stretch : List LimiterCall}
    (h : NoReset bucket (l.call first) stretch) :
    countAllowed bucket max l (first :: stretch) ≤ max := by
  obtain ⟨-, hle⟩ := countAllowed_le_of_noReset max h
  rw [countAllowed_cons]
  by_cases hbucket : first.bucket = some bucket
  · cases first with
    | check now action key m =>
        obtain rfl := Option.some.inj hbucket
        have hcheck := countP_answer_check_le now l action key m max
        omega
    | cleanup now => cases hbucket
  · rw [countP_answer_of_ne hbucket]
    omega

/-! ## Every trace -/

/-- A check is answered as it would be without the cleanups, and without the checks of other
buckets; and between two resets of a bucket's window at most `max` checks with the limit `max` are
allowed. -/
theorem answers_eq {calls : List LimiterCall}
    (hordered : calls.Pairwise fun c c' => c.time ≤ c'.time) :
    answers new calls = answers new (calls.filter fun c => c.bucket.isSome) ∧
      (∀ bucket, (answers new calls).filter (fun a => a.bucket = bucket) =
        answers new (calls.filter fun c => c.bucket = some bucket)) ∧
      ∀ bucket max front first stretch,
        NoReset bucket (run new (front ++ [first])) stretch →
          countAllowed bucket max (run new front) (first :: stretch) ≤ max := by
  refine ⟨?_, ?_, ?_⟩
  · have h := filter_answers (fun _ => true) (fun c => c.bucket.isSome)
      (by
        intro c bucket hbucket _
        rw [hbucket]
        rfl)
      hordered new new 0 (fun _ _ => Agree.refl _) fun _ _ => Nat.zero_le _
    rwa [List.filter_true, List.filter_true] at h
  · intro bucket
    have h := filter_answers (fun b => b = bucket) (fun c => c.bucket = some bucket)
      (by
        intro c b hb heq
        rw [← of_decide_eq_true heq]
        exact decide_eq_true hb)
      hordered new new 0 (fun _ _ => Agree.refl _) fun _ _ => Nat.zero_le _
    rw [h, List.filter_eq_self]
    intro a ha
    obtain ⟨c, hc, hbucket⟩ := bucket_of_mem_answers ha
    have hown : c.bucket = some bucket := of_decide_eq_true (List.mem_filter.mp hc).2
    exact decide_eq_true (Option.some.inj (hbucket.symm.trans hown))
  · intro bucket max front first stretch hstretch
    rw [run, List.foldl_append] at hstretch
    exact countAllowed_le hstretch

/-- A request, a cleanup that drops its entry, and a request of the same key. -/
theorem answers_eq_dropped :
    answers new [.check 0 "upload" "key" 1, .cleanup 120000000000,
        .check 120000000000 "upload" "key" 1] =
      answers new [.check 0 "upload" "key" 1, .check 120000000000 "upload" "key" 1] :=
  (answers_eq (by decide)).1

end Updown.Web.RateLimiter
