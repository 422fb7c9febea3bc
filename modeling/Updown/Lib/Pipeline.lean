import Mathlib.Tactic
import Updown.Lib.Transition

set_option autoImplicit false

/-! # Pipelines of two stages

A producer and a consumer run as two tasks that are joined by a channel of bounded capacity. The
producer goes from state to state and emits items; the consumer folds the items into its own state,
and drops its end of the channel when it fails. `Stages.Runs` is the same program without tasks and
channel, one item after the other.

The scheduling does not matter: every step keeps the outcome of the sequential program
(`runsFrom_step`), so a pipeline that ends, ends as that program does (`runs_of_reaches`). It does
end if the producer stops (`inevitable_outcome`).
-/

namespace Pipeline

open Transition

/-- What a producer does next. -/
inductive Produced (π α ρ : Type) where
  | work (p : π)
  | emit (a : α) (p : π)
  | stop (r : ρ)

/-- The code of the two stages. -/
structure Stages (π α ρ χ φ : Type) where
  produce : π → Produced π α ρ
  /-- What the producer returns when nobody takes its items any more. -/
  closed : ρ
  consume : χ → α → χ × Option φ

inductive Producer (π α ρ : Type) where
  | running (p : π)
  /-- Waits for room in the channel. -/
  | sending (a : α) (p : π)
  | stopped (r : ρ)

inductive Consumer (χ φ : Type) where
  | running (c : χ)
  | failed (c : χ) (e : φ)
  /-- It has seen that the channel is empty and closed. -/
  | ended (c : χ)

structure State (π α ρ χ φ : Type) where
  producer : Producer π α ρ
  channel : List α
  consumer : Consumer χ φ

inductive Event where
  | produce
  | send
  | sendFails
  | receive
  | close

/-- How a pipeline ends: both stages have ended, or the consumer has failed. -/
inductive Outcome (ρ χ φ : Type) where
  | ended (c : χ) (r : ρ)
  | failed (c : χ) (e : φ)

variable {π α ρ χ φ : Type}

/-- What the consumer has come to. -/
def Outcome.state : Outcome ρ χ φ → χ
  | .ended c _ => c
  | .failed c _ => c

def Consumer.state : Consumer χ φ → χ
  | .running c => c
  | .failed c _ => c
  | .ended c => c

def State.outcome (s : State π α ρ χ φ) : Option (Outcome ρ χ φ) :=
  match s.consumer, s.producer with
  | .failed c e, _ => some (.failed c e)
  | .ended c, .stopped r => some (.ended c r)
  | _, _ => none

namespace Stages

variable (S : Stages π α ρ χ φ)

/-- The producer after one step of its own. -/
def next (p : π) : Producer π α ρ :=
  match S.produce p with
  | .work p => .running p
  | .emit a p => .sending a p
  | .stop r => .stopped r

/-- The consumer after an item. -/
def take (c : χ) (a : α) : Consumer χ φ :=
  match S.consume c a with
  | (c, none) => .running c
  | (c, some e) => .failed c e

def start (p : Producer π α ρ) (c : χ) : State π α ρ χ φ := ⟨p, [], .running c⟩

def step (capacity : ℕ) (s : State π α ρ χ φ) : Event → Option (State π α ρ χ φ)
  | .produce =>
      match s.producer with
      | .running p => some { s with producer := S.next p }
      | _ => none
  | .send =>
      match s.producer, s.consumer with
      | .sending a p, .running _ =>
          if s.channel.length < capacity then
            some { s with producer := .running p, channel := s.channel ++ [a] }
          else none
      | _, _ => none
  | .sendFails =>
      match s.producer, s.consumer with
      | .sending _ _, .failed _ _ => some { s with producer := .stopped S.closed }
      | _, _ => none
  | .receive =>
      match s.consumer, s.channel with
      | .running c, a :: rest => some { s with channel := rest, consumer := S.take c a }
      | _, _ => none
  | .close =>
      match s.consumer, s.channel, s.producer with
      | .running c, [], .stopped _ => some { s with consumer := .ended c }
      | _, _, _ => none

/-! ## The sequential program -/

/-- The stages one item at a time, from where the producer is. -/
inductive Runs : Producer π α ρ → χ → Outcome ρ χ φ → Prop
  | stopped (r : ρ) (c : χ) : Runs (.stopped r) c (.ended c r)
  | produce {p : π} {c : χ} {o : Outcome ρ χ φ} (h : Runs (S.next p) c o) : Runs (.running p) c o
  | consume {a : α} {p : π} {c c' : χ} {o : Outcome ρ χ φ} (ha : S.take c a = .running c')
      (h : Runs (.running p) c' o) : Runs (.sending a p) c o
  | fail {a : α} {p : π} {c c' : χ} {e : φ} (ha : S.take c a = .failed c' e) :
      Runs (.sending a p) c (.failed c' e)

/-- The consumer takes the items first, and goes on with what the producer has yet to send. -/
def Feeds : List α → Producer π α ρ → Consumer χ φ → Outcome ρ χ φ → Prop
  | _, _, .failed c e, o => o = .failed c e
  | [], p, k, o => S.Runs p k.state o
  | a :: items, p, k, o => Feeds items p (S.take k.state a) o

/-- The sequential program from a state of the pipeline. -/
def RunsFrom (s : State π α ρ χ φ) (o : Outcome ρ χ φ) : Prop :=
  S.Feeds s.channel s.producer s.consumer o

variable {S}

theorem runs_running_iff {p : π} {c : χ} {o : Outcome ρ χ φ} :
    S.Runs (.running p) c o ↔ S.Runs (S.next p) c o := by
  constructor
  · intro h
    cases h with
    | produce h => exact h
  · exact .produce

/-- The consumer takes an item by going on or by failing. -/
theorem take_cases (c : χ) (a : α) :
    (∃ c', S.take c a = .running c') ∨ ∃ c' e, S.take c a = .failed c' e := by
  unfold take
  split
  · exact Or.inl ⟨_, rfl⟩
  · exact Or.inr ⟨_, _, rfl⟩

/-- An item that is being sent is the next one that the consumer takes. -/
theorem runs_sending_iff {a : α} {p : π} {c : χ} {o : Outcome ρ χ φ} :
    S.Runs (.sending a p) c o ↔ S.Feeds [] (.running p) (S.take c a) o := by
  rcases S.take_cases c a with ⟨c', ha⟩ | ⟨c', e, ha⟩
  · rw [ha]
    constructor
    · intro h
      cases h with
      | consume ha' h =>
          cases ha.symm.trans ha'
          exact h
      | fail ha' => cases ha.symm.trans ha'
    · exact .consume ha
  · rw [ha]
    constructor
    · intro h
      cases h with
      | consume ha' h => cases ha.symm.trans ha'
      | fail ha' =>
          cases ha.symm.trans ha'
          rfl
    · intro h
      obtain rfl : o = .failed c' e := by simpa only [Feeds] using h
      exact .fail ha

theorem feeds_congr {p p' : Producer π α ρ} {o : Outcome ρ χ φ}
    (h : ∀ c, S.Runs p c o ↔ S.Runs p' c o) (items : List α) :
    ∀ k, S.Feeds items p k o ↔ S.Feeds items p' k o := by
  induction items with
  | nil =>
      intro k
      cases k with
      | failed c e => simp only [Feeds]
      | running c => exact h c
      | ended c => exact h c
  | cons a items ih =>
      intro k
      cases k with
      | failed c e => simp only [Feeds]
      | running c => exact ih _
      | ended c => exact ih _

/-- It does not matter whether the last item is in the channel already. -/
theorem feeds_snoc {a : α} {p : π} {o : Outcome ρ χ φ} (items : List α) :
    ∀ k, S.Feeds (items ++ [a]) (.running p) k o ↔ S.Feeds items (.sending a p) k o := by
  induction items with
  | nil =>
      intro k
      cases k with
      | failed c e => simp only [Feeds]
      | running c => exact runs_sending_iff.symm
      | ended c => exact runs_sending_iff.symm
  | cons b items ih =>
      intro k
      cases k with
      | failed c e => simp only [Feeds]
      | running c => exact ih _
      | ended c => exact ih _

/-! ## The steps -/

/-- What a step needs and what it changes. -/
inductive StepCases (S : Stages π α ρ χ φ) (capacity : ℕ) (s : State π α ρ χ φ) :
    Event → State π α ρ χ φ → Prop
  | produce (p : π) (hp : s.producer = .running p) :
      StepCases S capacity s .produce { s with producer := S.next p }
  | send (a : α) (p : π) (c : χ) (hp : s.producer = .sending a p) (hc : s.consumer = .running c)
      (hroom : s.channel.length < capacity) :
      StepCases S capacity s .send
        { s with producer := .running p, channel := s.channel ++ [a] }
  | sendFails (a : α) (p : π) (c : χ) (e : φ) (hp : s.producer = .sending a p)
      (hc : s.consumer = .failed c e) :
      StepCases S capacity s .sendFails { s with producer := .stopped S.closed }
  | receive (c : χ) (a : α) (rest : List α) (hc : s.consumer = .running c)
      (hchannel : s.channel = a :: rest) :
      StepCases S capacity s .receive { s with channel := rest, consumer := S.take c a }
  | close (c : χ) (r : ρ) (hc : s.consumer = .running c) (hchannel : s.channel = [])
      (hp : s.producer = .stopped r) :
      StepCases S capacity s .close { s with consumer := .ended c }

variable {capacity : ℕ} {s s' : State π α ρ χ φ}

theorem step_cases {e : Event} (h : S.step capacity s e = some s') :
    StepCases S capacity s e s' := by
  cases e with
  | produce =>
      simp only [step] at h
      split at h
      · next p hp =>
          obtain rfl := Option.some.inj h
          exact .produce p hp
      · cases h
  | send =>
      simp only [step] at h
      split at h
      · next a p c hp hc =>
          obtain ⟨hroom, rfl⟩ := Option.ite_some_none_eq_some.mp h
          exact .send a p c hp hc hroom
      · cases h
  | sendFails =>
      simp only [step] at h
      split at h
      · next a p c e hp hc =>
          obtain rfl := Option.some.inj h
          exact .sendFails a p c e hp hc
      · cases h
  | receive =>
      simp only [step] at h
      split at h
      · next c a rest hc hchannel =>
          obtain rfl := Option.some.inj h
          exact .receive c a rest hc hchannel
      · cases h
  | close =>
      simp only [step] at h
      split at h
      · next c r hc hchannel hp =>
          obtain rfl := Option.some.inj h
          exact .close c r hc hchannel hp
      · cases h

/-- **A step keeps the outcome of the sequential program.** -/
theorem runsFrom_step {e : Event} (h : S.step capacity s e = some s') (o : Outcome ρ χ φ) :
    S.RunsFrom s' o ↔ S.RunsFrom s o := by
  unfold RunsFrom
  cases step_cases h with
  | produce p hp =>
      rw [hp]
      exact feeds_congr (fun c => runs_running_iff.symm) _ _
  | send a p c hp hc hroom =>
      rw [hp]
      exact feeds_snoc _ _
  | sendFails a p c e hp hc =>
      -- the outcome is already there
      simp only [hc, Feeds]
  | receive c a rest hc hchannel =>
      rw [hc, hchannel]
      rfl
  | close c r hc hchannel hp =>
      rw [hc, hchannel]
      rfl

section

variable {P : State π α ρ χ φ → Event → Prop} {s₀ : State π α ρ χ φ}

/-- Every run keeps the outcome of the sequential program. -/
theorem runsFrom_of_reaches (h : Reaches (S.step capacity) P s₀ s) (o : Outcome ρ χ φ) :
    S.RunsFrom s o ↔ S.RunsFrom s₀ o :=
  h.invariant (I := fun u => S.RunsFrom u o ↔ S.RunsFrom s₀ o) Iff.rfl
    fun _ _ _ hu _ hs => (runsFrom_step hs o).trans hu

/-- A consumer has ended only after the producer, and with an empty channel. -/
def Closed (s : State π α ρ χ φ) : Prop :=
  ∀ c, s.consumer = .ended c → s.channel = [] ∧ ∃ r, s.producer = .stopped r

theorem Closed.step {e : Event} (h : Closed s) (hs : S.step capacity s e = some s') :
    Closed s' := by
  intro d hd
  cases step_cases hs with
  | produce p hp =>
      obtain ⟨-, r, hr⟩ := h d hd
      cases hp.symm.trans hr
  | send a p c hp hc hroom => cases hc.symm.trans hd
  | sendFails a p c e hp hc => cases hc.symm.trans hd
  | receive c a rest hc hchannel =>
      rcases S.take_cases c a with ⟨c', ha⟩ | ⟨c', e, ha⟩ <;> cases ha.symm.trans hd
  | close c r hc hchannel hp => exact ⟨hchannel, r, hp⟩

theorem closed_of_reaches {p : Producer π α ρ} {c : χ}
    (h : Reaches (S.step capacity) P (start p c) s) : Closed s :=
  h.invariant (fun _ h => by cases h) fun _ _ _ hu _ hs => hu.step hs

/-- **A pipeline that ends, ends as the sequential program does.** -/
theorem runs_of_reaches {p : Producer π α ρ} {c : χ} {o : Outcome ρ χ φ}
    (h : Reaches (S.step capacity) P (start p c) s) (ho : s.outcome = some o) : S.Runs p c o := by
  have hclosed : Closed s := closed_of_reaches h
  have hfrom : S.RunsFrom s o := by
    unfold State.outcome at ho
    unfold RunsFrom
    split at ho
    · next d e hk =>
        obtain rfl := Option.some.inj ho
        rw [hk]
        simp only [Feeds]
    · next d r hk hp =>
        obtain rfl := Option.some.inj ho
        rw [hk, hp, (hclosed d hk).1]
        exact .stopped r d
    · cases ho
  exact (runsFrom_of_reaches h o).mp hfrom

/-- The channel holds no more than its capacity. -/
theorem length_channel_le (h : Reaches (S.step capacity) P s₀ s)
    (h₀ : s₀.channel.length ≤ capacity) : s.channel.length ≤ capacity := by
  refine h.invariant (I := fun u => u.channel.length ≤ capacity) h₀ ?_
  intro u e u' hu _ hs
  cases step_cases hs with
  | produce | sendFails | close => exact hu
  | send a p c hp hc hroom =>
      rw [List.length_append]
      exact hroom
  | receive c a rest hc hchannel =>
      rw [hchannel, List.length_cons] at hu
      exact Nat.le_of_succ_le hu

end

/-! ## What has been done so far -/

section

variable {R : χ → χ → Prop} (hrefl : ∀ c, R c c) (htrans : ∀ a b c, R a b → R b c → R a c)
  (hgrows : ∀ c a, R c (S.consume c a).1)

include hgrows in
omit hrefl htrans in
theorem grows_take (c : χ) (a : α) : R c (S.take c a).state := by
  have h := hgrows c a
  unfold take
  split
  · next c' heq => rwa [heq] at h
  · next c' e heq => rwa [heq] at h

include hrefl htrans hgrows

theorem grows_of_runs {p : Producer π α ρ} {c : χ} {o : Outcome ρ χ φ} (h : S.Runs p c o) :
    R c o.state := by
  induction h with
  | stopped r c => exact hrefl c
  | produce _ ih => exact ih
  | @consume a p c c' o ha _ ih =>
      have := grows_take hgrows c a
      rw [ha] at this
      exact htrans _ _ _ this ih
  | @fail a p c c' e ha =>
      have := grows_take hgrows c a
      rwa [ha] at this

theorem grows_of_feeds {p : Producer π α ρ} {o : Outcome ρ χ φ} (items : List α) :
    ∀ k, S.Feeds items p k o → R k.state o.state := by
  induction items with
  | nil =>
      intro k h
      cases k with
      | failed c e =>
          obtain rfl : o = .failed c e := by simpa only [Feeds] using h
          exact hrefl c
      | running c => exact grows_of_runs hrefl htrans hgrows h
      | ended c => exact grows_of_runs hrefl htrans hgrows h
  | cons a items ih =>
      intro k h
      cases k with
      | failed c e =>
          obtain rfl : o = .failed c e := by simpa only [Feeds] using h
          exact hrefl c
      | running c => exact htrans _ _ _ (grows_take hgrows c a) (ih _ h)
      | ended c => exact htrans _ _ _ (grows_take hgrows c a) (ih _ h)

/-- **What the consumer has done so far is a part of what the sequential program does.** -/
theorem grows_of_reaches {P : State π α ρ χ φ → Event → Prop} {p : Producer π α ρ} {c : χ}
    {o : Outcome ρ χ φ} (h : Reaches (S.step capacity) P (start p c) s) (ho : S.Runs p c o) :
    R s.consumer.state o.state :=
  grows_of_feeds hrefl htrans hgrows _ _ ((runsFrom_of_reaches h o).mpr ho)

end

/-! ## It ends -/

/-- What is left to do: three steps for each round of the producer, one for each item in the
channel, and the end of the consumer. -/
def workLeft (left : π → ℕ) (s : State π α ρ χ φ) : ℕ :=
  (match s.producer with
    | .running p => 3 * left p + 1
    | .sending _ p => 3 * left p + 3
    | .stopped _ => 0) + s.channel.length +
  (match s.consumer with
    | .running _ => 1
    | _ => 0)

theorem workLeft_step {left : π → ℕ} {e : Event}
    (hleft : ∀ p p', S.produce p = .work p' ∨ (∃ a, S.produce p = .emit a p') → left p' < left p)
    (h : S.step capacity s e = some s') : workLeft left s' < workLeft left s := by
  unfold workLeft
  cases step_cases h with
  | produce p hp =>
      rw [hp, next]
      cases hnext : S.produce p with
      | work p' =>
          have := hleft p p' (Or.inl hnext)
          dsimp only
          omega
      | emit a p' =>
          have := hleft p p' (Or.inr ⟨a, hnext⟩)
          dsimp only
          omega
      | stop r =>
          dsimp only
          omega
  | send a p c hp hc hroom =>
      rw [hp, List.length_append, List.length_singleton]
      dsimp only
      omega
  | sendFails a p c e hp hc =>
      rw [hp]
      dsimp only
      omega
  | receive c a rest hc hchannel =>
      rw [hc, hchannel, List.length_cons]
      rcases S.take_cases c a with ⟨c', ha⟩ | ⟨c', e, ha⟩
      · rw [ha]
        dsimp only
        omega
      · rw [ha]
        dsimp only
        omega
  | close c r hc hchannel hp =>
      rw [hc]
      dsimp only
      omega

/-- **Whatever the scheduling, the pipeline comes to an outcome** if every round of the producer
leaves it less to do. -/
theorem inevitable_outcome (hcapacity : 0 < capacity) (left : π → ℕ)
    (hleft : ∀ p p', S.produce p = .work p' ∨ (∃ a, S.produce p = .emit a p') → left p' < left p)
    (hs : Closed s) :
    Inevitable (S.step capacity) (fun _ _ => True) (fun s => s.outcome.isSome) s := by
  refine Inevitable.of_measure (I := Closed) (workLeft left) ?_ ?_ hs
  · intro u hu hopen
    cases hc : u.consumer with
    | failed c e => exact absurd (by simp [State.outcome, hc]) hopen
    | ended c =>
        obtain ⟨-, r, hp⟩ := hu c hc
        exact absurd (by simp [State.outcome, hc, hp]) hopen
    | running c =>
        cases hchannel : u.channel with
        | cons a rest => exact ⟨_, .receive, trivial, by simp only [step, hc, hchannel]; rfl⟩
        | nil =>
            have hroom : u.channel.length < capacity := by rwa [hchannel]
            cases hp : u.producer with
            | running p => exact ⟨_, .produce, trivial, by simp only [step, hp]; rfl⟩
            | sending a p =>
                exact ⟨_, .send, trivial, by simp only [step, hp, hc, if_pos hroom]; rfl⟩
            | stopped r => exact ⟨_, .close, trivial, by simp only [step, hc, hchannel, hp]; rfl⟩
  · rintro u u' hu - ⟨e, -, hs⟩
    exact ⟨hu.step hs, workLeft_step hleft hs⟩

end Stages

end Pipeline
