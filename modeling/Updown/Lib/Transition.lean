import Mathlib.Algebra.GroupWithZero.Nat
import Mathlib.Data.Nat.Notation
import Mathlib.Logic.Relation

set_option autoImplicit false

/-! # Labelled transition systems

A system is a partial step function `step : σ → ε → Option σ` on states `σ` and labels `ε`.
The environment is a predicate `P : σ → ε → Prop` saying which labels may occur in which
state. `Reaches step P s s'` says that `s'` can be reached from `s` by labels the environment
allows; `runAll step s es` executes a given list of labels.
-/

namespace Transition

variable {σ ε : Type*} {step : σ → ε → Option σ} {P Q : σ → ε → Prop}

/-- One move: a label the environment allows in `s` leads to `s'`. -/
def Moves (step : σ → ε → Option σ) (P : σ → ε → Prop) (s s' : σ) : Prop :=
  ∃ e, P s e ∧ step s e = some s'

/-- `s'` is reached from `s` by finitely many moves. -/
def Reaches (step : σ → ε → Option σ) (P : σ → ε → Prop) : σ → σ → Prop :=
  Relation.ReflTransGen (Moves step P)

/-- Execute a list of labels. -/
def runAll (step : σ → ε → Option σ) : σ → List ε → Option σ
  | s, [] => some s
  | s, e :: es => (step s e).bind fun s' => runAll step s' es

theorem runAll_singleton (s : σ) (e : ε) : runAll step s [e] = step s e := by
  rw [runAll]
  cases step s e with
  | none => rfl
  | some t => rfl

theorem runAll_append {es es' : List ε} {s : σ} :
    runAll step s (es ++ es') = (runAll step s es).bind fun t => runAll step t es' := by
  induction es generalizing s with
  | nil => rfl
  | cons e es ih =>
      rw [List.cons_append, runAll, runAll, Option.bind_assoc]
      exact congrArg _ (funext fun t => ih)

/-- The labels of the list are allowed where they are executed. -/
def AllowedAlong (step : σ → ε → Option σ) (P : σ → ε → Prop) : σ → List ε → Prop
  | _, [] => True
  | s, e :: es => P s e ∧ ∀ s', step s e = some s' → AllowedAlong step P s' es

theorem Reaches.refl (s : σ) : Reaches step P s s := Relation.ReflTransGen.refl

theorem Reaches.trans {s t u : σ} (h : Reaches step P s t) (h' : Reaches step P t u) :
    Reaches step P s u :=
  Relation.ReflTransGen.trans h h'

theorem Reaches.single {s s' : σ} {e : ε} (he : P s e) (h : step s e = some s') :
    Reaches step P s s' :=
  Relation.ReflTransGen.single ⟨e, he, h⟩

theorem Reaches.snoc {s t u : σ} {e : ε} (h : Reaches step P s t) (he : P t e)
    (hu : step t e = some u) : Reaches step P s u :=
  Relation.ReflTransGen.tail h ⟨e, he, hu⟩

theorem Reaches.cons {s t u : σ} {e : ε} (he : P s e) (ht : step s e = some t)
    (h : Reaches step P t u) : Reaches step P s u :=
  Relation.ReflTransGen.head ⟨e, he, ht⟩ h

theorem Reaches.mono {s t : σ} (hPQ : ∀ s e, P s e → Q s e) (h : Reaches step P s t) :
    Reaches step Q s t :=
  Relation.ReflTransGen.mono (fun _ _ ⟨e, he, hs⟩ => ⟨e, hPQ _ e he, hs⟩) _ _ h

/-- **The simulation rule**, with steps the other system does not see: if each move of the one is a
move of the other or leaves its state alone, so does every run. -/
theorem Reaches.simulated {σ' ε' : Type*} {step' : σ' → ε' → Option σ'} {P' : σ' → ε' → Prop}
    (f : σ → σ') {s t : σ}
    (hsim : ∀ s e s', P s e → step s e = some s' →
      f s' = f s ∨ ∃ e', P' (f s) e' ∧ step' (f s) e' = some (f s'))
    (h : Reaches step P s t) : Reaches step' P' (f s) (f t) := by
  induction h with
  | refl => exact Reaches.refl _
  | tail _ hm ih =>
      obtain ⟨e, he, hs⟩ := hm
      rcases hsim _ e _ he hs with hsame | ⟨e', he', hs'⟩
      · exact hsame ▸ ih
      · exact ih.snoc he' hs'

/-- **The invariant rule**, relative to what is known of reachable states: what holds at the
start and is kept by every allowed step from a reachable state holds in every reachable state. -/
theorem Reaches.invariant_along {I : σ → Prop} {s t : σ} (h : Reaches step P s t) (h0 : I s)
    (hstep : ∀ u e u', Reaches step P s u → I u → P u e → step u e = some u' → I u') : I t := by
  induction h with
  | refl => exact h0
  | tail hreach hm ih =>
      obtain ⟨e, he, hs⟩ := hm
      exact hstep _ e _ hreach ih he hs

/-- The invariant rule for an invariant that stands on its own. -/
theorem Reaches.invariant {I : σ → Prop} {s t : σ} (h : Reaches step P s t) (h0 : I s)
    (hstep : ∀ s e s', I s → P s e → step s e = some s' → I s') : I t :=
  h.invariant_along h0 fun u e u' _ => hstep u e u'

/-- An execution can be evaluated to find a state with a given property. -/
theorem exists_of_runAll (step : σ → ε → Option σ) (s : σ) (es : List ε) (check : σ → Bool)
    (h : (runAll step s es).any check = true) :
    ∃ t, runAll step s es = some t ∧ check t = true := by
  obtain ⟨t, ht, hcheck⟩ := (Option.any_eq_true _ _).mp h
  exact ⟨t, ht, hcheck⟩

/-- An execution whose labels are all allowed is a run. -/
theorem Reaches.of_runAll {s t : σ} {es : List ε} (h : runAll step s es = some t)
    (hP : AllowedAlong step P s es) : Reaches step P s t := by
  induction es generalizing s with
  | nil =>
      obtain rfl : s = t := by simpa [runAll] using h
      exact Reaches.refl s
  | cons e es ih =>
      obtain ⟨s', hs, h'⟩ := Option.bind_eq_some_iff.mp h
      exact Reaches.cons hP.1 hs (ih h' (hP.2 s' hs))

/-- Labels that are allowed in every state are allowed along every execution. -/
theorem allowedAlong_of_forall {s : σ} {es : List ε} (h : ∀ e ∈ es, ∀ s, P s e) :
    AllowedAlong step P s es := by
  induction es generalizing s with
  | nil => trivial
  | cons e es ih =>
      exact ⟨h e (by simp) s, fun s' _ => ih fun e' he' => h e' (by simp [he'])⟩

/-- **The budget rule**: a measure that no allowed step raises by more than the weight of its label
is raised by an execution by no more than the weights of its labels. -/
theorem le_add_weights_of_runAll (μ : σ → ℕ) (weight : ε → ℕ) {s t : σ} {es : List ε}
    (hstep : ∀ u e u', Reaches step P s u → P u e → step u e = some u' → μ u' ≤ μ u + weight e)
    (h : runAll step s es = some t) (hP : AllowedAlong step P s es) :
    μ t ≤ μ s + (es.map weight).sum := by
  induction es generalizing s with
  | nil =>
      obtain rfl : s = t := by simpa [runAll] using h
      exact Nat.le_add_right _ _
  | cons e es ih =>
      obtain ⟨s', hs, h'⟩ := Option.bind_eq_some_iff.mp h
      have hfirst := hstep s e s' (Reaches.refl s) hP.1 hs
      have hrest := ih (fun u e' u' hu => hstep u e' u' (Reaches.cons hP.1 hs hu)) h' (hP.2 s' hs)
      rw [List.map_cons, List.sum_cons]
      omega

/-- The steps whose labels pass a check. -/
def guarded (check : σ → ε → Bool) (step : σ → ε → Option σ) (s : σ) (e : ε) : Option σ :=
  if check s e then step s e else none

/-- An execution can check its labels as it goes. -/
theorem Reaches.of_guarded (check : σ → ε → Bool) (hcheck : ∀ s e, check s e = true → P s e)
    {s t : σ} {es : List ε} (h : runAll (guarded check step) s es = some t) :
    Reaches step P s t := by
  induction es generalizing s with
  | nil =>
      obtain rfl : s = t := by simpa [runAll] using h
      exact Reaches.refl s
  | cons e es ih =>
      obtain ⟨s', hs, h'⟩ := Option.bind_eq_some_iff.mp h
      rw [guarded] at hs
      split at hs
      · next he => exact Reaches.cons (hcheck s e he) hs (ih h')
      · cases hs

/-! ## Inevitability -/

/-- Every continuation from the state comes to a state in `G`, after finitely many moves. -/
inductive Inevitable (step : σ → ε → Option σ) (P : σ → ε → Prop) (G : σ → Prop) : σ → Prop
  | now {s : σ} (h : G s) : Inevitable step P G s
  | later {s : σ} (hmove : ∃ s', Moves step P s s')
      (hnext : ∀ s', Moves step P s s' → Inevitable step P G s') : Inevitable step P G s

variable {G : σ → Prop}

/-- **The ranking rule**: outside `G` there is a move, and every move keeps the invariant and
lowers the measure. -/
theorem Inevitable.of_measure {I : σ → Prop} (μ : σ → ℕ)
    (hmove : ∀ s, I s → ¬ G s → ∃ s', Moves step P s s')
    (hdown : ∀ s s', I s → ¬ G s → Moves step P s s' → I s' ∧ μ s' < μ s) {s : σ} (h : I s) :
    Inevitable step P G s := by
  induction hn : μ s using Nat.strongRecOn generalizing s with
  | ind n ih =>
      by_cases hG : G s
      · exact .now hG
      · refine .later (hmove s h hG) fun s' hs' => ?_
        obtain ⟨hI, hlt⟩ := hdown s s' h hG hs'
        exact ih (μ s') (hn ▸ hlt) hI rfl

/-- If `G` is never left, what is inevitable stays so. -/
theorem Inevitable.of_reaches (hG : ∀ s s', G s → ¬ Moves step P s s') {s t : σ}
    (h : Inevitable step P G s) (hst : Reaches step P s t) : Inevitable step P G t := by
  induction hst with
  | refl => exact h
  | tail _ hm ih =>
      cases ih with
      | now hnow => exact absurd hm (hG _ _ hnow)
      | later _ hnext => exact hnext _ hm

/-- What is inevitable is reached in some run. -/
theorem Inevitable.exists_reaches {s : σ} (h : Inevitable step P G s) :
    ∃ t, Reaches step P s t ∧ G t := by
  induction h with
  | @now s hnow => exact ⟨s, Reaches.refl s, hnow⟩
  | later hmove _ ih =>
      obtain ⟨s', hs'⟩ := hmove
      obtain ⟨t, ht, hG⟩ := ih s' hs'
      exact ⟨t, Relation.ReflTransGen.head hs' ht, hG⟩

/-- A state without moves in which `G` is inevitable is in `G`. -/
theorem Inevitable.of_stuck {s : σ} (h : Inevitable step P G s)
    (hstuck : ∀ s', ¬ Moves step P s s') : G s := by
  cases h with
  | now hnow => exact hnow
  | later hmove => exact absurd hmove.choose_spec (hstuck _)

end Transition
