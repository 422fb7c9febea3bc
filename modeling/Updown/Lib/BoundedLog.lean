import Mathlib.Data.List.Infix
import Mathlib.Tactic

set_option autoImplicit false

/-! # Logs of bounded length

A log that takes entries at its end and drops its oldest `k` entries when it holds more than `cap`.
It is always a suffix of all entries (`pushAll_isSuffix`), never too long (`length_pushAll_le`), and
whoever looks only at the last `n` entries, with `n + k ≤ cap + 1`, does not see that anything has
been dropped (`latest_pushAll`).
-/

namespace BoundedLog

variable {α : Type} {cap k : ℕ}

def push (cap k : ℕ) (log : List α) (a : α) : List α :=
  if (log ++ [a]).length > cap then (log ++ [a]).drop k else log ++ [a]

def pushAll (cap k : ℕ) (log : List α) (entries : List α) : List α :=
  entries.foldl (push cap k) log

/-- The last `n` entries. -/
def latest (n : ℕ) (log : List α) : List α := log.drop (log.length - n)

/-- Two logs that agree in their last `n` entries. -/
theorem latest_eq_of_isSuffix {n : ℕ} {log all : List α} (h : log <:+ all)
    (hn : n ≤ log.length ∨ log = all) : latest n log = latest n all := by
  rcases hn with hn | rfl
  · obtain ⟨front, rfl⟩ := h
    rw [latest, latest, List.length_append, Nat.add_sub_assoc hn, List.drop_append,
      List.drop_of_length_le (Nat.le_add_right _ _), List.nil_append, Nat.add_sub_cancel_left]
  · rfl

theorem push_isSuffix (log : List α) (a : α) : push cap k log a <:+ log ++ [a] := by
  unfold push
  split
  · exact List.drop_suffix _ _
  · exact List.suffix_refl _

theorem pushAll_isSuffix (entries : List α) :
    ∀ log : List α, pushAll cap k log entries <:+ log ++ entries := by
  induction entries with
  | nil =>
      intro log
      rw [List.append_nil]
      exact List.suffix_refl _
  | cons a entries ih =>
      intro log
      obtain ⟨front, hfront⟩ : push cap k log a <:+ log ++ [a] := push_isSuffix log a
      refine (ih (push cap k log a)).trans ⟨front, ?_⟩
      rw [← List.append_assoc, hfront, List.append_assoc, List.singleton_append]

/-- **The log is never too long.** -/
theorem length_pushAll_le (hk : 0 < k) (entries : List α) :
    ∀ log : List α, log.length ≤ cap → (pushAll cap k log entries).length ≤ cap := by
  induction entries with
  | nil => exact fun log h => h
  | cons a entries ih =>
      intro log hlog
      refine ih _ ?_
      unfold push
      split
      · rw [List.length_drop, List.length_append, List.length_singleton]
        omega
      · omega

/-- The log holds the last `n` entries, or all of them. -/
theorem le_length_pushAll {n : ℕ} (hn : n + k ≤ cap + 1) (entries : List α) :
    n ≤ (pushAll cap k [] entries).length ∨ pushAll cap k [] entries = entries := by
  induction entries using List.reverseRecOn with
  | nil => exact Or.inr rfl
  | append_singleton entries a ih =>
      rw [pushAll, List.foldl_append, List.foldl_cons, List.foldl_nil, ← pushAll]
      unfold push
      split
      · next hlong =>
          rw [List.length_append, List.length_singleton] at hlong
          left
          rw [List.length_drop, List.length_append, List.length_singleton]
          omega
      · rcases ih with hlen | hall
        · left
          rw [List.length_append]
          omega
        · right
          rw [hall]

/-- **What is dropped is not missed** by whoever looks at the last `n` entries. -/
theorem latest_pushAll {n : ℕ} (hn : n + k ≤ cap + 1) (entries : List α) :
    latest n (pushAll cap k [] entries) = latest n entries :=
  latest_eq_of_isSuffix (pushAll_isSuffix entries []) (le_length_pushAll hn entries)

end BoundedLog
