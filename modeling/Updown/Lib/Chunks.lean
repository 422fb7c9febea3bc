import Mathlib.Tactic

set_option autoImplicit false

/-! # Streams in chunks

A stream that delivers its elements in order, in chunks of any size, empty ones included. What
`readExact` takes off the front depends on the elements only, not on the chunks they come in.
-/

namespace Chunks

variable {α : Type}

/-- Take `n` elements off the front; `none` when the stream ends before. A chunk that is not used
up stays at the front. -/
def readExact : List (List α) → ℕ → Option (List α × List (List α))
  | [], n => if n = 0 then some ([], []) else none
  | chunk :: chunks, n =>
      if n ≤ chunk.length then some (chunk.take n, chunk.drop n :: chunks)
      else (readExact chunks (n - chunk.length)).map fun x => (chunk ++ x.1, x.2)

/-- What is read was at the front. -/
theorem readExact_eq_some {chunks rest : List (List α)} {n : ℕ} {out : List α}
    (h : readExact chunks n = some (out, rest)) :
    out.length = n ∧ chunks.flatten = out ++ rest.flatten := by
  induction chunks generalizing n out with
  | nil =>
      rw [readExact] at h
      split at h
      · next hzero =>
          obtain ⟨rfl, rfl⟩ := Prod.mk.inj (Option.some.inj h)
          exact ⟨hzero.symm, rfl⟩
      · cases h
  | cons chunk chunks ih =>
      rw [readExact] at h
      split at h
      · next hle =>
          obtain ⟨rfl, rfl⟩ := Prod.mk.inj (Option.some.inj h)
          refine ⟨List.length_take_of_le hle, ?_⟩
          rw [List.flatten_cons, List.flatten_cons, ← List.append_assoc, List.take_append_drop]
      · next hlt =>
          obtain ⟨⟨tail, rest'⟩, htail, h⟩ := Option.map_eq_some_iff.mp h
          obtain ⟨rfl, rfl⟩ := Prod.mk.inj h
          obtain ⟨hlen, hflatten⟩ := ih htail
          refine ⟨?_, ?_⟩
          · rw [List.length_append, hlen]
            omega
          · rw [List.flatten_cons, hflatten, List.append_assoc]

/-- A stream that is long enough is read. -/
theorem exists_readExact {chunks : List (List α)} {n : ℕ} (h : n ≤ chunks.flatten.length) :
    ∃ out rest, readExact chunks n = some (out, rest) := by
  induction chunks generalizing n with
  | nil =>
      have hzero : n = 0 := by simpa using h
      exact ⟨[], [], if_pos hzero⟩
  | cons chunk chunks ih =>
      rw [readExact]
      by_cases hle : n ≤ chunk.length
      · exact ⟨_, _, if_pos hle⟩
      · rw [List.flatten_cons, List.length_append] at h
        obtain ⟨tail, rest, htail⟩ := ih (show n - chunk.length ≤ chunks.flatten.length by omega)
        exact ⟨_, _, by rw [if_neg hle, htail, Option.map_some]⟩

/-- Reading off what the stream begins with. -/
theorem readExact_append {chunks : List (List α)} {front back : List α}
    (h : chunks.flatten = front ++ back) :
    ∃ rest, readExact chunks front.length = some (front, rest) ∧ rest.flatten = back := by
  have hle : front.length ≤ chunks.flatten.length := by
    rw [h, List.length_append]
    exact Nat.le_add_right _ _
  obtain ⟨out, rest, hread⟩ := exists_readExact hle
  obtain ⟨hlen, hflatten⟩ := readExact_eq_some hread
  obtain ⟨rfl, rfl⟩ := List.append_inj (h.symm.trans hflatten) hlen.symm
  exact ⟨rest, hread, rfl⟩

example : readExact [[1, 2], [], [3, 4, 5]] 3 = some ([1, 2, 3], [[4, 5]]) := rfl

end Chunks
