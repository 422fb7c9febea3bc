import Updown.Engine.ResumeFormat

set_option autoImplicit false

/-! # The laws of the resume bitmap

A resume state that comes from marking blocks is a table: `ofMarks base m` has the bitmap and the
hashes that the map `m` from block ids to hashes gives. Marking a block writes to the map
(`markComplete_ofMarks`), also where the block is out of range and the table does not show it, so
whatever the calls are the state is that of the last hash for each id (`markAll_new`). The laws are
then those of the map (`bitmap_laws`).
-/

namespace Updown.ResumeState

/-- The state whose block `id` has the hash `m id`, and is complete if there is one. -/
def ofMarks (base : ResumeState) (m : ℕ → Option Hash) : ResumeState :=
  { base with
    completedBlocks := (List.range base.totalBlocks).map fun id => (m id).isSome
    blockHashes := (List.range base.totalBlocks).map m }

/-- The map after a block is marked. -/
def write (m : ℕ → Option Hash) (mark : ℕ × Hash) : ℕ → Option Hash :=
  Function.update m mark.1 (some mark.2)

/-- The last hash that is marked for a block. -/
def lastHash (marks : List (ℕ × Hash)) (id : ℕ) : Option Hash :=
  ((marks.filter fun mark => mark.1 = id).getLast?).map Prod.snd

/-! ## The table and the map -/

section

variable {base : ResumeState} {m : ℕ → Option Hash}

theorem new_eq_ofMarks (sessionId : UInt32) (fileSize blockSize totalBlocks : ℕ) :
    new sessionId fileSize blockSize totalBlocks =
      (new sessionId fileSize blockSize totalBlocks).ofMarks fun _ => none := by
  simp [new, ofMarks]

@[simp] theorem ofMarks_totalBlocks : (base.ofMarks m).totalBlocks = base.totalBlocks := rfl

theorem wellFormed_ofMarks (h : base.totalBlocks < 2 ^ 32) : (base.ofMarks m).WellFormed :=
  ⟨h, by simp [ofMarks], by simp [ofMarks]⟩

theorem isComplete_ofMarks (id : ℕ) :
    (base.ofMarks m).isComplete id = true ↔ id < base.totalBlocks ∧ (m id).isSome = true := by
  by_cases hid : id < base.totalBlocks <;> simp [isComplete, ofMarks, hid]

theorem blockHashes_ofMarks {id : ℕ} (hid : id < base.totalBlocks) :
    (base.ofMarks m).blockHashes[id]? = some (m id) := by
  simp [ofMarks, hid]

/-- Writing to the map is setting the entry of the table. -/
theorem map_update {β : Type} (f : Option Hash → β) (n id : ℕ) (v : Option Hash) :
    (List.range n).map (fun i => f (Function.update m id v i)) =
      ((List.range n).map fun i => f (m i)).set id (f v) := by
  refine List.ext_getElem (by simp) fun i h₁ h₂ => ?_
  by_cases hi : i = id
  · subst hi
    simp
  · simp [hi, Ne.symm hi]

/-- **Marking a block writes its hash**, wherever the block is. -/
theorem markComplete_ofMarks (id : ℕ) (hash : Hash) :
    (base.ofMarks m).markComplete id hash = .ok (base.ofMarks (write m (id, hash))) := by
  have hbitmap := map_update (m := m) Option.isSome base.totalBlocks id (some hash)
  have hhashes := map_update (m := m) (fun v => v) base.totalBlocks id (some hash)
  have hlength : (base.ofMarks m).completedBlocks.length = base.totalBlocks := by simp [ofMarks]
  have hlength' : (base.ofMarks m).blockHashes.length = base.totalBlocks := by simp [ofMarks]
  by_cases hid : id < base.totalBlocks
  · rw [markComplete, hlength, hlength', if_pos hid, if_pos hid, ofMarks, ofMarks, write,
      hbitmap, hhashes]
    rfl
  · -- an entry out of range is not in the table
    have hge : ((List.range base.totalBlocks).map m).length ≤ id := by simpa using hid
    have hge' : ((List.range base.totalBlocks).map fun i => (m i).isSome).length ≤ id := by
      simpa using hid
    rw [markComplete, hlength, if_neg hid, ofMarks, ofMarks, write, hbitmap, hhashes,
      List.set_eq_of_length_le hge, List.set_eq_of_length_le hge']

/-- A run of calls writes their hashes, one after the other. -/
theorem markAll_ofMarks (marks : List (ℕ × Hash)) :
    ∀ m, (base.ofMarks m).markAll marks = .ok (base.ofMarks (marks.foldl write m)) := by
  induction marks with
  | nil =>
      intro m
      rfl
  | cons mark marks ih =>
      intro m
      rw [markAll, markComplete_ofMarks]
      exact ih _

end

/-! ## Sequences of calls -/

theorem lastHash_concat (marks : List (ℕ × Hash)) (mark : ℕ × Hash) :
    lastHash (marks ++ [mark]) = write (lastHash marks) mark := by
  funext id
  by_cases hid : mark.1 = id
  · subst hid
    simp [lastHash, write]
  · simp [lastHash, hid, write, Function.update_of_ne (Ne.symm hid)]

/-- What is written last to a block is its last hash. -/
theorem foldl_write (marks : List (ℕ × Hash)) :
    marks.foldl write (fun _ => none) = lastHash marks := by
  induction marks using List.reverseRecOn with
  | nil => rfl
  | append_singleton marks mark ih =>
      rw [List.foldl_append, ih, lastHash_concat]
      rfl

theorem isSome_lastHash_iff {marks : List (ℕ × Hash)} {id : ℕ} :
    (lastHash marks id).isSome = true ↔ id ∈ marks.map Prod.fst := by
  simp [lastHash]

/-- **Marking blocks of a new state never faults**, and gives the table of the last hashes. -/
theorem markAll_new (sessionId : UInt32) (fileSize blockSize totalBlocks : ℕ)
    (marks : List (ℕ × Hash)) :
    (new sessionId fileSize blockSize totalBlocks).markAll marks =
      .ok ((new sessionId fileSize blockSize totalBlocks).ofMarks (lastHash marks)) := by
  rw [new_eq_ofMarks, markAll_ofMarks, foldl_write]
  rfl

/-! ## The laws -/

/-- What a state says after the calls `marks` on a new one. -/
structure Laws (s : ResumeState) (totalBlocks : ℕ) (marks : List (ℕ × Hash)) : Prop where
  isComplete_iff : ∀ id, s.isComplete id = true ↔ id < totalBlocks ∧ id ∈ marks.map Prod.fst
  count : s.completedCount + s.incompleteBlocks.length = totalBlocks
  increasing : s.incompleteBlocks.Pairwise (· < ·)
  mem_incomplete : ∀ id, id ∈ s.incompleteBlocks ↔ id < totalBlocks ∧ id ∉ marks.map Prod.fst
  complete_iff : s.isTransferComplete = true ↔ s.incompleteBlocks = []
  hashes_length : s.blockHashes.length = totalBlocks
  hash : ∀ id < totalBlocks, s.blockHashes[id]? = some (lastHash marks id)

theorem WellFormed.pairwise_incompleteBlocks {s : ResumeState} (hs : s.WellFormed) :
    s.incompleteBlocks.Pairwise (· < ·) := by
  rw [hs.incompleteBlocks_eq]
  exact List.pairwise_lt_range.filter _

/-- The transfer is complete when nothing is left to send. -/
theorem WellFormed.isTransferComplete_iff_nil {s : ResumeState} (hs : s.WellFormed) :
    s.isTransferComplete = true ↔ s.incompleteBlocks = [] := by
  have hsum := hs.length_incompleteBlocks
  rw [isTransferComplete, decide_eq_true_iff, ← List.length_eq_zero_iff]
  omega

theorem laws_ofMarks {base : ResumeState} (h : base.totalBlocks < 2 ^ 32)
    (marks : List (ℕ × Hash)) :
    (base.ofMarks (lastHash marks)).Laws base.totalBlocks marks := by
  have hs : (base.ofMarks (lastHash marks)).WellFormed := wellFormed_ofMarks h
  have hcomplete : ∀ id, (base.ofMarks (lastHash marks)).isComplete id = true ↔
      id < base.totalBlocks ∧ id ∈ marks.map Prod.fst := by
    intro id
    rw [isComplete_ofMarks, isSome_lastHash_iff]
  constructor
  · exact hcomplete
  · exact hs.length_incompleteBlocks
  · exact hs.pairwise_incompleteBlocks
  · intro id
    rw [hs.mem_incompleteBlocks, Bool.eq_false_iff, ne_eq, hcomplete, ofMarks_totalBlocks]
    tauto
  · exact hs.isTransferComplete_iff_nil
  · exact hs.hashes_length
  · exact fun id hid => blockHashes_ofMarks hid

/-- Calls for different blocks can be made in either order. -/
theorem lastHash_swap {a b : ℕ × Hash} (h : a.1 ≠ b.1) (before after : List (ℕ × Hash)) :
    lastHash (before ++ a :: b :: after) = lastHash (before ++ b :: a :: after) := by
  have hcomm : ∀ m : ℕ → Option Hash, write (write m a) b = write (write m b) a := by
    intro m
    exact Function.update_comm h _ _ m
  rw [← foldl_write, ← foldl_write, List.foldl_append, List.foldl_append, List.foldl_cons,
    List.foldl_cons, List.foldl_cons, List.foldl_cons, hcomm]

/-- **The laws of the bitmap**: whatever the calls on a new state are, none of them faults, the
state says which blocks were marked and with what, and calls for different blocks commute. -/
theorem bitmap_laws (sessionId : UInt32) (fileSize blockSize : ℕ) (totalBlocks : UInt32) :
    (∀ marks, ∃ s, (new sessionId fileSize blockSize totalBlocks.toNat).markAll marks = .ok s ∧
      s.Laws totalBlocks.toNat marks) ∧
    ∀ a b : ℕ × Hash, a.1 ≠ b.1 → ∀ before after,
      (new sessionId fileSize blockSize totalBlocks.toNat).markAll (before ++ a :: b :: after) =
        (new sessionId fileSize blockSize totalBlocks.toNat).markAll
          (before ++ b :: a :: after) := by
  constructor
  · intro marks
    exact ⟨_, markAll_new _ _ _ _ marks, laws_ofMarks totalBlocks.toNat_lt marks⟩
  · intro a b hne before after
    rw [markAll_new, markAll_new, lastHash_swap hne]

end Updown.ResumeState
