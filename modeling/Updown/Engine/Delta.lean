import Updown.Engine.Send

set_option autoImplicit false

/-! # Delta sync

`compute_block_hashes`, `diff_block_hashes` and the statistics of `engine/delta.rs`, and the list of
unchanged blocks the `send` command makes of them: the blocks whose hash the receiver already has.
-/

namespace Updown

/-- Seek to a block, read it and hash it. -/
def hashBlock (C : Crates) (file : Bytes) (blockSize blockId : ℕ) : Except Fault Hash := do
  let offset ← checkedMul blockId blockSize
  let remaining ← checkedSub .fileSizeUnderflow file.length offset
  pure (C.blake3 ((file.drop offset).take (min remaining blockSize)))

/-- Compute BLAKE3 hashes for each block of a file. -/
def computeBlockHashes (C : Crates) (file : Bytes) (blockSize : ℕ) : Except Fault (List Hash) :=
  match countBlocks file.length blockSize with
  | .error fault => .error fault
  | .ok totalBlocks =>
      if ISIZE_MAX < blockSize then .error .capacityOverflow
      else (List.range totalBlocks).mapM (hashBlock C file blockSize)

/-- The ids of the blocks that need to be re-sent. -/
def diffBlockHashes (sourceHashes destHashes : List Hash) : List ℕ :=
  sourceHashes.zipIdx.filterMap fun (srcHash, i) =>
    if destHashes.length ≤ i then some (i % 2 ^ 32)
    else if destHashes[i]? ≠ some srcHash then some (i % 2 ^ 32)
    else none

/-- The blocks that are not among the changed ones: what the sender skips. -/
def unchangedBlocks (sourceHashes : List Hash) (changed : List ℕ) : List ℕ :=
  (List.range (sourceHashes.length % 2 ^ 32)).filter fun b => b ∉ changed

/-- Statistics for a delta sync operation. -/
structure DeltaSyncStats where
  totalBlocks : ℕ
  changedBlocks : ℕ
  unchangedBlocks : ℕ
  savingsPercent : ℚ

def DeltaSyncStats.fromDiff (totalBlocks : ℕ) (changed : List ℕ) : Except Fault DeltaSyncStats := do
  let changedBlocks := changed.length % 2 ^ 32
  let unchangedBlocks ← checkedSub .totalBlocksUnderflow totalBlocks changedBlocks
  pure
    { totalBlocks := totalBlocks, changedBlocks := changedBlocks,
      unchangedBlocks := unchangedBlocks,
      savingsPercent := if 0 < totalBlocks then unchangedBlocks / totalBlocks * 100 else 0 }

/-! ## What the functions compute -/

variable {C : Crates} {file : Bytes} {b : ℕ}

theorem hashBlock_eq (hb : 0 < b) (hfile : file.length < 2 ^ 63) {id : ℕ}
    (hid : id < Blocks.count file.length b) :
    hashBlock C file b id = .ok (C.blake3 (Blocks.block b file id)) := by
  have hoff := (Blocks.lt_count_iff hb id).mp hid
  simp only [hashBlock, checkedMul_of_lt (show id * b < 2 ^ 64 by omega), bind, Except.bind,
    checkedSub_of_le hoff.le, pure, Except.pure]
  rw [Blocks.block, min_comm, ← List.length_drop, ← List.take_eq_take_min]

/-- **The hashes of a file are the hashes of its blocks**, as far as their number fits `u32`. -/
theorem computeBlockHashes_eq (hb : 0 < b) (hsize : b ≤ ISIZE_MAX)
    (hfile : file.length < 2 ^ 63) :
    computeBlockHashes C file b = .ok ((List.range (Blocks.count file.length b % 2 ^ 32)).map
      fun id => C.blake3 (Blocks.block b file id)) := by
  have hmax : ISIZE_MAX < 2 ^ 63 := by decide
  rw [computeBlockHashes, countBlocks, if_neg (by omega), if_neg (by omega)]
  dsimp only
  rw [if_neg (by omega)]
  have hall : ∀ id ∈ List.range (Blocks.count file.length b % 2 ^ 32),
      hashBlock C file b id = .ok (C.blake3 (Blocks.block b file id)) := by
    intro id hid
    exact hashBlock_eq hb hfile
      (lt_of_lt_of_le (List.mem_range.mp hid) (Nat.mod_le _ _))
  generalize List.range (Blocks.count file.length b % 2 ^ 32) = ids at hall
  induction ids with
  | nil => rfl
  | cons id ids ih =>
      rw [List.mapM_cons, hall id (by simp), List.map_cons]
      simp only [bind, Except.bind, ih fun id' hid' => hall id' (by simp [hid'])]
      rfl

/-- A fault while hashing a block is an overflow of its offset. -/
theorem hashBlock_fault (hb : 0 < b) {id : ℕ} (hid : id < Blocks.count file.length b)
    {fault : Fault} (h : hashBlock C file b id = .error fault) : fault = .overflow := by
  have hoff := (Blocks.lt_count_iff hb id).mp hid
  by_cases hmul : id * b < 2 ^ 64
  · simp only [hashBlock, checkedMul_of_lt hmul, bind, Except.bind, checkedSub_of_le hoff.le, pure,
      Except.pure] at h
    cases h
  · simp only [hashBlock, checkedMul, if_neg hmul, bind, Except.bind] at h
    exact (Except.error.inj h).symm

theorem exists_error_of_mapM {α β ε : Type} {f : α → Except ε β} {l : List α} {err : ε}
    (h : l.mapM f = .error err) : ∃ a ∈ l, f a = .error err := by
  induction l with
  | nil => cases h
  | cons a l ih =>
      rw [List.mapM_cons] at h
      cases ha : f a with
      | error err' =>
          simp only [ha, bind, Except.bind] at h
          obtain rfl := Except.error.inj h
          exact ⟨a, by simp, ha⟩
      | ok b =>
          cases hl : l.mapM f with
          | error err' =>
              simp only [ha, hl, bind, Except.bind] at h
              obtain ⟨a', ha', hf⟩ := ih (hl.trans h)
              exact ⟨a', by simp [ha'], hf⟩
          | ok bs =>
              simp only [ha, hl, bind, Except.bind, pure, Except.pure] at h
              cases h

/-- **How hashing a file can go wrong**: a block size of zero, or sizes no machine has. -/
theorem computeBlockHashes_fault {fault : Fault} (h : computeBlockHashes C file b = .error fault) :
    b = 0 ∨ fault = .overflow ∨ fault = .capacityOverflow := by
  unfold computeBlockHashes at h
  by_cases hb : b = 0
  · exact Or.inl hb
  · right
    cases hcount : countBlocks file.length b with
    | error fault' =>
        rw [hcount] at h
        obtain rfl := Except.error.inj h
        rw [countBlocks, if_neg hb] at hcount
        split at hcount
        · exact Or.inl (Except.error.inj hcount).symm
        · cases hcount
    | ok total =>
        rw [hcount] at h
        dsimp only at h
        split at h
        · exact Or.inr (Except.error.inj h).symm
        · obtain ⟨id, hid, hfault⟩ := exists_error_of_mapM h
          obtain ⟨-, -, htotal⟩ := countBlocks_ok hcount
          have hlt : id < Blocks.count file.length b :=
            lt_of_lt_of_le (htotal ▸ List.mem_range.mp hid) (Nat.mod_le _ _)
          exact Or.inl (hashBlock_fault (by omega) hlt hfault)

/-! ## Which blocks differ -/

/-- The changed blocks of two files of `n` blocks. -/
theorem mem_diffBlockHashes {n : ℕ} (hn : n ≤ 2 ^ 32) (f g : ℕ → Hash) {id : ℕ} :
    id ∈ diffBlockHashes ((List.range n).map f) ((List.range n).map g) ↔
      id < n ∧ g id ≠ f id := by
  have hdest : ∀ i < n, ((List.range n).map g)[i]? = some (g i) := by
    intro i hi
    rw [List.getElem?_map, List.getElem?_range hi, Option.map_some]
  simp only [diffBlockHashes, List.mem_filterMap, List.length_map, List.length_range]
  constructor
  · rintro ⟨⟨srcHash, i⟩, hmem, hif⟩
    obtain ⟨hi, hsrc⟩ := List.getElem?_eq_some_iff.mp (List.mk_mem_zipIdx_iff_getElem?.mp hmem)
    rw [List.length_map, List.length_range] at hi
    obtain rfl : f i = srcHash := by simpa using hsrc
    dsimp only at hif
    rw [if_neg (by omega), hdest i hi] at hif
    split at hif
    · next hne =>
        obtain rfl : i % 2 ^ 32 = id := Option.some.inj hif
        rw [Nat.mod_eq_of_lt (by omega)]
        exact ⟨hi, fun heq => hne (by rw [heq])⟩
    · cases hif
  · rintro ⟨hid, hne⟩
    refine ⟨(f id, id), ?_, ?_⟩
    · rw [List.mk_mem_zipIdx_iff_getElem?, List.getElem?_map, List.getElem?_range hid]
      rfl
    · dsimp only
      rw [if_neg (by omega), hdest id hid, if_pos (by simpa using hne),
        Nat.mod_eq_of_lt (by omega)]

theorem length_diffBlockHashes_le (source dest : List Hash) :
    (diffBlockHashes source dest).length ≤ source.length := by
  refine (List.length_filterMap_le _ _).trans ?_
  rw [List.length_zipIdx]

theorem nodup_unchangedBlocks (source : List Hash) (changed : List ℕ) :
    (unchangedBlocks source changed).Nodup :=
  List.nodup_range.filter _

theorem length_unchangedBlocks_le (source : List Hash) (changed : List ℕ) :
    (unchangedBlocks source changed).length ≤ source.length % 2 ^ 32 := by
  refine (List.length_filter_le _ _).trans ?_
  rw [List.length_range]

/-- **The blocks that are skipped are those whose hashes agree.** -/
theorem mem_unchangedBlocks {n : ℕ} (hn : n < 2 ^ 32) (f g : ℕ → Hash) {id : ℕ} :
    id ∈ unchangedBlocks ((List.range n).map f)
        (diffBlockHashes ((List.range n).map f) ((List.range n).map g)) ↔
      id < n ∧ g id = f id := by
  simp only [unchangedBlocks, List.length_map, List.length_range, Nat.mod_eq_of_lt hn,
    List.mem_filter, List.mem_range, decide_eq_true_eq, mem_diffBlockHashes hn.le]
  constructor
  · rintro ⟨hid, hnot⟩
    exact ⟨hid, by_contra fun hne => hnot ⟨hid, hne⟩⟩
  · rintro ⟨hid, heq⟩
    exact ⟨hid, fun h => h.2 heq⟩

end Updown
