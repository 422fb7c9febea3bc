import Updown.Basic.Crates

set_option autoImplicit false

/-! # Block-level resume state

`ResumeState` (`engine/resume.rs`): which blocks of an output file have been received. It is
persisted beside the output file; `ResumeFile` is what a later run can find there.
-/

namespace Updown

/-- Block-level resume state. -/
structure ResumeState where
  sessionId : UInt32
  fileSize : ℕ
  blockSize : ℕ
  totalBlocks : ℕ
  /-- Bitfield: `true` = block received. -/
  completedBlocks : List Bool
  /-- BLAKE3 hash of each completed block. -/
  blockHashes : List (Option Hash)
  deriving DecidableEq

/-- The content of a resume file: what `bincode::deserialize` makes of its bytes. -/
inductive ResumeFile where
  | corrupt
  | saved (state : ResumeState)
  deriving DecidableEq

namespace ResumeState

/-- A new empty resume state. -/
def new (sessionId : UInt32) (fileSize blockSize totalBlocks : ℕ) : ResumeState :=
  { sessionId := sessionId, fileSize := fileSize, blockSize := blockSize,
    totalBlocks := totalBlocks, completedBlocks := List.replicate totalBlocks false,
    blockHashes := List.replicate totalBlocks none }

/-- Mark a block as completed with its hash. -/
def markComplete (s : ResumeState) (blockId : ℕ) (hash : Hash) : Except Fault ResumeState :=
  if blockId < s.completedBlocks.length then
    if blockId < s.blockHashes.length then
      .ok { s with
        completedBlocks := s.completedBlocks.set blockId true
        blockHashes := s.blockHashes.set blockId (some hash) }
    else .error .indexOutOfRange
  else .ok s

/-- Check if a block has been completed. -/
def isComplete (s : ResumeState) (blockId : ℕ) : Bool := s.completedBlocks[blockId]?.getD false

/-- Count of completed blocks, as a `u32`. -/
def completedCount (s : ResumeState) : ℕ := s.completedBlocks.count true % 2 ^ 32

/-- Block ids the sender still needs to send. -/
def incompleteBlocks (s : ResumeState) : List ℕ :=
  (s.completedBlocks.zipIdx.filter fun e => !e.1).map Prod.snd

/-- Check if the entire transfer is complete. -/
def isTransferComplete (s : ResumeState) : Bool := decide (s.totalBlocks ≤ s.completedCount)

/-- Load the resume state if it exists and matches the transfer. The second component is the
resume file that is left. -/
def load (file : Option ResumeFile) (fileSize blockSize totalBlocks : ℕ) :
    Option ResumeState × Option ResumeFile :=
  match file with
  | none => (none, none)
  | some .corrupt => (none, none)
  | some (.saved s) =>
      if s.fileSize ≠ fileSize ∨ s.blockSize ≠ blockSize ∨ s.totalBlocks ≠ totalBlocks then
        (none, none)
      else (some s, some (.saved s))

/-! ## Well-formed states -/

/-- Bitmap and hashes have one entry for each block of the transfer. -/
structure WellFormed (s : ResumeState) : Prop where
  total_lt : s.totalBlocks < 2 ^ 32
  bitmap_length : s.completedBlocks.length = s.totalBlocks
  hashes_length : s.blockHashes.length = s.totalBlocks

theorem wellFormed_new {sessionId : UInt32} {fileSize blockSize totalBlocks : ℕ}
    (h : totalBlocks < 2 ^ 32) : (new sessionId fileSize blockSize totalBlocks).WellFormed :=
  ⟨h, by simp [new], by simp [new]⟩

@[simp] theorem isComplete_new (sessionId : UInt32) (fileSize blockSize totalBlocks id : ℕ) :
    (new sessionId fileSize blockSize totalBlocks).isComplete id = false := by
  simp only [isComplete, new, List.getElem?_replicate]
  split <;> rfl

@[simp] theorem completedCount_new (sessionId : UInt32) (fileSize blockSize totalBlocks : ℕ) :
    (new sessionId fileSize blockSize totalBlocks).completedCount = 0 := by
  simp [completedCount, new, List.count_replicate]

/-- Only entries of the bitmap are complete. -/
theorem lt_of_isComplete {s : ResumeState} {id : ℕ} (h : s.isComplete id = true) :
    id < s.completedBlocks.length := by
  by_contra hge
  simp [isComplete, List.getElem?_eq_none (Nat.le_of_not_lt hge)] at h

/-- Marking changes neither the parameters nor the lengths. -/
theorem markComplete_frame {s s' : ResumeState} {id : ℕ} {hash : Hash}
    (h : s.markComplete id hash = .ok s') :
    s'.fileSize = s.fileSize ∧ s'.blockSize = s.blockSize ∧ s'.totalBlocks = s.totalBlocks ∧
      s'.completedBlocks.length = s.completedBlocks.length ∧
      s'.blockHashes.length = s.blockHashes.length := by
  unfold markComplete at h
  split at h
  · split at h
    · obtain rfl := Except.ok.inj h
      simp
    · cases h
  · obtain rfl := Except.ok.inj h
    simp

theorem WellFormed.mark {s s' : ResumeState} (hs : s.WellFormed) {id : ℕ} {hash : Hash}
    (h : s.markComplete id hash = .ok s') : s'.WellFormed := by
  obtain ⟨-, -, ht, hb, hh⟩ := markComplete_frame h
  exact ⟨ht ▸ hs.total_lt, by rw [hb, ht, hs.bitmap_length], by rw [hh, ht, hs.hashes_length]⟩

/-- Which blocks are complete after marking one that lies in the bitmap. -/
theorem isComplete_markComplete {s s' : ResumeState} {id : ℕ} {hash : Hash}
    (h : s.markComplete id hash = .ok s') (hid : id < s.completedBlocks.length) (j : ℕ) :
    s'.isComplete j = (decide (j = id) || s.isComplete j) := by
  unfold markComplete at h
  rw [if_pos hid] at h
  split at h
  · obtain rfl := Except.ok.inj h
    simp only [isComplete, List.getElem?_set]
    by_cases hj : id = j
    · subst hj
      simp [hid]
    · simp [hj, Ne.symm hj]
  · cases h

/-- Which blocks are complete after marking any block. -/
theorem isComplete_markComplete_iff {s s' : ResumeState} {id : ℕ} {hash : Hash}
    (h : s.markComplete id hash = .ok s') (j : ℕ) :
    s'.isComplete j = (decide (j = id ∧ j < s.completedBlocks.length) || s.isComplete j) := by
  by_cases hid : id < s.completedBlocks.length
  · rw [isComplete_markComplete h hid]
    by_cases hj : j = id
    · subst hj
      simp [hid]
    · simp [hj]
  · rw [markComplete, if_neg hid] at h
    obtain rfl := Except.ok.inj h
    have hnot : ¬ (j = id ∧ j < s.completedBlocks.length) := by
      rintro ⟨rfl, hj⟩
      exact hid hj
    rw [decide_eq_false hnot, Bool.false_or]

/-- Which hashes are stored after marking a block that lies in the bitmap. -/
theorem blockHashes_markComplete {s s' : ResumeState} {id : ℕ} {hash : Hash}
    (h : s.markComplete id hash = .ok s') (hid : id < s.completedBlocks.length) (j : ℕ) :
    s'.blockHashes[j]? = if j = id then some (some hash) else s.blockHashes[j]? := by
  unfold markComplete at h
  rw [if_pos hid] at h
  split at h
  · next hhash =>
      obtain rfl := Except.ok.inj h
      by_cases hj : j = id
      · subst hj
        simp [hhash]
      · simp [hj, Ne.symm hj]
  · cases h

/-- Marking faults in one way only: a bit without a place for the hash. -/
theorem eq_of_markComplete_eq_error {s : ResumeState} {id : ℕ} {hash : Hash} {fault : Fault}
    (h : s.markComplete id hash = .error fault) : fault = .indexOutOfRange := by
  unfold markComplete at h
  split at h
  · split at h
    · cases h
    · exact (Except.error.inj h).symm
  · cases h

/-- Marking a block marks no other. -/
theorem isComplete_of_markComplete {s s' : ResumeState} {id : ℕ} {hash : Hash}
    (h : s.markComplete id hash = .ok s') {j : ℕ} (hj : s'.isComplete j = true) :
    j = id ∨ s.isComplete j = true := by
  by_cases hid : id < s.completedBlocks.length
  · rw [isComplete_markComplete h hid, Bool.or_eq_true, decide_eq_true_iff] at hj
    exact hj
  · rw [markComplete, if_neg hid] at h
    obtain rfl := Except.ok.inj h
    exact Or.inr hj

theorem isComplete_markComplete_of_ne {s s' : ResumeState} {id : ℕ} {hash : Hash}
    (h : s.markComplete id hash = .ok s') {j : ℕ} (hne : j ≠ id) :
    s'.isComplete j = s.isComplete j := by
  by_cases hid : id < s.completedBlocks.length
  · rw [isComplete_markComplete h hid, decide_eq_false hne, Bool.false_or]
  · rw [markComplete, if_neg hid] at h
    rw [Except.ok.inj h]

/-- A block outside the bitmap is not recorded. -/
theorem markComplete_of_ge {s : ResumeState} {id : ℕ} (hash : Hash)
    (hid : s.completedBlocks.length ≤ id) : s.markComplete id hash = .ok s := by
  rw [markComplete, if_neg (by omega)]

theorem WellFormed.completedCount_eq {s : ResumeState} (hs : s.WellFormed) :
    s.completedCount = s.completedBlocks.count true := by
  have h1 := List.count_le_length (a := true) (l := s.completedBlocks)
  have h2 := hs.bitmap_length
  have h3 := hs.total_lt
  rw [completedCount, Nat.mod_eq_of_lt (by omega)]

theorem WellFormed.completedCount_le {s : ResumeState} (hs : s.WellFormed) :
    s.completedCount ≤ s.totalBlocks := by
  rw [hs.completedCount_eq, ← hs.bitmap_length]
  exact List.count_le_length

/-- A bit that is not set: fewer bits are set than there are. -/
theorem count_lt_length {s : ResumeState} {id : ℕ} (hid : id < s.completedBlocks.length)
    (hnew : s.isComplete id = false) : s.completedBlocks.count true < s.completedBlocks.length := by
  refine lt_of_le_of_ne List.count_le_length fun hall => ?_
  have hset := List.count_eq_length.mp hall _ (List.getElem_mem hid)
  rw [isComplete, List.getElem?_eq_getElem hid, Option.getD_some, ← hset] at hnew
  cases hnew

/-- Marking an incomplete block of the bitmap adds one to the count, if the bitmap has fewer than
2^32 entries. -/
theorem completedCount_markComplete {s s' : ResumeState} {id : ℕ} {hash : Hash}
    (h : s.markComplete id hash = .ok s') (hid : id < s.completedBlocks.length)
    (hsmall : s.completedBlocks.length < 2 ^ 32) (hnew : s.isComplete id = false) :
    s'.completedCount = s.completedCount + 1 ∧
      s.completedCount + 1 ≤ s.completedBlocks.length := by
  have hlt := count_lt_length hid hnew
  have hval : s.completedBlocks[id] = false := by
    simpa [isComplete, List.getElem?_eq_getElem hid] using hnew
  have hbits : s'.completedBlocks = s.completedBlocks.set id true := by
    rw [markComplete, if_pos hid] at h
    split at h
    · rw [← Except.ok.inj h]
    · cases h
  have hcount : (s.completedBlocks.set id true).count true
      = s.completedBlocks.count true + 1 := by
    have := List.count_set (a := true) (b := true) hid
    simp [hval] at this
    simpa using this
  rw [completedCount, completedCount, hbits, hcount, Nat.mod_eq_of_lt (by omega),
    Nat.mod_eq_of_lt (by omega)]
  exact ⟨rfl, hlt⟩

theorem WellFormed.completedCount_markComplete {s s' : ResumeState} (hs : s.WellFormed) {id : ℕ}
    {hash : Hash} (h : s.markComplete id hash = .ok s') (hid : id < s.totalBlocks)
    (hnew : s.isComplete id = false) : s'.completedCount = s.completedCount + 1 := by
  have hlen := hs.bitmap_length
  have htotal := hs.total_lt
  exact (ResumeState.completedCount_markComplete h (by omega) (by omega) hnew).1

/-- An incomplete block is not counted. -/
theorem WellFormed.completedCount_lt {s : ResumeState} (hs : s.WellFormed) {id : ℕ}
    (hid : id < s.totalBlocks) (hnew : s.isComplete id = false) :
    s.completedCount < s.totalBlocks := by
  rw [hs.completedCount_eq, ← hs.bitmap_length]
  exact count_lt_length (hs.bitmap_length ▸ hid) hnew

/-- **The transfer counts as complete exactly when every block is marked.** -/
theorem WellFormed.isTransferComplete_iff {s : ResumeState} (hs : s.WellFormed) :
    s.isTransferComplete = true ↔ ∀ id < s.totalBlocks, s.isComplete id = true := by
  rw [isTransferComplete, decide_eq_true_iff, hs.completedCount_eq, ← hs.bitmap_length]
  have hle := List.count_le_length (a := true) (l := s.completedBlocks)
  constructor
  · intro h id hid
    have hall := List.count_eq_length.mp (le_antisymm hle h)
    rw [isComplete, List.getElem?_eq_getElem hid]
    exact (hall _ (List.getElem_mem hid)).symm
  · intro h
    refine le_of_eq (List.count_eq_length.mpr ?_).symm
    intro b hb
    obtain ⟨id, hid, rfl⟩ := List.getElem_of_mem hb
    have := h id hid
    rw [isComplete, List.getElem?_eq_getElem hid] at this
    exact this.symm

/-! ## The blocks that are marked and those that are not -/

/-- The bitmap is the table of `isComplete`. -/
theorem WellFormed.bitmap_eq {s : ResumeState} (hs : s.WellFormed) :
    s.completedBlocks = (List.range s.totalBlocks).map s.isComplete := by
  refine List.ext_getElem (by simp [hs.bitmap_length]) fun id h₁ h₂ => ?_
  simp [isComplete, List.getElem?_eq_getElem h₁]

/-- The marked blocks. -/
def completeIds (s : ResumeState) : List ℕ := (List.range s.totalBlocks).filter s.isComplete

theorem WellFormed.length_completeIds {s : ResumeState} (hs : s.WellFormed) :
    s.completeIds.length = s.completedCount := by
  rw [hs.completedCount_eq, hs.bitmap_eq, completeIds, List.count_eq_countP, List.countP_map,
    List.countP_eq_length_filter]
  congr 2
  funext id
  simp

/-- The block is not marked, and marking it does not fault: it has no place in the bitmap, or one for
its hash as well. -/
structure Recordable (s : ResumeState) (id : ℕ) : Prop where
  unmarked : s.isComplete id = false
  hash : id < s.completedBlocks.length → id < s.blockHashes.length

instance (s : ResumeState) (id : ℕ) : Decidable (s.Recordable id) :=
  decidable_of_iff (s.isComplete id = false ∧
    (id < s.completedBlocks.length → id < s.blockHashes.length))
    ⟨fun h => ⟨h.1, h.2⟩, fun h => ⟨h.unmarked, h.hash⟩⟩

/-- The blocks of a transfer that can be marked. -/
def recordableIds (s : ResumeState) (totalBlocks : ℕ) : List ℕ :=
  (List.range totalBlocks).filter fun id => s.Recordable id

theorem mem_recordableIds {s : ResumeState} {totalBlocks id : ℕ} :
    id ∈ s.recordableIds totalBlocks ↔ id < totalBlocks ∧ s.Recordable id := by
  simp [recordableIds]

theorem nodup_recordableIds (s : ResumeState) (totalBlocks : ℕ) :
    (s.recordableIds totalBlocks).Nodup := List.nodup_range.filter _

/-- A bit that could be set has a place for its hash. -/
theorem lt_hashes_of_markComplete {s s' : ResumeState} {id : ℕ} {hash : Hash}
    (h : s.markComplete id hash = .ok s') (hid : id < s.completedBlocks.length) :
    id < s.blockHashes.length := by
  unfold markComplete at h
  rw [if_pos hid] at h
  split at h
  · assumption
  · cases h

theorem WellFormed.incompleteBlocks_eq {s : ResumeState} (hs : s.WellFormed) :
    s.incompleteBlocks = (List.range s.totalBlocks).filter fun id => !s.isComplete id := by
  have hzip : s.completedBlocks.zipIdx
      = (List.range s.totalBlocks).map fun id => (s.isComplete id, id) := by
    refine List.ext_getElem (by simp [hs.bitmap_length]) fun id h₁ h₂ => ?_
    simp [hs.bitmap_eq]
  rw [incompleteBlocks, hzip, List.filter_map, List.map_map]
  simp [Function.comp_def]

theorem WellFormed.mem_incompleteBlocks {s : ResumeState} (hs : s.WellFormed) {id : ℕ} :
    id ∈ s.incompleteBlocks ↔ id < s.totalBlocks ∧ s.isComplete id = false := by
  simp [hs.incompleteBlocks_eq]

theorem WellFormed.nodup_incompleteBlocks {s : ResumeState} (hs : s.WellFormed) :
    s.incompleteBlocks.Nodup := by
  rw [hs.incompleteBlocks_eq]
  exact List.nodup_range.filter _

/-- Every block is marked or still to be sent. -/
theorem WellFormed.length_incompleteBlocks {s : ResumeState} (hs : s.WellFormed) :
    s.completedCount + s.incompleteBlocks.length = s.totalBlocks := by
  have hsplit := List.length_eq_length_filter_add (l := List.range s.totalBlocks) s.isComplete
  rw [List.length_range] at hsplit
  rw [← hs.length_completeIds, hs.incompleteBlocks_eq, completeIds]
  exact hsplit.symm

theorem WellFormed.recordableIds_eq {s : ResumeState} (hs : s.WellFormed) :
    s.recordableIds s.totalBlocks = s.incompleteBlocks := by
  rw [hs.incompleteBlocks_eq, recordableIds]
  refine List.filter_congr fun id hid => ?_
  have hhash : id < s.blockHashes.length := hs.hashes_length ▸ List.mem_range.mp hid
  cases hmarked : s.isComplete id with
  | true => exact decide_eq_false fun h => by simpa [hmarked] using h.unmarked
  | false => exact decide_eq_true ⟨hmarked, fun _ => hhash⟩

/-! ## Loading -/

/-- A state that `load` returns is for this transfer, and is the one on disk. -/
theorem load_eq_some {file : Option ResumeFile} {fileSize blockSize totalBlocks : ℕ}
    {s : ResumeState} (h : (load file fileSize blockSize totalBlocks).1 = some s) :
    file = some (.saved s) ∧ s.fileSize = fileSize ∧ s.blockSize = blockSize ∧
      s.totalBlocks = totalBlocks := by
  unfold load at h
  split at h
  · cases h
  · cases h
  · split at h
    · cases h
    · next hmatch =>
        obtain rfl := Option.some.inj h
        push Not at hmatch
        exact ⟨rfl, hmatch⟩

/-- The resume file that `load` leaves is the state it returns. -/
theorem load_snd_saved {file : Option ResumeFile} {fileSize blockSize totalBlocks : ℕ}
    {s : ResumeState} (h : (load file fileSize blockSize totalBlocks).2 = some (.saved s)) :
    (load file fileSize blockSize totalBlocks).1 = some s := by
  unfold load at h ⊢
  split at h
  · cases h
  · cases h
  · split at h
    · cases h
    · next hmatch =>
        rw [if_neg hmatch]
        exact congrArg some (ResumeFile.saved.inj (Option.some.inj h))

end ResumeState

end Updown
