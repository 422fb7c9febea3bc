import Updown.Send

set_option autoImplicit false

/-! # Delta sync, end to end

The receiver hashes the blocks of what it has, the sender plans which blocks to skip, its reader
emits the others, and the receiver writes what it is given into the file it has. The reader counts
its groups in `u32`: it emits the blocks below `SendEngine.reach`, and `reconstructs_iff` says that
the source is reconstructed exactly when every block that differs lies there and is sent as it is.
-/

namespace Updown

/-! ## The groups the reader gets to -/

namespace SendEngine

/-- The blocks of the groups whose end fits `u32`. -/
def reach (e : SendEngine) : ℕ :=
  let depth := e.interleaveDepth % 2 ^ 32
  if ISIZE_MAX < e.interleaveDepth * VEC_SIZE then 0 else depth * ((2 ^ 32 - 1) / depth)

/-- A group that starts at a multiple of the depth ends in `u32` or starts beyond the reach. -/
theorem group_fits_iff {d bid : ℕ} (hd : 0 < d) (hdvd : d ∣ bid) :
    bid + d < 2 ^ 32 ↔ bid + d ≤ d * ((2 ^ 32 - 1) / d) := by
  obtain ⟨k, rfl⟩ := hdvd
  calc d * k + d < 2 ^ 32
      ↔ (k + 1) * d ≤ 2 ^ 32 - 1 := by
        rw [Nat.succ_mul, Nat.mul_comm k d]
        omega
    _ ↔ k + 1 ≤ (2 ^ 32 - 1) / d := (Nat.le_div_iff_mul_le hd).symm
    _ ↔ d * (k + 1) ≤ d * ((2 ^ 32 - 1) / d) := (Nat.mul_le_mul_left_iff hd).symm
    _ ↔ d * k + d ≤ d * ((2 ^ 32 - 1) / d) := by rw [Nat.mul_succ]

/-- A group that does not fit starts beyond the reach. -/
theorem reach_le_of_not_fits {d bid : ℕ} (hd : 0 < d) (hdvd : d ∣ bid)
    (h : ¬ bid + d < 2 ^ 32) : d * ((2 ^ 32 - 1) / d) ≤ bid := by
  rw [group_fits_iff hd hdvd, not_le] at h
  obtain ⟨k, rfl⟩ := hdvd
  have hlt : (2 ^ 32 - 1) / d < k + 1 := lt_of_mul_lt_mul_left' (Nat.mul_succ d k ▸ h)
  exact Nat.mul_le_mul_left d (Nat.le_of_lt_succ hlt)

variable {C : Crates} {e : SendEngine} {S : Bytes} {skip : List ℕ}

/-- A round that does not end the file begins the next one at a multiple of the depth. -/
theorem dvd_groupEnd {d bid T : ℕ} (h : d ∣ bid) (hnext : min (bid + d) T < T) :
    d ∣ min (bid + d) T := by
  rw [min_eq_left (by omega)]
  exact Dvd.dvd.add h (dvd_refl d)

/-- **Nothing beyond the reach is emitted.** -/
theorem lt_of_mem_readLoop (hb : 0 < e.blockSize) (hS : S.length < 2 ^ 63) {T : ℕ}
    (hT : T ≤ Blocks.count S.length e.blockSize) {fuel : ℕ} :
    ∀ {bid cursor : ℕ}, CursorAt e S bid cursor → (bid < T → e.interleaveDepth % 2 ^ 32 ∣ bid) →
      ∀ x ∈ (readLoop C e S skip T fuel bid cursor).1.flatten,
        x.1 < e.interleaveDepth % 2 ^ 32 * ((2 ^ 32 - 1) / (e.interleaveDepth % 2 ^ 32)) := by
  induction fuel with
  | zero =>
      intro bid cursor _ _ x hx
      cases hx
  | succ fuel ih =>
      intro bid cursor hcursor hdvd x hx
      by_cases hbid : bid < T
      · by_cases hfits : bid + e.interleaveDepth % 2 ^ 32 < 2 ^ 32
        · cases hgroup : readGroup C e S skip
              (List.range' bid (min (bid + e.interleaveDepth % 2 ^ 32) T - bid)) cursor with
          | error f =>
              rw [readLoop, if_pos hbid] at hx
              dsimp only at hx
              rw [if_neg (by omega), hgroup] at hx
              cases hx
          | ok res =>
              obtain ⟨group, cursor'⟩ := res
              obtain ⟨hread, hcur⟩ := readRound_ok hb hS hT hbid hcursor hgroup
              rw [flatten_readLoop_succ hbid hfits hgroup] at hx
              rcases List.mem_append.mp hx with hx | hx
              · -- a block of this group
                have hmem := List.mem_range'_1.mp (hread.of_mem hx).1
                have hend := (group_fits_iff (by omega) (hdvd hbid)).mp hfits
                omega
              · exact ih hcur (dvd_groupEnd (hdvd hbid)) x hx
        · -- the loop stops with an overflow
          rw [readLoop, if_pos hbid] at hx
          dsimp only at hx
          rw [if_pos (by omega)] at hx
          cases hx
      · rw [readLoop, if_neg hbid] at hx
        cases hx

/-- **Every block within the reach is emitted**, if there is something to send for it. -/
theorem mem_readLoop_of_lt (hb : 0 < e.blockSize) (hS : S.length < 2 ^ 63)
    (hdata : e.HasData C S skip) {T : ℕ} (hT : T ≤ Blocks.count S.length e.blockSize) {fuel : ℕ} :
    ∀ {bid cursor : ℕ}, CursorAt e S bid cursor → (bid < T → e.interleaveDepth % 2 ^ 32 ∣ bid) →
      T ≤ bid + fuel → ∀ id, bid ≤ id → id < T → id ∉ skip →
        id < e.interleaveDepth % 2 ^ 32 * ((2 ^ 32 - 1) / (e.interleaveDepth % 2 ^ 32)) →
        id ∈ (readLoop C e S skip T fuel bid cursor).1.flatten.map Prod.fst := by
  induction fuel with
  | zero =>
      intro bid cursor _ _ hfuel id hge hlt
      omega
  | succ fuel ih =>
      intro bid cursor hcursor hdvd hfuel id hge hlt hskip hreach
      have hbid : bid < T := lt_of_le_of_lt hge hlt
      -- a reach beyond `id` leaves room for the group
      have hd : 0 < e.interleaveDepth % 2 ^ 32 := by
        by_contra hzero
        rw [Nat.eq_zero_of_not_pos hzero, Nat.zero_mul] at hreach
        omega
      have hfits : bid + e.interleaveDepth % 2 ^ 32 < 2 ^ 32 := by
        by_contra hover
        have hend := reach_le_of_not_fits hd (hdvd hbid) hover
        omega
      obtain ⟨group, cursor', hgroup⟩ := readGroup_isOk hb hS hdata hcursor
        (show bid + (min (bid + e.interleaveDepth % 2 ^ 32) T - bid) ≤ _ by omega)
      obtain ⟨hread, hcur⟩ := readRound_ok hb hS hT hbid hcursor hgroup
      rw [flatten_readLoop_succ hbid hfits hgroup, List.map_append, List.mem_append]
      by_cases hin : id < min (bid + e.interleaveDepth % 2 ^ 32) T
      · left
        obtain ⟨data, hmem, -⟩ := hread.exists_of_mem (List.mem_range'_1.mpr ⟨hge, by omega⟩) hskip
        exact List.mem_map_of_mem hmem
      · right
        exact ih hcur (dvd_groupEnd (hdvd hbid)) (by omega) id (by omega) hlt hskip hreach

/-- **What the reader emits**: blocks of the file within the reach, in increasing order. -/
theorem reader_emits (skip : List ℕ) (hb : 0 < e.blockSize) (hS : S.length < 2 ^ 63) {T : ℕ}
    (hT : T ≤ Blocks.count S.length e.blockSize) :
    (∃ upto ≤ T, (reader C e S skip T).1.flatten.map Prod.fst
      = (List.range upto).filter fun id => id ∉ skip) ∧
    ∀ id ∈ (reader C e S skip T).1.flatten.map Prod.fst, id < e.reach := by
  unfold reader reach
  by_cases hsize : ISIZE_MAX < e.blockSize
  · rw [if_pos (Or.inl hsize)]
    exact ⟨⟨0, Nat.zero_le T, rfl⟩, by simp⟩
  · by_cases hdepth : ISIZE_MAX < e.interleaveDepth * VEC_SIZE
    · rw [if_pos (Or.inr hdepth)]
      exact ⟨⟨0, Nat.zero_le T, rfl⟩, by simp⟩
    · rw [if_neg (by omega)]
      dsimp only
      rw [if_neg hdepth]
      obtain ⟨upto, -, hupto, hread, -⟩ :=
        readLoop_ok (C := C) hb hS skip hT T (cursorAt_start e S) (Nat.zero_le T)
      refine ⟨⟨upto, hupto, ?_⟩, fun id hid => ?_⟩
      · rw [List.range_eq_range']
        exact hread.map_fst
      · obtain ⟨x, hx, rfl⟩ := List.mem_map.mp hid
        exact lt_of_mem_readLoop hb hS hT (cursorAt_start e S) (fun _ => dvd_zero _) x hx

/-- **Every block within the reach is emitted** that is not skipped. -/
theorem mem_reader_of_lt_reach (hb : 0 < e.blockSize) (hsize : e.blockSize ≤ ISIZE_MAX)
    (hS : S.length < 2 ^ 63) (hdata : e.HasData C S skip) {T : ℕ}
    (hT : T ≤ Blocks.count S.length e.blockSize) {id : ℕ} (hid : id < T) (hskip : id ∉ skip)
    (hreach : id < e.reach) : id ∈ (reader C e S skip T).1.flatten.map Prod.fst := by
  unfold reach at hreach
  dsimp only at hreach
  split at hreach
  · omega
  · next hdepth =>
      rw [reader, if_neg (by omega)]
      exact mem_readLoop_of_lt hb hS hdata hT (cursorAt_start e S) (fun _ => dvd_zero _)
        (by omega) id (Nat.zero_le id) hid hskip hreach

/-- **The reader emits every block that is not skipped**, once and in increasing order, when all of
them lie within the reach. -/
theorem map_fst_reader (hb : 0 < e.blockSize) (hsize : e.blockSize ≤ ISIZE_MAX)
    (hS : S.length < 2 ^ 63) (hdata : e.HasData C S skip) {T : ℕ}
    (hT : T ≤ Blocks.count S.length e.blockSize)
    (hreach : ∀ id < T, id ∉ skip → id < e.reach) :
    (reader C e S skip T).1.flatten.map Prod.fst
      = (List.range T).filter fun id => id ∉ skip := by
  obtain ⟨⟨upto, hupto, hemitted⟩, -⟩ := reader_emits (C := C) skip hb hS hT
  rw [hemitted, ← Nat.add_sub_of_le hupto, List.range_add, List.filter_append]
  refine (List.append_right_eq_self.mpr (List.filter_eq_nil_iff.mpr ?_)).symm
  -- a block from `upto` on would have been emitted
  intro id hid hnot
  obtain ⟨k, hk, rfl⟩ := List.mem_map.mp hid
  have hlt : upto + k < T := by
    have := List.mem_range.mp hk
    omega
  have hnotin : upto + k ∉ skip := by simpa using hnot
  have hmem := mem_reader_of_lt_reach hb hsize hS hdata hT hlt hnotin (hreach _ hlt hnotin)
  rw [hemitted, List.mem_filter, List.mem_range] at hmem
  omega

end SendEngine

/-! ## Writing blocks -/

namespace RecvParams

/-- What the writer does to the file with a block that is new to it. -/
def writeBlock (p : RecvParams) (file : Bytes) (block : ℕ × Bytes) : Except Fault Bytes := do
  let (offset, actualLen) ← p.writeRange block.1
  if block.2.length < actualLen then .error .sliceOutOfRange
  else pure (Blocks.patch 0 file offset (block.2.take actualLen))

/-- Write one block after the other. -/
def writeBlocks (p : RecvParams) : Bytes → List (ℕ × Bytes) → Except Fault Bytes
  | file, [] => .ok file
  | file, block :: blocks => do
      let file ← p.writeBlock file block
      p.writeBlocks file blocks

/-- The writer of `receive_file` writes a new block this way. -/
theorem writeBlock_eq_takeBlock {C : Crates} {p : RecvParams} {save : SaveOutcome}
    {s : RecvFile C.raptorq} {block : ReceivedBlock}
    (hnew : s.resume.isComplete block.blockId = false) {file : Bytes}
    (h : p.writeBlock s.file (block.blockId, block.data) = .ok file) :
    (s.takeBlock C p save block).file = file := by
  unfold writeBlock at h
  have hcases := RecvFile.takeBlock_cases (p := p) save s block
  generalize s.takeBlock C p save block = s' at hcases ⊢
  cases hcases with
  | skipped hdone =>
      rw [hdone] at hnew
      cases hnew
  | rangeFault fault _ hrange => simp [hrange, bind, Except.bind] at h
  | sliceFault offset len _ hrange hshort => simp [hrange, bind, Except.bind, hshort] at h
  | markFault offset len fault _ hrange hlen hmark =>
      simp only [hrange, bind, Except.bind, if_neg (Nat.not_lt.mpr hlen)] at h
      exact Except.ok.inj h
  | wrote offset len resume _ hrange hlen hmark =>
      simp only [hrange, bind, Except.bind, if_neg (Nat.not_lt.mpr hlen)] at h
      exact Except.ok.inj h

variable {p : RecvParams} {S : Bytes}

/-- **Writing a block of the source** makes that block the source's and leaves the others. -/
theorem For.writeBlock (h : p.For S) {file : Bytes} (hlen : file.length = S.length) {id : ℕ}
    (hid : id < p.totalBlocks) :
    ∃ out, p.writeBlock file (id, Blocks.block p.blockSize S id) = .ok out ∧
      out.length = S.length ∧ Blocks.block p.blockSize out id = Blocks.block p.blockSize S id ∧
      ∀ j < p.totalBlocks, j ≠ id →
        Blocks.block p.blockSize out j = Blocks.block p.blockSize file j := by
  have hfits := h.fits
  have hblock := h.blockLen hid
  have hoff := hfits.offset_lt hid
  have hend := hfits.end_le hid
  rw [h.fileSize_eq] at hoff hend
  refine ⟨Blocks.patch 0 file (id * p.blockSize) (Blocks.block p.blockSize S id), ?_, ?_, ?_, ?_⟩
  · simp only [RecvParams.writeBlock, hfits.writeRange hid, bind, Except.bind]
    rw [hblock, if_neg (lt_irrefl _), List.take_length]
    rfl
  · rw [Blocks.length_patch (by omega), hlen]
  · refine Blocks.block_patch_self ?_ (by omega)
    rw [Blocks.length_block, hlen]
  · intro j hj hne
    refine RecvFile.block_write_of_ne hfits ?_ hid hj hne hblock.ge
    rw [hlen, h.fileSize_eq]

/-- **Writing blocks of the source, in any order and with repeats**: each block that is written,
or was the source's already, is the source's. -/
theorem For.writeBlocks (h : p.For S) {picks : List (ℕ × Bytes)}
    (hpicks : ∀ x ∈ picks, x.1 < p.totalBlocks ∧ x.2 = Blocks.block p.blockSize S x.1) :
    ∀ {file : Bytes}, file.length = S.length →
      ∃ out, p.writeBlocks file picks = .ok out ∧ out.length = S.length ∧
        ∀ id < p.totalBlocks, (id ∈ picks.map Prod.fst ∨
          Blocks.block p.blockSize file id = Blocks.block p.blockSize S id) →
          Blocks.block p.blockSize out id = Blocks.block p.blockSize S id := by
  induction picks with
  | nil =>
      intro file hlen
      exact ⟨file, rfl, hlen, fun id _ hor => hor.resolve_left (by simp)⟩
  | cons x picks ih =>
      intro file hlen
      obtain ⟨id, data⟩ := x
      have hx := hpicks (id, data) (by simp)
      dsimp only at hx
      obtain ⟨hid, rfl⟩ := hx
      obtain ⟨mid, hmid, hmidlen, hself, hother⟩ := h.writeBlock hlen hid
      obtain ⟨out, hout, houtlen, hall⟩ := ih (fun y hy => hpicks y (by simp [hy])) hmidlen
      refine ⟨out, ?_, houtlen, fun j hj hor => hall j hj ?_⟩
      · simp only [RecvParams.writeBlocks, hmid, bind, Except.bind, hout]
      · by_cases hji : j = id
        · exact Or.inr (hji ▸ hself)
        · rw [hother j hj hji]
          simpa [hji] using hor

end RecvParams

/-! ## Reconstruction -/

section

variable {C : Crates} {e : SendEngine} {file : SourceFile} {p : RecvParams} {existing : Bytes}

/-- The blocks that are skipped when the receiver has `existing`. -/
def deltaPlan (C : Crates) (file : SourceFile) (blockSize : ℕ) (existing : Bytes) :
    Except Fault (List ℕ) := do
  let receiverHashes ← computeBlockHashes C existing blockSize
  skipBlocks C file blockSize receiverHashes

/-- Block `id` of the receiver's copy is not the source's. -/
def Differs (p : RecvParams) (file : SourceFile) (existing : Bytes) (id : ℕ) : Prop :=
  Blocks.block p.blockSize existing id ≠ Blocks.block p.blockSize file.bytes id

instance (p : RecvParams) (file : SourceFile) (existing : Bytes) (id : ℕ) :
    Decidable (Differs p file existing id) :=
  inferInstanceAs (Decidable (_ ≠ _))

/-- The reader emits the blocks that differ, once each and in increasing order; and writing any of
them, in any order and with repeats, makes the file the source's on what is written and what was
the source's already, hence the source itself once all are written. -/
def DeltaReconstructs (C : Crates) (e : SendEngine) (p : RecvParams) (file : SourceFile)
    (existing : Bytes) : Prop :=
  ∃ skip, deltaPlan C file e.blockSize existing = .ok skip ∧
    let emitted := (e.reader C file.bytes skip p.totalBlocks).1.flatten
    emitted.map Prod.fst = (List.range p.totalBlocks).filter (Differs p file existing) ∧
    ∀ picks : List (ℕ × Bytes), (∀ x ∈ picks, x ∈ emitted) →
      ∃ out, p.writeBlocks (Blocks.resize 0 p.fileSize existing) picks = .ok out ∧
        out.length = file.bytes.length ∧
        (∀ id < p.totalBlocks, id ∈ picks.map Prod.fst ∨ ¬ Differs p file existing id →
          Blocks.block p.blockSize out id = Blocks.block p.blockSize file.bytes id) ∧
        ((∀ x ∈ emitted, x ∈ picks) → out = file.bytes)

/-- No two different blocks of the files have the same hash. -/
def NoCollision (C : Crates) (b : ℕ) (file : SourceFile) (existing : Bytes) : Prop :=
  ∀ id < Blocks.count existing.length b, ∀ id' < Blocks.count file.bytes.length b,
    C.blake3 (Blocks.block b existing id) = C.blake3 (Blocks.block b file.bytes id') →
      Blocks.block b existing id = Blocks.block b file.bytes id'

/-- **The plan exists, and skips the blocks that do not differ.** -/
theorem exists_deltaPlan (hp : p.Matches e file) (hb : 1 ≤ e.blockSize)
    (hsize : e.blockSize ≤ ISIZE_MAX) (hlen : existing.length = file.bytes.length)
    (hcollision : NoCollision C e.blockSize file existing) :
    ∃ skip, deltaPlan C file e.blockSize existing = .ok skip ∧
      ∀ id < p.totalBlocks, id ∈ skip ↔ ¬ Differs p file existing id := by
  have hlt := file.length_lt
  have hcount : Blocks.count file.bytes.length e.blockSize < 2 ^ 32 :=
    hp.totalBlocks_eq ▸ p.totalBlocks_lt
  have hexisting : computeBlockHashes C existing e.blockSize = .ok _ :=
    computeBlockHashes_eq hb hsize (by omega)
  have hsource : computeBlockHashes C file.bytes e.blockSize = .ok _ :=
    computeBlockHashes_eq hb hsize hlt
  have hplan : ∃ skip, deltaPlan C file e.blockSize existing = .ok skip := by
    simp only [deltaPlan, hexisting, bind, Except.bind, skipBlocks, hsource]
    split
    · exact ⟨[], rfl⟩
    -- the subtraction of the statistics does not go below zero
    · set changed := diffBlockHashes _ _
      have hle : changed.length ≤ Blocks.count file.bytes.length e.blockSize % 2 ^ 32 :=
        (length_diffBlockHashes_le _ _).trans (by simp)
      rw [Nat.mod_eq_of_lt hcount] at hle
      rw [DeltaSyncStats.fromDiff, checkedSub_of_le]
      · exact ⟨_, rfl⟩
      · rw [List.length_map, List.length_range, Nat.mod_eq_of_lt hcount,
          Nat.mod_eq_of_lt hcount, Nat.mod_eq_of_lt (by omega)]
        exact hle
  obtain ⟨skip, hskip⟩ := hplan
  refine ⟨skip, hskip, fun id hid => ?_⟩
  rw [hp.totalBlocks_eq] at hid
  have hpos : 0 < file.bytes.length :=
    lt_of_le_of_lt (Nat.zero_le _) ((Blocks.lt_count_iff hb id).mp hid)
  simp only [deltaPlan, hexisting, bind, Except.bind] at hskip
  obtain ⟨-, hmem⟩ := mem_skipBlocks hb hsize hcount hlen hpos hexisting hskip
  rw [hmem, Differs, not_not, hp.blockSize_eq]
  constructor
  · rintro ⟨-, heq⟩
    exact hcollision id (hlen ▸ hid) id hid heq
  · intro heq
    exact ⟨hid, congrArg C.blake3 heq⟩

theorem blockSize_le_of_deltaPlan {skip : List ℕ}
    (h : deltaPlan C file e.blockSize existing = .ok skip) : e.blockSize ≤ ISIZE_MAX := by
  by_contra hlarge
  simp only [deltaPlan, computeBlockHashes] at h
  cases hcount : countBlocks existing.length e.blockSize with
  | error fault =>
      rw [hcount] at h
      cases h
  | ok total =>
      rw [hcount] at h
      dsimp only at h
      rw [if_pos (by omega)] at h
      cases h

/-- What is sent for a block is as long as the block only if it is the block. -/
theorem eq_of_blockData {raw data : Bytes} (h : e.blockData C raw = .ok data)
    (hlen : raw.length ≤ data.length) : data = raw := by
  unfold SendEngine.blockData at h
  split at h
  · split at h
    · cases h
    · obtain rfl := Except.ok.inj h
      split at hlen
      · omega
      · next hshort => rw [if_neg hshort]
  · exact (Except.ok.inj h).symm

/-- What delta sync needs: buffers that can be allocated, and every block that differs within the
reader's reach and sent as it is. -/
def DeltaCondition (C : Crates) (e : SendEngine) (p : RecvParams) (file : SourceFile)
    (existing : Bytes) : Prop :=
  e.blockSize ≤ ISIZE_MAX ∧ ∀ id < p.totalBlocks, Differs p file existing id →
    id < e.reach ∧ e.blockData C (Blocks.block e.blockSize file.bytes id)
      = .ok (Blocks.block e.blockSize file.bytes id)

/-- The ids of the emitted blocks are those of the blocks that differ. -/
theorem DeltaCondition.map_fst_reader (h : DeltaCondition C e p file existing)
    (hp : p.Matches e file) (hb : 1 ≤ e.blockSize) {skip : List ℕ}
    (hskip : ∀ id < p.totalBlocks, id ∈ skip ↔ ¬ Differs p file existing id) :
    (e.reader C file.bytes skip p.totalBlocks).1.flatten.map Prod.fst
      = (List.range p.totalBlocks).filter (Differs p file existing) := by
  have hdiffers : ∀ id < p.totalBlocks, id ∉ skip ↔ Differs p file existing id := by
    intro id hid
    rw [hskip id hid, not_not]
  have hdata : e.HasData C file.bytes skip := by
    intro id hid hnot
    rw [← hp.totalBlocks_eq] at hid
    exact ⟨_, (h.2 id hid ((hdiffers id hid).mp hnot)).2⟩
  have hreach : ∀ id < p.totalBlocks, id ∉ skip → id < e.reach :=
    fun id hid hnot => (h.2 id hid ((hdiffers id hid).mp hnot)).1
  rw [SendEngine.map_fst_reader hb h.1 file.length_lt hdata hp.totalBlocks_eq.le hreach]
  refine List.filter_congr fun id hid => ?_
  exact decide_eq_decide.mpr (hdiffers id (List.mem_range.mp hid))

/-- The emitted blocks are blocks of the source. -/
theorem DeltaCondition.eq_block (h : DeltaCondition C e p file existing) (hp : p.Matches e file)
    (hb : 1 ≤ e.blockSize) {skip : List ℕ}
    (hskip : ∀ id < p.totalBlocks, id ∈ skip ↔ ¬ Differs p file existing id) {x : ℕ × Bytes}
    (hx : x ∈ (e.reader C file.bytes skip p.totalBlocks).1.flatten) :
    x.1 < p.totalBlocks ∧ x.2 = Blocks.block p.blockSize file.bytes x.1 := by
  obtain ⟨hid, hnot, hdata⟩ := SendEngine.reader_sound hb file.length_lt hp.totalBlocks_eq.le hx
  rw [hskip x.1 hid, not_not] at hnot
  have hraw := (h.2 x.1 hid hnot).2
  rw [hp.blockSize_eq]
  exact ⟨hid, Except.ok.inj (hdata.symm.trans hraw)⟩

/-- **When delta sync reconstructs the source**: every block that differs lies within the reader's
reach and is sent as it is. -/
theorem reconstructs_iff (hp : p.Matches e file) (hb : 1 ≤ e.blockSize)
    (hlen : existing.length = file.bytes.length)
    (hcollision : NoCollision C e.blockSize file existing) :
    DeltaReconstructs C e p file existing ↔ DeltaCondition C e p file existing := by
  have hfor := hp.for hb
  have hT : p.totalBlocks ≤ Blocks.count file.bytes.length e.blockSize := hp.totalBlocks_eq.le
  constructor
  · rintro ⟨skip, hplan, hemitted, hwrite⟩
    refine ⟨blockSize_le_of_deltaPlan hplan, fun id hid hdiffers => ?_⟩
    have hmem : id ∈ (e.reader C file.bytes skip p.totalBlocks).1.flatten.map Prod.fst := by
      rw [hemitted]
      exact List.mem_filter.mpr ⟨List.mem_range.mpr hid, by simpa using hdiffers⟩
    refine ⟨(SendEngine.reader_emits skip hb file.length_lt hT).2 id hmem, ?_⟩
    obtain ⟨x, hx, rfl⟩ := List.mem_map.mp hmem
    obtain ⟨-, -, hdata⟩ := SendEngine.reader_sound hb file.length_lt hT hx
    -- the block can be written, so it has enough bytes
    obtain ⟨out, hout, -⟩ := hwrite [x] (by simpa using hx)
    have hfull : p.blockLen x.1 ≤ x.2.length := by
      by_contra hshort
      simp only [RecvParams.writeBlocks, RecvParams.writeBlock, hfor.fits.writeRange hid, bind,
        Except.bind, if_pos (Nat.lt_of_not_le hshort)] at hout
      cases hout
    rw [hfor.blockLen hid, hp.blockSize_eq] at hfull
    rw [hdata, eq_of_blockData hdata hfull]
  · intro h
    obtain ⟨skip, hplan, hskip⟩ := exists_deltaPlan hp hb h.1 hlen hcollision
    have hids := h.map_fst_reader hp hb hskip
    refine ⟨skip, hplan, hids, fun picks hpicks => ?_⟩
    obtain ⟨out, hout, houtlen, hblocks⟩ :=
      hfor.writeBlocks (fun x hx => h.eq_block hp hb hskip (hpicks x hx)) hlen
    have hkept : ∀ id < p.totalBlocks, id ∈ picks.map Prod.fst ∨ ¬ Differs p file existing id →
        Blocks.block p.blockSize out id = Blocks.block p.blockSize file.bytes id := by
      intro id hid hor
      exact hblocks id hid (hor.imp_right not_not.mp)
    rw [hp.fileSize_eq, ← hlen, Blocks.resize_length_self]
    refine ⟨out, hout, houtlen.trans hlen.symm, hkept, fun hcover => ?_⟩
    refine Blocks.ext_blocks hfor.blockSize_pos houtlen fun id hid => ?_
    rw [← hfor.totalBlocks_eq] at hid
    refine hkept id hid ?_
    by_cases hdiff : Differs p file existing id
    · have hmem : id ∈ (e.reader C file.bytes skip p.totalBlocks).1.flatten.map Prod.fst := by
        rw [hids]
        exact List.mem_filter.mpr ⟨List.mem_range.mpr hid, by simpa using hdiff⟩
      obtain ⟨x, hx, rfl⟩ := List.mem_map.mp hmem
      exact Or.inl (List.mem_map_of_mem (hcover x hx))
    · exact Or.inr hdiff

end

namespace Small

/-- A copy whose second block differs from the file's. -/
def stale : Bytes := [1, 2, 3, 4, 9]

/-- An interleave depth that is zero as a `u32`. -/
def wrapped : SendEngine := engine.withInterleave (2 ^ 32)

theorem noCollision_stale : NoCollision PlainCrates.plainCrates 4 file stale := by
  intro id hid id' hid'
  have hid : id < 2 := hid
  have hid' : id' < 2 := hid'
  interval_cases id <;> interval_cases id' <;> decide +kernel

theorem reconstructs_iff_small :
    DeltaReconstructs PlainCrates.plainCrates engine params file stale ∧
      ¬ DeltaReconstructs PlainCrates.plainCrates wrapped params file stale := by
  have hlen : stale.length = file.bytes.length := rfl
  constructor
  · apply (reconstructs_iff matches_file (by decide) hlen noCollision_stale).mpr
    refine ⟨by decide, fun id hid _ => ⟨?_, rfl⟩⟩
    have hid : id < 2 := hid
    exact lt_trans hid (by decide)
  · rw [reconstructs_iff (e := wrapped) ⟨rfl, rfl, rfl⟩ (by decide) hlen noCollision_stale]
    rintro ⟨-, hall⟩
    exact absurd (hall 1 (by decide) (by decide)).1 (by decide)

/-- **No block is emitted** although the second one differs. -/
theorem wrapped_not_reconstructs :
    ¬ DeltaReconstructs PlainCrates.plainCrates wrapped params file stale := by
  rintro ⟨skip, hplan, hemitted, -⟩
  have hskip : deltaPlan PlainCrates.plainCrates file wrapped.blockSize stale = .ok [0] := by
    decide +kernel
  obtain rfl := Except.ok.inj (hplan.symm.trans hskip)
  revert hemitted
  decide +kernel

end Small

end Updown
