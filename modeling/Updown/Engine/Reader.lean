import Updown.Basic.PlainCrates
import Updown.Engine.Send

set_option autoImplicit false

/-! # The reader and its buffers

The reader task of `send_file_inner` (`engine/send.rs`) with the buffers that it reads into and uses
again for every group. `readGroup` and `readLoop` do without them: a block is copied out of its
buffer right after it was read into it, so what earlier groups left there is never seen
(`fillLoop_eq`). The result about whole files is `coversOnce_iff`: the loop covers them, once its
buffers have been allocated.
-/

namespace Updown.SendEngine

/-- The length of block `bid`: `remaining.min(block_size)`. -/
def blockLen (e : SendEngine) (S : Bytes) (bid : ℕ) : Except CallFailure ℕ :=
  match checkedMul bid e.blockSize with
  | .error fault => .error (.panic fault)
  | .ok offset =>
      match checkedSub .fileSizeUnderflow S.length offset with
      | .error fault => .error (.panic fault)
      | .ok remaining => .ok (min remaining e.blockSize)

/-- `file.read_exact(&mut block_bufs[i][..n])` at the file cursor: the buffers afterwards. -/
def readExact (S : Bytes) (cursor : ℕ) (blockBufs : List Bytes) (i n : ℕ) :
    Except CallFailure (List Bytes) :=
  match blockBufs[i]? with
  | none => .error (.panic .indexOutOfRange)
  | some buf =>
      if buf.length < n then .error (.panic .sliceOutOfRange)
      else if S.length < cursor + n then .error (.error "early eof")
      else .ok (blockBufs.set i (Blocks.slice S cursor n ++ buf.drop n))

/-- The blocks `i, i + 1, …` of a group that begins with block `bid`, `n` of them: the pairs for the
channel, the cursor and the buffers. -/
def fillGroup (C : Crates) (e : SendEngine) (S : Bytes) (skip : List ℕ) (bid : ℕ) :
    ℕ → ℕ → ℕ → List Bytes → Except CallFailure (List (ℕ × Bytes) × ℕ × List Bytes)
  | 0, _, cursor, blockBufs => .ok ([], cursor, blockBufs)
  | n + 1, i, cursor, blockBufs => do
      let thisBlockSize ← e.blockLen S (bid + i)
      let blockBufs ← readExact S cursor blockBufs i thisBlockSize
      if bid + i ∈ skip then fillGroup C e S skip bid n (i + 1) (cursor + thisBlockSize) blockBufs
      else do
        let data ← e.blockData C ((blockBufs.getD i []).take thisBlockSize)
        let (group, cursor, blockBufs) ←
          fillGroup C e S skip bid n (i + 1) (cursor + thisBlockSize) blockBufs
        pure ((bid + i, data) :: group, cursor, blockBufs)

/-- The loop over groups, `fuel` times at most, with the buffers. -/
def fillLoop (C : Crates) (e : SendEngine) (S : Bytes) (skip : List ℕ) (totalBlocks : ℕ) :
    ℕ → ℕ → ℕ → List Bytes → List (List (ℕ × Bytes)) × Except CallFailure Unit
  | 0, bid, _, _ => ([], if bid < totalBlocks then .error .hang else .ok ())
  | fuel + 1, bid, cursor, blockBufs =>
      if bid < totalBlocks then
        let depth := e.interleaveDepth % 2 ^ 32
        if 2 ^ 32 ≤ bid + depth then ([], .error (.panic .overflow))
        else
          let groupEnd := min (bid + depth) totalBlocks
          match fillGroup C e S skip bid (groupEnd - bid) 0 cursor blockBufs with
          | .error f => ([], .error f)
          | .ok (group, cursor, blockBufs) =>
              let rest := fillLoop C e S skip totalBlocks fuel groupEnd cursor blockBufs
              (if group.isEmpty then rest.1 else group :: rest.1, rest.2)
      else ([], .ok ())

/-- The buffers of a new reader task. -/
def newBufs (e : SendEngine) : List Bytes :=
  List.replicate e.interleaveDepth (List.replicate e.blockSize 0)

/-- The reader task with its buffers, `fuel` rounds of the loop at most. A vector of more than
`isize::MAX` bytes is a panic. -/
def fillReader (C : Crates) (e : SendEngine) (S : Bytes) (skip : List ℕ) (totalBlocks fuel : ℕ) :
    List (List (ℕ × Bytes)) × Except CallFailure Unit :=
  if ISIZE_MAX < e.blockSize ∨ ISIZE_MAX < e.interleaveDepth * VEC_SIZE then
    ([], .error (.panic .capacityOverflow))
  else fillLoop C e S skip totalBlocks fuel 0 0 e.newBufs

/-- There is a buffer for each block of a group, and each holds a block. -/
structure Fits (e : SendEngine) (blockBufs : List Bytes) : Prop where
  length_eq : blockBufs.length = e.interleaveDepth
  block : ∀ buf ∈ blockBufs, buf.length = e.blockSize

theorem fits_newBufs (e : SendEngine) : e.Fits e.newBufs := by
  constructor
  · exact List.length_replicate
  · intro buf hbuf
    rw [(List.mem_replicate.mp hbuf).2, List.length_replicate]

/-! ## The buffers change nothing -/

variable {C : Crates} {e : SendEngine} {S : Bytes} {skip : List ℕ}

theorem blockLen_le {bid n : ℕ} (h : e.blockLen S bid = .ok n) : n ≤ e.blockSize := by
  unfold blockLen at h
  split at h
  · cases h
  · split at h
    · cases h
    · rw [← Except.ok.inj h]
      exact min_le_right _ _

/-- `readBlock` is the length of the block and a read of that length. -/
theorem readBlock_eq_bind (e : SendEngine) (S : Bytes) (cursor bid : ℕ) :
    e.readBlock S cursor bid = (e.blockLen S bid).bind fun n =>
      if S.length < cursor + n then .error (.error "early eof")
      else .ok (Blocks.slice S cursor n) := by
  unfold readBlock blockLen
  cases checkedMul bid e.blockSize with
  | error fault => rfl
  | ok offset =>
      dsimp only
      cases checkedSub .fileSizeUnderflow S.length offset with
      | error fault => rfl
      | ok remaining => rfl

/-- A read that goes through leaves the block at the front of its buffer. -/
theorem readExact_ok {cursor i n : ℕ} {blockBufs : List Bytes} (h : e.Fits blockBufs)
    (hi : i < blockBufs.length) (hn : n ≤ e.blockSize) (hend : cursor + n ≤ S.length) :
    ∃ blockBufs', readExact S cursor blockBufs i n = .ok blockBufs' ∧ e.Fits blockBufs' ∧
      (blockBufs'.getD i []).take n = Blocks.slice S cursor n := by
  have hget : blockBufs[i]? = some blockBufs[i] := List.getElem?_eq_getElem hi
  have hlen : (blockBufs[i]).length = e.blockSize := h.block _ (List.getElem_mem hi)
  have hslice := Blocks.length_slice hend
  rw [readExact, hget]
  dsimp only
  rw [if_neg (by omega), if_neg (by omega)]
  refine ⟨_, rfl, ⟨?_, ?_⟩, ?_⟩
  · rw [List.length_set, h.length_eq]
  · intro buf hbuf
    rcases List.mem_or_eq_of_mem_set hbuf with hbuf | rfl
    · exact h.block buf hbuf
    · rw [List.length_append, hslice, List.length_drop, hlen]
      omega
  · rw [List.getD_eq_getElem?_getD, List.getElem?_set_self hi, Option.getD_some,
      List.take_left' hslice]

theorem readExact_eof {cursor i n : ℕ} {blockBufs : List Bytes} (h : e.Fits blockBufs)
    (hi : i < blockBufs.length) (hn : n ≤ e.blockSize) (hend : S.length < cursor + n) :
    readExact S cursor blockBufs i n = .error (.error "early eof") := by
  have hlen : (blockBufs[i]).length = e.blockSize := h.block _ (List.getElem_mem hi)
  rw [readExact, List.getElem?_eq_getElem hi]
  dsimp only
  rw [if_neg (by omega), if_pos hend]

/-- What the group loop gives, without the buffers. -/
def withoutBufs :
    List (ℕ × Bytes) × ℕ × List Bytes → List (ℕ × Bytes) × ℕ :=
  fun read => (read.1, read.2.1)

/-- **A group is read as without buffers**, and the buffers can be used again. -/
theorem fillGroup_eq (C : Crates) (S : Bytes) (skip : List ℕ) (bid n : ℕ) :
    ∀ (i cursor : ℕ) {blockBufs : List Bytes}, e.Fits blockBufs → i + n ≤ e.interleaveDepth →
      (fillGroup C e S skip bid n i cursor blockBufs).map withoutBufs
        = readGroup C e S skip (List.range' (bid + i) n) cursor ∧
      ∀ read, fillGroup C e S skip bid n i cursor blockBufs = .ok read → e.Fits read.2.2 := by
  induction n with
  | zero =>
      intro i cursor blockBufs h _
      refine ⟨rfl, fun read hread => ?_⟩
      rw [← Except.ok.inj hread]
      exact h
  | succ n ih =>
      intro i cursor blockBufs h hi
      have hi' : i < blockBufs.length := by
        rw [h.length_eq]
        omega
      rw [List.range'_succ]
      simp only [fillGroup, readGroup, readBlock_eq_bind, bind, Except.bind]
      cases hlen : e.blockLen S (bid + i) with
      | error f => simp [Except.map]
      | ok len =>
          -- the file may have shrunk: `read_exact` meets its end, as the slice would
          by_cases hend : S.length < cursor + len
          · simp [readExact_eof h hi' (blockLen_le hlen) hend, hend, Except.map]
          · obtain ⟨blockBufs', hread, hfits, htake⟩ :=
              readExact_ok h hi' (blockLen_le hlen) (show cursor + len ≤ S.length by omega)
            obtain ⟨heq, hrest⟩ := ih (i + 1) (cursor + len) hfits
              (show i + 1 + n ≤ e.interleaveDepth by omega)
            rw [← Nat.add_assoc] at heq
            simp only [hread, if_neg hend, htake, Blocks.length_slice (Nat.not_lt.mp hend)]
            -- a skipped block is read as well, the cursor moves on in both
            by_cases hskip : bid + i ∈ skip
            · simp only [if_pos hskip]
              exact ⟨heq, hrest⟩
            · simp only [if_neg hskip]
              cases hdata : e.blockData C (Blocks.slice S cursor len) with
              | error f => simp [Except.map]
              | ok data =>
                  simp only [← heq]
                  cases hfill : fillGroup C e S skip bid n (i + 1) (cursor + len) blockBufs' with
                  | error f => simp [Except.map]
                  | ok read =>
                      refine ⟨rfl, fun out hout => ?_⟩
                      rw [← Except.ok.inj hout]
                      exact hrest read hfill

/-- **The loop reads as without buffers.** -/
theorem fillLoop_eq {T : ℕ} (fuel : ℕ) :
    ∀ {bid cursor : ℕ} {blockBufs : List Bytes}, e.Fits blockBufs →
      fillLoop C e S skip T fuel bid cursor blockBufs = readLoop C e S skip T fuel bid cursor := by
  induction fuel with
  | zero =>
      intro bid cursor blockBufs _
      rfl
  | succ fuel ih =>
      intro bid cursor blockBufs h
      rw [fillLoop, readLoop]
      dsimp only
      have hmod := Nat.mod_le e.interleaveDepth (2 ^ 32)
      obtain ⟨heq, hfits⟩ := fillGroup_eq C S skip bid
        (min (bid + e.interleaveDepth % 2 ^ 32) T - bid) 0 cursor h (by omega)
      rw [Nat.add_zero] at heq
      rw [← heq]
      split
      · split
        · rfl
        · cases hfill : fillGroup C e S skip bid (min (bid + e.interleaveDepth % 2 ^ 32) T - bid) 0
              cursor blockBufs with
          | error f => rfl
          | ok read =>
              simp only [Except.map, withoutBufs]
              rw [ih (hfits read hfill)]
      · rfl

/-- The reader of `send_file_inner` is the one with buffers. -/
theorem reader_eq_fillReader (T : ℕ) : reader C e S skip T = fillReader C e S skip T T := by
  rw [reader, fillReader, fillLoop_eq T (fits_newBufs e)]

/-! ## What the reader puts on the channel -/

theorem BlocksRead.length_le {ids : List ℕ} {pairs : List (ℕ × Bytes)}
    (h : BlocksRead C e S skip ids pairs) : pairs.length ≤ ids.length := by
  rw [← h.length_eq]
  exact List.length_filter_le _ _

/-- Without compression the pairs are the blocks that are not skipped, each with its bytes. -/
theorem BlocksRead.eq_map (h : e.compress = false) {ids : List ℕ} {pairs : List (ℕ × Bytes)}
    (hread : BlocksRead C e S skip ids pairs) :
    pairs = (ids.filter fun id => id ∉ skip).map fun id =>
      (id, Blocks.block e.blockSize S id) := by
  unfold BlocksRead at hread
  generalize (ids.filter fun id => id ∉ skip) = sent at hread
  induction hread with
  | nil => rfl
  | cons hpair _ ih =>
      obtain ⟨hid, hdata⟩ := hpair
      rw [blockData, h] at hdata
      rw [List.map_cons, ← ih, Except.ok.inj hdata, ← hid]

/-- **No group is empty or longer than the interleave depth.** -/
theorem length_readLoop (hb : 0 < e.blockSize) (hS : S.length < 2 ^ 63) {T : ℕ}
    (hT : T ≤ Blocks.count S.length e.blockSize) (fuel : ℕ) :
    ∀ {bid cursor : ℕ}, CursorAt e S bid cursor →
      ∀ group ∈ (readLoop C e S skip T fuel bid cursor).1,
        group ≠ [] ∧ group.length ≤ e.interleaveDepth := by
  induction fuel with
  | zero =>
      intro bid cursor _ group hgroup
      cases hgroup
  | succ fuel ih =>
      intro bid cursor hcursor group hgroup
      rw [readLoop] at hgroup
      dsimp only at hgroup
      split at hgroup
      · next hbid =>
          split at hgroup
          · cases hgroup
          · split at hgroup
            · cases hgroup
            · next first cursor' hfirst =>
                obtain ⟨hread, hnext⟩ := readRound_ok hb hS hT hbid hcursor hfirst
                have hlen := hread.length_le
                rw [List.length_range'] at hlen
                have hmod := Nat.mod_le e.interleaveDepth (2 ^ 32)
                have hrest := ih hnext
                -- a group whose blocks are all skipped is not sent
                by_cases hempty : first.isEmpty = true
                · rw [if_pos hempty] at hgroup
                  exact hrest group hgroup
                · rw [if_neg hempty] at hgroup
                  rcases List.mem_cons.mp hgroup with rfl | hgroup
                  · constructor
                    · simpa using hempty
                    · omega
                  · exact hrest group hgroup
      · cases hgroup

/-- Rounds after the last block do nothing. -/
theorem readLoop_succ (hdepth : 0 < e.interleaveDepth % 2 ^ 32) {T : ℕ} (fuel : ℕ) :
    ∀ {bid cursor : ℕ}, T ≤ bid + fuel →
      readLoop C e S skip T (fuel + 1) bid cursor = readLoop C e S skip T fuel bid cursor := by
  induction fuel with
  | zero =>
      intro bid cursor h
      rw [readLoop, readLoop, if_neg (by omega), if_neg (by omega)]
  | succ fuel ih =>
      intro bid cursor h
      rw [readLoop]
      conv_rhs => rw [readLoop]
      dsimp only
      split
      · split
        · rfl
        · split
          · rfl
          · rw [ih (by omega)]
      · rfl

theorem readLoop_of_le (hdepth : 0 < e.interleaveDepth % 2 ^ 32) {T fuel : ℕ} (h : T ≤ fuel) :
    readLoop C e S skip T fuel 0 0 = readLoop C e S skip T T 0 0 := by
  induction fuel, h using Nat.le_induction with
  | base => rfl
  | succ fuel h ih => rw [readLoop_succ hdepth fuel (by omega), ih]

/-- The bytes of block `id`, by their offsets. -/
theorem block_eq_slice (hb : 0 < e.blockSize) {id : ℕ}
    (hid : id < Blocks.count S.length e.blockSize) :
    Blocks.block e.blockSize S id = Blocks.slice S (id * e.blockSize)
      (min ((id + 1) * e.blockSize) S.length - id * e.blockSize) := by
  have hlt := (Blocks.lt_count_iff hb id).mp hid
  have hlen : min ((id + 1) * e.blockSize) S.length - id * e.blockSize
      = min e.blockSize (S.drop (id * e.blockSize)).length := by
    rw [Nat.succ_mul, List.length_drop]
    omega
  rw [Blocks.block, Blocks.slice, hlen, ← List.take_eq_take_min]

/-- The reader covers the file once: however many rounds it is given from one per block on, it ends
without an error, and its groups, none of them empty or longer than the interleave depth, are
together the blocks that are not skipped, in order, each with its bytes of the file. -/
def CoversOnce (C : Crates) (e : SendEngine) (file : SourceFile) (skip : List ℕ) : Prop :=
  ∃ groups,
    (∀ fuel, Blocks.count file.bytes.length e.blockSize ≤ fuel →
      fillReader C e file.bytes skip (Blocks.count file.bytes.length e.blockSize) fuel
        = (groups, .ok ())) ∧
    (∀ group ∈ groups, group ≠ [] ∧ group.length ≤ e.interleaveDepth) ∧
    groups.flatten = ((List.range (Blocks.count file.bytes.length e.blockSize)).filter
      fun id => id ∉ skip).map fun id => (id, Blocks.slice file.bytes (id * e.blockSize)
        (min ((id + 1) * e.blockSize) file.bytes.length - id * e.blockSize))

/-- Once the buffers are there, the loop covers the file. -/
theorem coversOnce_of_allocated (C : Crates) (e : SendEngine) (file : SourceFile) (skip : List ℕ)
    (hb : 0 < e.blockSize) (hdepth : 0 < e.interleaveDepth) (hcompress : e.compress = false)
    (hroom : Blocks.count file.bytes.length e.blockSize + e.interleaveDepth < 2 ^ 32)
    (hsize : e.blockSize ≤ ISIZE_MAX) : CoversOnce C e file skip := by
  unfold CoversOnce
  set T := Blocks.count file.bytes.length e.blockSize with hT
  have hS := file.length_lt
  have hmod : 0 < e.interleaveDepth % 2 ^ 32 := by
    rw [Nat.mod_eq_of_lt (by omega)]
    exact hdepth
  have hmax : ISIZE_MAX = 2 ^ 63 - 1 := rfl
  have hvec : VEC_SIZE = 24 := rfl
  have hstart := cursorAt_start e file.bytes
  have hok : (readLoop C e file.bytes skip T T 0 0).2 = .ok () :=
    readLoop_isOk hb hS skip (sendsRaw_of_off hcompress) (le_of_eq hT) hdepth hroom hstart (by omega)
  refine ⟨(readLoop C e file.bytes skip T T 0 0).1, ?_, ?_, ?_⟩
  · intro fuel hfuel
    rw [fillReader, hvec, if_neg (by omega), fillLoop_eq fuel (fits_newBufs e),
      readLoop_of_le hmod hfuel, ← hok]
  · exact length_readLoop hb hS (le_of_eq hT) T hstart
  · obtain ⟨upto, -, -, hread, hall⟩ := readLoop_ok (C := C) hb hS skip (le_of_eq hT) T hstart
      (Nat.zero_le T)
    obtain rfl := hall hok
    rw [hread.eq_map hcompress, Nat.sub_zero, ← List.range_eq_range']
    apply List.map_congr_left
    intro id hid
    rw [block_eq_slice hb (List.mem_range.mp (List.mem_filter.mp hid).1)]

/-- **The reader covers the file once exactly if a block can be allocated.** -/
theorem coversOnce_iff (C : Crates) (e : SendEngine) (file : SourceFile) (skip : List ℕ)
    (hb : 0 < e.blockSize) (hdepth : 0 < e.interleaveDepth) (hcompress : e.compress = false)
    (hroom : Blocks.count file.bytes.length e.blockSize + e.interleaveDepth < 2 ^ 32) :
    CoversOnce C e file skip ↔ e.blockSize ≤ ISIZE_MAX := by
  constructor
  · rintro ⟨groups, hends, -⟩
    by_contra hlarge
    have hend := hends _ le_rfl
    rw [fillReader, if_pos (Or.inl (not_le.mp hlarge))] at hend
    cases hend
  · exact coversOnce_of_allocated C e file skip hb hdepth hcompress hroom

/-- Three blocks of which the receiver has the second. -/
theorem coversOnce_iff_small :
    CoversOnce PlainCrates.plainCrates
      { SendEngine.new 0 with blockSize := 2, interleaveDepth := 2 } ⟨[1, 2, 3, 4, 5], by decide⟩
      [1] :=
  (coversOnce_iff _ _ _ _ (by decide) (by decide) rfl (by decide)).mpr (by decide)

/-- An engine with blocks of 2^63 bytes. -/
def largeBlocks : SendEngine := (SendEngine.new 0).withBlockSize (2 ^ 63)

/-- Its reader panics before its loop, however short the file is. -/
theorem largeBlocks_not_coversOnce :
    0 < largeBlocks.blockSize ∧ 0 < largeBlocks.interleaveDepth ∧ largeBlocks.compress = false ∧
    Blocks.count 1 largeBlocks.blockSize + largeBlocks.interleaveDepth < 2 ^ 32 ∧
    ¬ CoversOnce PlainCrates.plainCrates largeBlocks ⟨[1], by decide⟩ [] := by
  refine ⟨by decide, by decide, rfl, by decide, ?_⟩
  rintro ⟨groups, hends, -⟩
  have hend := hends _ le_rfl
  rw [fillReader, if_pos (Or.inl (by decide))] at hend
  cases hend

end Updown.SendEngine
