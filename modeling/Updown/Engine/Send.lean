import Updown.Lib.Blocks
import Updown.Transport.Framing

set_option autoImplicit false

/-! # Sending a file

`SendEngine::send_file_inner` (`engine/send.rs`): a reader task cuts the file into groups of
blocks, leaving out the blocks to skip and compressing the others where that helps, and the
function itself sends the groups and then the "done" signal. The reader reads through one file
cursor; `readLoop_ok` shows that the groups are the blocks of the file. A socket that refuses a
packet ends the call early, after a prefix of the datagrams.
-/

namespace Updown

/-- A file that exists, and does not change while it is sent: its size is an `i64`. -/
structure SourceFile where
  bytes : Bytes
  length_lt : bytes.length < 2 ^ 63

/-- How a call ends that does not succeed. -/
inductive CallFailure where
  | error (msg : String)
  | panic (fault : Fault)
  /-- The call does not return. -/
  | hang
  deriving DecidableEq

/-- `((file_size as usize + block_size - 1) / block_size) as u32`. With a block size of zero the
division faults, unless the subtraction already has. -/
def countBlocks (fileSize blockSize : ℕ) : Except Fault ℕ :=
  if blockSize = 0 then .error .divideByZero
  else if 2 ^ 64 ≤ fileSize + blockSize then .error .overflow
  else .ok (Blocks.count fileSize blockSize % 2 ^ 32)

theorem countBlocks_of_lt {n b : ℕ} (hb : 0 < b) (hn : n + b < 2 ^ 64)
    (hcount : Blocks.count n b < 2 ^ 32) : countBlocks n b = .ok (Blocks.count n b) := by
  rw [countBlocks, if_neg (by omega), if_neg (by omega), Nat.mod_eq_of_lt hcount]

theorem countBlocks_ok {n b T : ℕ} (h : countBlocks n b = .ok T) :
    0 < b ∧ n + b < 2 ^ 64 ∧ T = Blocks.count n b % 2 ^ 32 := by
  unfold countBlocks at h
  split at h
  · cases h
  · split at h
    · cases h
    · exact ⟨by omega, by omega, (Except.ok.inj h).symm⟩

/-- The sending side of a transfer. -/
structure SendEngine where
  targetRateMbps : ℕ
  blockSize : ℕ
  repairRatio : ℚ
  interleaveDepth : ℕ
  compress : Bool

/-- Result of sending a file. -/
structure SendResult where
  fileSize : ℕ
  totalBytesSent : ℕ
  totalPacketsSent : ℕ
  fileHash : Hash
  deriving DecidableEq

namespace SendEngine

def new (targetRateMbps : ℕ) : SendEngine :=
  { targetRateMbps := targetRateMbps, blockSize := DEFAULT_BLOCK_SIZE, repairRatio := 15 / 100,
    interleaveDepth := 4, compress := false }

def withBlockSize (e : SendEngine) (blockSize : ℕ) : SendEngine := { e with blockSize := blockSize }

def withInterleave (e : SendEngine) (depth : ℕ) : SendEngine :=
  { e with interleaveDepth := max depth 1 }

def withCompression (e : SendEngine) (enabled : Bool) : SendEngine := { e with compress := enabled }

/-! ## The reader -/

/-- `read_exact` of a block at the file cursor. -/
def readBlock (e : SendEngine) (S : Bytes) (cursor bid : ℕ) : Except CallFailure Bytes :=
  match checkedMul bid e.blockSize with
  | .error fault => .error (.panic fault)
  | .ok offset =>
      match checkedSub .fileSizeUnderflow S.length offset with
      | .error fault => .error (.panic fault)
      | .ok remaining =>
          let thisBlockSize := min remaining e.blockSize
          if S.length < cursor + thisBlockSize then .error (.error "early eof")
          else .ok ((S.drop cursor).take thisBlockSize)

/-- What is sent for a block: the compressed bytes if they are fewer. -/
def blockData (C : Crates) (e : SendEngine) (raw : Bytes) : Except CallFailure Bytes :=
  if e.compress then
    match C.zstd raw with
    | none => .error (.error "zstd error")
    | some compressed => .ok (if compressed.length < raw.length then compressed else raw)
  else .ok raw

/-- The blocks of the file are sent as they are. -/
def SendsRaw (C : Crates) (e : SendEngine) (S : Bytes) : Prop :=
  ∀ id < Blocks.count S.length e.blockSize,
    e.blockData C (Blocks.block e.blockSize S id) = .ok (Blocks.block e.blockSize S id)

theorem sendsRaw_of_off {C : Crates} {e : SendEngine} {S : Bytes} (h : e.compress = false) :
    e.SendsRaw C S := by
  intro id _
  rw [blockData, h]
  rfl

/-- Read the blocks of a group; also returns the cursor after the last one. -/
def readGroup (C : Crates) (e : SendEngine) (S : Bytes) (skip : List ℕ) :
    List ℕ → ℕ → Except CallFailure (List (ℕ × Bytes) × ℕ)
  | [], cursor => .ok ([], cursor)
  | bid :: bids, cursor => do
      let raw ← e.readBlock S cursor bid
      if bid ∈ skip then readGroup C e S skip bids (cursor + raw.length)
      else do
        let data ← e.blockData C raw
        let (group, cursor) ← readGroup C e S skip bids (cursor + raw.length)
        pure ((bid, data) :: group, cursor)

/-- The loop over groups, `fuel` times at most: the groups put on the channel and how it ends. -/
def readLoop (C : Crates) (e : SendEngine) (S : Bytes) (skip : List ℕ) (totalBlocks : ℕ) :
    ℕ → ℕ → ℕ → List (List (ℕ × Bytes)) × Except CallFailure Unit
  | 0, bid, _ => ([], if bid < totalBlocks then .error .hang else .ok ())
  | fuel + 1, bid, cursor =>
      if bid < totalBlocks then
        let depth := e.interleaveDepth % 2 ^ 32
        if 2 ^ 32 ≤ bid + depth then ([], .error (.panic .overflow))
        else
          let groupEnd := min (bid + depth) totalBlocks
          match readGroup C e S skip (List.range' bid (groupEnd - bid)) cursor with
          | .error f => ([], .error f)
          | .ok (group, cursor) =>
              let rest := readLoop C e S skip totalBlocks fuel groupEnd cursor
              (if group.isEmpty then rest.1 else group :: rest.1, rest.2)
      else ([], .ok ())

/-- The size of a `Vec` itself. -/
def VEC_SIZE : ℕ := 24

/-- The reader task: `interleave` buffers of `block_size` bytes, then the loop. Each round advances
by at least one block unless the depth is zero as a `u32`, so `totalBlocks` rounds are enough to see
how it ends. -/
def reader (C : Crates) (e : SendEngine) (S : Bytes) (skip : List ℕ) (totalBlocks : ℕ) :
    List (List (ℕ × Bytes)) × Except CallFailure Unit :=
  if ISIZE_MAX < e.blockSize ∨ ISIZE_MAX < e.interleaveDepth * VEC_SIZE then
    ([], .error (.panic .capacityOverflow))
  else readLoop C e S skip totalBlocks totalBlocks 0 0

/-! ## The send loop -/

/-- Send the groups in order, adding up bytes and packets. -/
def sendGroups (C : Crates) : UdpSender → List (List (ℕ × Bytes)) → ℕ → ℕ →
    UdpSender × List Bytes × Except String (ℕ × ℕ)
  | s, [], bytes, packets => (s, [], .ok (bytes, packets))
  | s, group :: groups, bytes, packets =>
      match s.sendBlocksInterleaved C group with
      | (s', pkts, .error e) => (s', pkts, .error e)
      | (s', pkts, .ok stats) =>
          let rest :=
            sendGroups C s' groups (bytes + stats.bytesSent) (packets + stats.packetsSent)
          (rest.1, pkts ++ rest.2.1, rest.2.2)

/-- The sender a transfer starts with. -/
def initialSender (e : SendEngine) (sharedKey : Bytes) (sessionId : UInt32)
    (rng : ℕ → Vector UInt8 4) : UdpSender :=
  { sessionId := sessionId, crypto := .fromKey sharedKey rng, fecEncoder := .new e.repairRatio,
    seqNum := 0 }

/-- The datagrams of a file, and the result. `rng` feeds the nonces, `doneAt` is the time of the
"done" signal. -/
def sendFileInner (C : Crates) (e : SendEngine) (file : SourceFile) (sharedKey : Bytes)
    (sessionId : UInt32) (skipBlocks : List ℕ) (rng : ℕ → Vector UInt8 4) (doneAt : UInt64) :
    List Bytes × Except CallFailure SendResult :=
  match countBlocks file.bytes.length e.blockSize with
  | .error fault => ([], .error (.panic fault))
  | .ok totalBlocks =>
      if totalBlocks < skipBlocks.dedup.length then ([], .error (.panic .totalBlocksUnderflow))
      else
        let read := reader C e file.bytes skipBlocks totalBlocks
        let sent := sendGroups C (e.initialSender sharedKey sessionId rng) read.1 0 0
        match sent.2.2, read.2 with
        | .error msg, _ => (sent.2.1, .error (.error msg))
        | .ok _, .error .hang => (sent.2.1, .error .hang)
        | .ok _, .error (.error msg) => (sent.2.1, .error (.error msg))
        | .ok _, .error (.panic _) => (sent.2.1, .error (.error "task panicked"))
        | .ok (bytes, packets), .ok () =>
            (sent.2.1 ++ (sent.1.sendDone doneAt).2, .ok
              { fileSize := file.bytes.length, totalBytesSent := bytes,
                totalPacketsSent := packets, fileHash := C.blake3 file.bytes })

/-- Send the whole file. -/
def sendFileWithSession (C : Crates) (e : SendEngine) (file : SourceFile) (sharedKey : Bytes)
    (sessionId : UInt32) (rng : ℕ → Vector UInt8 4) (doneAt : UInt64) :
    List Bytes × Except CallFailure SendResult :=
  e.sendFileInner C file sharedKey sessionId [] rng doneAt

/-- Send only the blocks that differ from the receiver's copy. -/
def sendFileDelta (C : Crates) (e : SendEngine) (file : SourceFile) (sharedKey : Bytes)
    (sessionId : UInt32) (skipBlocks : List ℕ) (rng : ℕ → Vector UInt8 4) (doneAt : UInt64) :
    List Bytes × Except CallFailure SendResult :=
  e.sendFileInner C file sharedKey sessionId skipBlocks rng doneAt

/-! ## What the reader reads -/

variable {C : Crates} {e : SendEngine} {S : Bytes} {skip : List ℕ}

/-- With the cursor at its offset, a block is read as it is in the file. -/
theorem readBlock_eq (hb : 0 < e.blockSize) (hS : S.length < 2 ^ 63) {bid : ℕ}
    (hbid : bid < Blocks.count S.length e.blockSize) :
    e.readBlock S (bid * e.blockSize) bid = .ok (Blocks.block e.blockSize S bid) := by
  have hoff := (Blocks.lt_count_iff hb bid).mp hbid
  have hlen : ¬ S.length < bid * e.blockSize + min (S.length - bid * e.blockSize) e.blockSize := by
    omega
  simp only [readBlock, checkedMul_of_lt (show bid * e.blockSize < 2 ^ 64 by omega),
    checkedSub_of_le hoff.le, if_neg hlen]
  rw [Blocks.block, min_comm, ← List.length_drop, ← List.take_eq_take_min]

/-- The pairs of ids and data the reader makes of the blocks `ids`: those not skipped, each with
the data sent for the block of the file. -/
def BlocksRead (C : Crates) (e : SendEngine) (S : Bytes) (skip ids : List ℕ)
    (pairs : List (ℕ × Bytes)) : Prop :=
  List.Forall₂ (fun id pair => pair.1 = id ∧
    e.blockData C (Blocks.block e.blockSize S id) = .ok pair.2)
    (ids.filter fun id => id ∉ skip) pairs

theorem BlocksRead.append {ids ids' : List ℕ} {pairs pairs' : List (ℕ × Bytes)}
    (h : BlocksRead C e S skip ids pairs) (h' : BlocksRead C e S skip ids' pairs') :
    BlocksRead C e S skip (ids ++ ids') (pairs ++ pairs') := by
  unfold BlocksRead
  rw [List.filter_append]
  exact List.rel_append h h'

/-- A pair that is sent belongs to a block that is not skipped, with that block's data. -/
theorem BlocksRead.of_mem {ids : List ℕ} {pairs : List (ℕ × Bytes)}
    (h : BlocksRead C e S skip ids pairs) {pair : ℕ × Bytes} (hpair : pair ∈ pairs) :
    pair.1 ∈ ids ∧ pair.1 ∉ skip ∧
      e.blockData C (Blocks.block e.blockSize S pair.1) = .ok pair.2 := by
  obtain ⟨id, hid, rfl, hdata⟩ := exists_of_forall₂_right h hpair
  obtain ⟨hids, hskip⟩ := List.mem_filter.mp hid
  exact ⟨hids, by simpa using hskip, hdata⟩

/-- Every block that is not skipped is sent. -/
theorem BlocksRead.exists_of_mem {ids : List ℕ} {pairs : List (ℕ × Bytes)}
    (h : BlocksRead C e S skip ids pairs) {id : ℕ} (hid : id ∈ ids) (hskip : id ∉ skip) :
    ∃ data, (id, data) ∈ pairs ∧
      e.blockData C (Blocks.block e.blockSize S id) = .ok data := by
  have hmem : id ∈ ids.filter fun id => id ∉ skip :=
    List.mem_filter.mpr ⟨hid, by simpa using hskip⟩
  obtain ⟨pair, hpair, rfl, hdata⟩ := exists_of_forall₂_left h hmem
  exact ⟨pair.2, hpair, hdata⟩

/-- The ids that are sent, in order. -/
theorem BlocksRead.map_fst {ids : List ℕ} {pairs : List (ℕ × Bytes)}
    (h : BlocksRead C e S skip ids pairs) :
    pairs.map Prod.fst = ids.filter fun id => id ∉ skip := by
  unfold BlocksRead at h
  generalize (ids.filter fun id => id ∉ skip) = sent at h
  induction h with
  | nil => rfl
  | cons hpair _ ih => rw [List.map_cons, ih, hpair.1]

/-- Where the cursor is before block `bid`. After the last block it does not matter. -/
def CursorAt (e : SendEngine) (S : Bytes) (bid cursor : ℕ) : Prop :=
  bid < Blocks.count S.length e.blockSize → cursor = bid * e.blockSize

theorem cursorAt_start (e : SendEngine) (S : Bytes) : CursorAt e S 0 0 :=
  fun _ => (Nat.zero_mul _).symm

/-- Reading a block moves the cursor to the next one. -/
theorem CursorAt.succ (hb : 0 < e.blockSize) {bid : ℕ} :
    CursorAt e S (bid + 1) (bid * e.blockSize + (Blocks.block e.blockSize S bid).length) := by
  intro hnext
  rw [Blocks.length_block_of_lt hb S hnext, Nat.succ_mul]

/-- **A group holds the blocks of the file**, in order, without the skipped ones. -/
theorem readGroup_ok (hb : 0 < e.blockSize) (hS : S.length < 2 ^ 63) {n : ℕ} :
    ∀ {bid cursor cursor' : ℕ} {group : List (ℕ × Bytes)}, CursorAt e S bid cursor →
      bid + n ≤ Blocks.count S.length e.blockSize →
      readGroup C e S skip (List.range' bid n) cursor = .ok (group, cursor') →
      BlocksRead C e S skip (List.range' bid n) group ∧ CursorAt e S (bid + n) cursor' := by
  induction n with
  | zero =>
      intro bid cursor cursor' group hcursor _ h
      obtain ⟨rfl, rfl⟩ := Prod.mk.inj (Except.ok.inj h)
      exact ⟨List.Forall₂.nil, hcursor⟩
  | succ n ih =>
      intro bid cursor cursor' group hcursor hcount h
      have hbid : bid < Blocks.count S.length e.blockSize := by omega
      -- before a block the cursor is at its offset
      obtain rfl := hcursor hbid
      have hnext : bid + (n + 1) = bid + 1 + n := by omega
      rw [List.range'_succ] at h ⊢
      simp only [readGroup, readBlock_eq hb hS hbid, bind, Except.bind] at h
      rw [hnext]
      by_cases hskip : bid ∈ skip
      · rw [if_pos hskip] at h
        obtain ⟨hread, hcur⟩ := ih (CursorAt.succ hb) (by omega) h
        refine ⟨?_, hcur⟩
        rw [BlocksRead, List.filter_cons_of_neg (by simpa using hskip)]
        exact hread
      · rw [if_neg hskip] at h
        cases hdata : e.blockData C (Blocks.block e.blockSize S bid) with
        | error f => simp [hdata] at h
        | ok data =>
            simp only [hdata] at h
            cases hrest : readGroup C e S skip (List.range' (bid + 1) n)
                (bid * e.blockSize + (Blocks.block e.blockSize S bid).length) with
            | error f =>
                simp only [hrest] at h
                cases h
            | ok res =>
                obtain ⟨rest, cursor₁⟩ := res
                simp only [hrest, pure, Except.pure] at h
                obtain ⟨rfl, rfl⟩ := Prod.mk.inj (Except.ok.inj h)
                obtain ⟨hread, hcur⟩ := ih (CursorAt.succ hb) (by omega) hrest
                refine ⟨?_, hcur⟩
                rw [BlocksRead, List.filter_cons_of_pos (by simpa using hskip)]
                exact List.Forall₂.cons ⟨rfl, hdata⟩ hread

/-- The group of a round goes up to the interleave depth, or to the end; the cursor is where the
next round begins. -/
theorem readRound_ok (hb : 0 < e.blockSize) (hS : S.length < 2 ^ 63) {T d bid cursor cursor' : ℕ}
    {group : List (ℕ × Bytes)} (hT : T ≤ Blocks.count S.length e.blockSize) (hbid : bid < T)
    (hcursor : CursorAt e S bid cursor)
    (h : readGroup C e S skip (List.range' bid (min (bid + d) T - bid)) cursor
      = .ok (group, cursor')) :
    BlocksRead C e S skip (List.range' bid (min (bid + d) T - bid)) group ∧
      CursorAt e S (min (bid + d) T) cursor' := by
  have hend : bid + (min (bid + d) T - bid) = min (bid + d) T := by omega
  obtain ⟨hread, hcur⟩ := readGroup_ok hb hS hcursor (by omega) h
  rw [hend] at hcur
  exact ⟨hread, hcur⟩

/-- Leaving out an empty group does not change what is emitted. -/
theorem flatten_group {α : Type} (group : List α) (rest : List (List α)) :
    (if group.isEmpty then rest else group :: rest).flatten = group ++ rest.flatten := by
  by_cases hempty : group.isEmpty = true
  · rw [if_pos hempty, List.isEmpty_iff.mp hempty, List.nil_append]
  · rw [if_neg hempty, List.flatten_cons]

/-- A round of the loop whose group is read. -/
theorem flatten_readLoop_succ {T fuel bid cursor cursor' : ℕ} {group : List (ℕ × Bytes)}
    (hbid : bid < T) (hfits : bid + e.interleaveDepth % 2 ^ 32 < 2 ^ 32)
    (hgroup : readGroup C e S skip
      (List.range' bid (min (bid + e.interleaveDepth % 2 ^ 32) T - bid)) cursor
        = .ok (group, cursor')) :
    (readLoop C e S skip T (fuel + 1) bid cursor).1.flatten = group ++ (readLoop C e S skip T fuel
      (min (bid + e.interleaveDepth % 2 ^ 32) T) cursor').1.flatten := by
  rw [readLoop, if_pos hbid]
  dsimp only
  rw [if_neg (by omega), hgroup]
  exact flatten_group group _

/-- **The groups are the blocks of the file** up to where the reader gets, and all of them when
it ends well. -/
theorem readLoop_ok (hb : 0 < e.blockSize) (hS : S.length < 2 ^ 63) (skip : List ℕ) {T : ℕ}
    (hT : T ≤ Blocks.count S.length e.blockSize) (fuel : ℕ) :
    ∀ {bid cursor : ℕ}, CursorAt e S bid cursor → bid ≤ T →
      ∃ upto, bid ≤ upto ∧ upto ≤ T ∧
        BlocksRead C e S skip (List.range' bid (upto - bid))
          (readLoop C e S skip T fuel bid cursor).1.flatten ∧
        ((readLoop C e S skip T fuel bid cursor).2 = .ok () → upto = T) := by
  induction fuel with
  | zero =>
      intro bid cursor _ hbid
      refine ⟨bid, le_refl _, hbid, by simp [readLoop, BlocksRead], fun h => ?_⟩
      simp only [readLoop] at h
      split at h
      · cases h
      · omega
  | succ fuel ih =>
      intro bid cursor hcursor hbid
      rw [readLoop]
      by_cases hlt : bid < T
      · rw [if_pos hlt]
        dsimp only
        -- the end of the group may not fit a `u32`
        by_cases hover : 2 ^ 32 ≤ bid + e.interleaveDepth % 2 ^ 32
        · rw [if_pos hover]
          exact ⟨bid, le_refl _, hbid, by simp [BlocksRead], fun h => by cases h⟩
        · rw [if_neg hover]
          set groupEnd := min (bid + e.interleaveDepth % 2 ^ 32) T with hgroupEnd
          have heq : bid + (groupEnd - bid) = groupEnd := by omega
          cases hgroup : readGroup C e S skip (List.range' bid (groupEnd - bid)) cursor with
          | error f => exact ⟨bid, le_refl _, hbid, by simp [BlocksRead], fun h => by cases h⟩
          | ok res =>
              obtain ⟨group, cursor'⟩ := res
              obtain ⟨hread, hcur⟩ := readRound_ok hb hS hT hlt hcursor hgroup
              obtain ⟨upto, h1, h2, h3, h4⟩ := ih hcur (show groupEnd ≤ T by omega)
              refine ⟨upto, by omega, h2, ?_, h4⟩
              -- the ids of this group, then those of the rounds after it
              have hsplit : List.range' bid (upto - bid)
                  = List.range' bid (groupEnd - bid) ++ List.range' groupEnd (upto - groupEnd) := by
                have := List.range'_append_1 (s := bid) (m := groupEnd - bid) (n := upto - groupEnd)
                rw [heq] at this
                rw [this]
                congr 1
                omega
              rw [hsplit]
              dsimp only
              rw [flatten_group]
              exact hread.append h3
      · rw [if_neg hlt]
        refine ⟨bid, le_refl _, hbid, by simp [BlocksRead], fun _ => by omega⟩

/-- **Every pair the reader produces is a block of the file.** -/
theorem reader_sound (hb : 0 < e.blockSize) (hS : S.length < 2 ^ 63) {T : ℕ}
    (hT : T ≤ Blocks.count S.length e.blockSize) {pair : ℕ × Bytes}
    (h : pair ∈ (reader C e S skip T).1.flatten) :
    pair.1 < T ∧ pair.1 ∉ skip ∧
      e.blockData C (Blocks.block e.blockSize S pair.1) = .ok pair.2 := by
  unfold reader at h
  split at h
  · cases h
  · obtain ⟨upto, -, hupto, hread, -⟩ :=
      readLoop_ok (C := C) hb hS skip hT T (cursorAt_start e S) (Nat.zero_le T)
    obtain ⟨hmem, hskip, hdata⟩ := hread.of_mem h
    rw [List.mem_range'_1] at hmem
    exact ⟨by omega, hskip, hdata⟩

/-- **A reader that ends well has produced every block that is not skipped.** -/
theorem reader_complete (hb : 0 < e.blockSize) (hS : S.length < 2 ^ 63) {T : ℕ}
    (hT : T ≤ Blocks.count S.length e.blockSize) (h : (reader C e S skip T).2 = .ok ()) {id : ℕ}
    (hid : id < T) (hskip : id ∉ skip) :
    ∃ data, (id, data) ∈ (reader C e S skip T).1.flatten ∧
      e.blockData C (Blocks.block e.blockSize S id) = .ok data := by
  unfold reader at h ⊢
  split at h
  · cases h
  · next hsize =>
      obtain ⟨upto, -, -, hread, hall⟩ :=
        readLoop_ok (C := C) hb hS skip hT T (cursorAt_start e S) (Nat.zero_le T)
      obtain rfl := hall h
      rw [if_neg hsize]
      exact hread.exists_of_mem (by simp [List.mem_range'_1, hid]) hskip

/-! ## When the reader ends well -/

/-- There is something to send for every block that is not skipped. -/
def HasData (C : Crates) (e : SendEngine) (S : Bytes) (skip : List ℕ) : Prop :=
  ∀ id < Blocks.count S.length e.blockSize, id ∉ skip →
    ∃ data, e.blockData C (Blocks.block e.blockSize S id) = .ok data

theorem SendsRaw.hasData (h : e.SendsRaw C S) (skip : List ℕ) : e.HasData C S skip :=
  fun id hid _ => ⟨_, h id hid⟩

/-- A group is read without errors if there is something to send for its blocks. -/
theorem readGroup_isOk (hb : 0 < e.blockSize) (hS : S.length < 2 ^ 63)
    (hdata : e.HasData C S skip) {n : ℕ} :
    ∀ {bid cursor : ℕ}, CursorAt e S bid cursor →
      bid + n ≤ Blocks.count S.length e.blockSize →
      ∃ group cursor', readGroup C e S skip (List.range' bid n) cursor = .ok (group, cursor') := by
  induction n with
  | zero =>
      intro bid cursor _ _
      exact ⟨[], cursor, rfl⟩
  | succ n ih =>
      intro bid cursor hcursor hcount
      have hbid : bid < Blocks.count S.length e.blockSize := by omega
      obtain rfl := hcursor hbid
      obtain ⟨group, cursor', hrest⟩ := ih (CursorAt.succ hb) (show bid + 1 + n ≤ _ by omega)
      rw [List.range'_succ]
      simp only [readGroup, readBlock_eq hb hS hbid, bind, Except.bind]
      by_cases hskip : bid ∈ skip
      · rw [if_pos hskip]
        exact ⟨group, cursor', hrest⟩
      · obtain ⟨data, hok⟩ := hdata bid hbid hskip
        rw [if_neg hskip]
        simp only [hok, hrest]
        exact ⟨_, _, rfl⟩

theorem readLoop_isOk (hb : 0 < e.blockSize) (hS : S.length < 2 ^ 63) (skip : List ℕ)
    (hsends : e.SendsRaw C S) {T : ℕ} (hT : T ≤ Blocks.count S.length e.blockSize)
    (hdepth : 0 < e.interleaveDepth) (hroom : T + e.interleaveDepth < 2 ^ 32) {fuel : ℕ} :
    ∀ {bid cursor : ℕ}, CursorAt e S bid cursor → T ≤ bid + fuel →
      (readLoop C e S skip T fuel bid cursor).2 = .ok () := by
  have hmod : e.interleaveDepth % 2 ^ 32 = e.interleaveDepth := Nat.mod_eq_of_lt (by omega)
  induction fuel with
  | zero =>
      intro bid cursor _ hfuel
      rw [readLoop, if_neg (by omega)]
  | succ fuel ih =>
      intro bid cursor hcursor hfuel
      rw [readLoop]
      by_cases hlt : bid < T
      · rw [if_pos hlt]
        dsimp only
        rw [hmod, if_neg (by omega)]
        set groupEnd := min (bid + e.interleaveDepth) T with hgroupEnd
        have heq : bid + (groupEnd - bid) = groupEnd := by omega
        obtain ⟨group, cursor', hgroup⟩ := readGroup_isOk hb hS (hsends.hasData skip)
          hcursor (show bid + (groupEnd - bid) ≤ _ by omega)
        obtain ⟨-, hcur⟩ := readGroup_ok hb hS hcursor (by omega) hgroup
        rw [heq] at hcur
        rw [hgroup]
        exact ih hcur (by omega)
      · rw [if_neg hlt]

/-- **The reader of a file whose blocks are sent as they are ends well**, if the group ids fit
`u32`. -/
theorem reader_isOk (hb : 0 < e.blockSize) (hsize : e.blockSize ≤ ISIZE_MAX)
    (hS : S.length < 2 ^ 63) (skip : List ℕ) (hsends : e.SendsRaw C S) {T : ℕ}
    (hT : T ≤ Blocks.count S.length e.blockSize) (hdepth : 0 < e.interleaveDepth)
    (hroom : T + e.interleaveDepth < 2 ^ 32) : (reader C e S skip T).2 = .ok () := by
  have hmax : ISIZE_MAX = 2 ^ 63 - 1 := rfl
  have hvec : VEC_SIZE = 24 := rfl
  rw [reader, hvec, if_neg (by omega)]
  exact readLoop_isOk hb hS skip hsends hT hdepth hroom (cursorAt_start e S) (by omega)

end SendEngine

end Updown
