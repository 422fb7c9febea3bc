import Updown.Engine.Transfer

set_option autoImplicit false

/-! # Safety of a receiver against its peer

A peer that has the key chooses the block id of every packet, and a peer that asks for a transfer
chooses its three numbers. `insideFile_of_ids_below` says what holds as long as block ids are below
`total_blocks` and the bitmap is long enough, neither of which is checked; `no_fault_of_reaches`
says which relation between the numbers keeps the arithmetic of both tasks from going wrong,
whatever the ids are.
-/

namespace Updown

open Transition

namespace RecvFile

variable {C : Crates} {p : RecvParams} {rng : ℕ → Vector UInt8 4} {now : ℕ} {disk : Disk}
  {s : RecvFile C.raptorq}

/-! ## Block ids in range -/

/-- Writes stay inside the declared file, and the counts mean what they say. -/
structure InsideFile {Q : RaptorQ} (p : RecvParams) (s : RecvFile Q) : Prop where
  writes : ∀ w ∈ s.log.writes, 0 < w.2 → w.1 + w.2 ≤ p.fileSize
  counted : s.blocksWritten = s.resume.completedCount
  decoded : s.task = .exited .allReceived →
    ∀ id < p.totalBlocks, id ∈ s.receiver.completedBlocks

/-- Every packet that authenticates carries a block id below `total_blocks`. -/
def IdsBelow (C : Crates) (p : RecvParams) (_ : RecvFile C.raptorq) (e : RecvEvent) : Prop :=
  ∀ now data, e = .datagram now data → ∀ id plain, p.opens C data = some (id, plain) →
    id < p.totalBlocks

theorem arrivals_of_idsBelow (u : RecvFile C.raptorq) (e : RecvEvent) (h : IdsBelow C p u e) :
    Arrivals C p (fun id _ => id < p.totalBlocks) u e := h

/-- The bitmap of a resume state that is loaded has an entry for each block of the transfer, and fewer
than 2^32 in all. Nothing in `load` checks it. -/
def BitmapCovers (p : RecvParams) (disk : Disk) : Prop :=
  ∀ state, (ResumeState.load disk.resume p.fileSize p.blockSize p.totalBlocks).1 = some state →
    p.totalBlocks ≤ state.completedBlocks.length ∧ state.completedBlocks.length < 2 ^ 32

/-- The records of a writer whose bitmap has an entry for each block. -/
structure InRange {Q : RaptorQ} (p : RecvParams) (s : RecvFile Q) : Prop where
  bitmap_le : p.totalBlocks ≤ s.resume.completedBlocks.length
  bitmap_lt : s.resume.completedBlocks.length < 2 ^ 32
  counted : s.blocksWritten = s.resume.completedCount
  writes : ∀ w ∈ s.log.writes, w.1 + w.2 ≤ p.fileSize

theorem inRange_start (Q : RaptorQ) (rng : ℕ → Vector UInt8 4) (now : ℕ) {disk : Disk}
    (hcovers : BitmapCovers p disk) : InRange p (start Q p rng now disk) := by
  have hbitmap : p.totalBlocks ≤ (start Q p rng now disk).resume.completedBlocks.length ∧
      (start Q p rng now disk).resume.completedBlocks.length < 2 ^ 32 := by
    cases hload : (ResumeState.load disk.resume p.fileSize p.blockSize p.totalBlocks).1 with
    | none =>
        have hlt := p.totalBlocks_lt
        simp only [start, hload, Option.getD_none, ResumeState.new, List.length_replicate]
        exact ⟨le_rfl, hlt⟩
    | some state => simpa [start, hload] using hcovers state hload
  exact ⟨hbitmap.1, hbitmap.2, rfl, by simp [start]⟩

/-- More of the log, and the same records. -/
theorem InRange.of_eq {Q : RaptorQ} {s s' : RecvFile Q} (h : InRange p s)
    (hresume : s'.resume = s.resume) (hwritten : s'.blocksWritten = s.blocksWritten)
    (hwrites : ∀ w ∈ s'.log.writes, w ∈ s.log.writes ∨ w.1 + w.2 ≤ p.fileSize) :
    InRange p s' :=
  ⟨hresume ▸ h.bitmap_le, hresume ▸ h.bitmap_lt, by rw [hwritten, hresume, h.counted],
    fun w hw => (hwrites w hw).elim (h.writes w) id⟩

/-- A write of at most the length of its block ends inside the file. -/
theorem write_writes_le {offset len : ℕ} {chunk : Bytes} {id : ℕ} (hfits : p.Fits)
    (hid : id < p.totalBlocks) (hrange : p.writeRange id = .ok (offset, len))
    (hchunk : chunk.length ≤ len) :
    ∀ w ∈ (s.write offset chunk).log.writes, w ∈ s.log.writes ∨ w.1 + w.2 ≤ p.fileSize := by
  obtain ⟨rfl, rfl⟩ := RecvParams.writeRange_eq_ok hrange
  have hend := hfits.end_le hid
  intro w hw
  rcases List.mem_append.mp hw with hold | hlast
  · exact Or.inl hold
  · rw [List.mem_singleton.mp hlast]
    exact Or.inr (by dsimp only; omega)

theorem InRange.take {save : SaveOutcome} {s s' : RecvFile C.raptorq} {block : ReceivedBlock}
    (h : InRange p s) (hfits : p.Fits) (hid : block.blockId < p.totalBlocks)
    (htake : TakeCases C p save s block s') : InRange p s' := by
  cases htake with
  | skipped => exact h
  | rangeFault | sliceFault => exact h.of_eq rfl rfl fun w hw => Or.inl hw
  | markFault offset len fault hnew hrange =>
      exact h.of_eq rfl rfl (write_writes_le hfits hid hrange (List.length_take_le _ _))
  | wrote offset len resume hnew hrange hlen hmark =>
      obtain ⟨hcount, -⟩ := ResumeState.completedCount_markComplete hmark
        (hid.trans_le h.bitmap_le) h.bitmap_lt hnew
      obtain ⟨-, -, -, hbits, -⟩ := ResumeState.markComplete_frame hmark
      have hwrite : InRange p (s.write offset (block.data.take len)) :=
        h.of_eq rfl rfl (write_writes_le hfits hid hrange (List.length_take_le _ _))
      refine ⟨hbits ▸ h.bitmap_le, hbits ▸ h.bitmap_lt, ?_, hwrite.writes⟩
      rw [recordBlock_blocksWritten, recordBlock_resume, hcount, ← h.counted]
      rfl

/-- **Every step keeps the records in range** when the ids on the channel are. -/
theorem InRange.step {s s' : RecvFile C.raptorq} {e : RecvEvent} (h : InRange p s)
    (hfits : p.Fits) (hids : ∀ block ∈ s.channel, block.blockId < p.totalBlocks)
    (hstep : RecvFile.step C p s e = some s') : InRange p s' := by
  cases step_cases hstep with
  | take save block rest s' hwriter hchannel htake =>
      have hrest : InRange p ({ s with channel := rest } : RecvFile C.raptorq) :=
        h.of_eq rfl rfl fun w hw => Or.inl hw
      exact hrest.take hfits (hids block (by simp [hchannel])) htake
  | writeFails n block rest s' hwriter hchannel hnew hfail =>
      cases hfail with
      | rangeFault | sliceFault => exact h.of_eq rfl rfl fun w hw => Or.inl hw
      | partly offset len hrange hlen =>
          refine h.of_eq rfl rfl (write_writes_le hfits (hids block (by simp [hchannel])) hrange ?_)
          exact (List.length_take_le' _ _).trans (List.length_take_le _ _)
  | _ => exact h.of_eq rfl rfl fun w hw => Or.inl hw

/-- **With block ids in range and a bitmap for all blocks, the receiver stays inside the declared
file.** -/
theorem insideFile_of_ids_below (hb : 1 ≤ p.blockSize)
    (htotal : p.totalBlocks = Blocks.count p.fileSize p.blockSize)
    (hcovers : BitmapCovers p disk)
    (hrun : Reaches (RecvFile.step C p) (IdsBelow C p) (start C.raptorq p rng now disk) s) :
    InsideFile p s := by
  have hfits : p.Fits := ⟨hb, htotal.le⟩
  have hbook := bookkeeping_of_reaches hrun
  have hids : ∀ {u : RecvFile C.raptorq},
      Reaches (RecvFile.step C p) (IdsBelow C p) (start C.raptorq p rng now disk) u →
      ∀ block ∈ u.decodedBlocks, block.blockId < p.totalBlocks := by
    intro u hu block hblock
    obtain ⟨-, hlt⟩ :=
      ((provenance_of_reaches arrivals_of_idsBelow hu).blocks block hblock).exists_packet
    exact hlt
  have hin : InRange p s :=
    hrun.invariant_along (inRange_start _ rng now hcovers) fun u e u' hu hinv _ hs =>
      hinv.step hfits (fun block hblock =>
        hids hu block ((bookkeeping_of_reaches hu).mem_decodedBlocks hblock)) hs
  refine ⟨fun w hw _ => hin.writes w hw, hin.counted, fun htask id hid => ?_⟩
  obtain ⟨block, hblock, rfl⟩ := hbook.mem_delivered htask (hids hrun) hid
  obtain ⟨lost, heq, -⟩ := hbook.completed
  rw [heq, decodedBlocks]
  simp only [List.map_append, List.mem_append]
  exact Or.inl (Or.inl (List.mem_map_of_mem hblock))

/-- A resume file whose bitmap has an entry more than the transfer has blocks. -/
def longBitmap : ResumeState :=
  { ResumeState.new 9 5 4 2 with
    completedBlocks := [false, false, false], blockHashes := [none, none, none] }

theorem insideFile_of_ids_below_small :
    ∃ s, runAll (RecvFile.step PlainCrates.plainCrates Small.params)
        (start _ Small.params Small.rng 0 ⟨none, some (.saved longBitmap)⟩) Small.events = some s ∧
      InsideFile Small.params s := by
  obtain ⟨s, hs, -⟩ := exists_of_runAll (RecvFile.step PlainCrates.plainCrates Small.params)
    (start _ Small.params Small.rng 0 ⟨none, some (.saved longBitmap)⟩) Small.events
    (fun _ => true) (by decide +kernel)
  refine ⟨s, hs, insideFile_of_ids_below (by decide) (by decide) ?_ (Reaches.of_runAll hs ?_)⟩
  · intro state hstate
    obtain rfl : longBitmap = state := Option.some.inj hstate
    decide
  · exact Small.allowedAlong_of_datagramsAll
      (fun data => ((Small.params.opens PlainCrates.plainCrates data).all fun o =>
        decide (o.1 < Small.params.totalBlocks))) Small.events (by decide +kernel)
      (fun u e h now data he id plain hopen => by simpa [hopen] using h now data he) _

/-- A file of one block, of four bytes. -/
def oneBlock : RecvParams :=
  { Small.params with
    fileSize := 4, totalBlocks := 1, fileSize_lt := by decide, totalBlocks_lt := by decide }

/-- A packet of four bytes for block 5, from a peer that has the key. -/
def wildPacket : Bytes :=
  match (Small.engine.initialSender oneBlock.sharedKey oneBlock.sessionId Small.rng).framePacket
      PlainCrates.aead ⟨5, 0, PlainCrates.raptorq.serialize ⟨0, [1, 2, 3, 4]⟩⟩ with
  | (_, .ok pkt) => pkt
  | (_, .error _) => []

/-- Block 5 of a file of one block is decoded, written behind the end of the file and counted as
the one block of the file. -/
theorem wildPacket_writes_outside :
    ∃ s, runAll (RecvFile.step PlainCrates.plainCrates oneBlock)
        (start _ oneBlock Small.rng 0 ⟨none, none⟩)
        [.datagram Small.clock wildPacket, .send, .exitAll, .take .failed] = some s ∧
      (∃ w ∈ s.log.writes, 0 < w.2 ∧ ¬ w.1 + w.2 ≤ oneBlock.fileSize) ∧
      s.blocksWritten ≠ s.resume.completedCount ∧
      s.task = .exited .allReceived ∧
      ∃ id < oneBlock.totalBlocks, id ∉ s.receiver.completedBlocks := by
  obtain ⟨s, hs, hcheck⟩ := exists_of_runAll (RecvFile.step PlainCrates.plainCrates oneBlock)
    (start _ oneBlock Small.rng 0 ⟨none, none⟩)
    [.datagram Small.clock wildPacket, .send, .exitAll, .take .failed]
    (fun s => decide (s.log.writes = [(20, 4)]) && decide (s.blocksWritten = 1) &&
      decide (s.resume.completedCount = 0) && decide (s.task = .exited .allReceived) &&
      decide (s.receiver.completedBlocks = [5])) (by decide +kernel)
  simp only [Bool.and_eq_true, decide_eq_true_eq] at hcheck
  obtain ⟨⟨⟨⟨h1, h2⟩, h3⟩, h4⟩, h5⟩ := hcheck
  refine ⟨s, hs, ⟨(20, 4), by rw [h1]; simp, by decide, by decide⟩, ?_, h4, 0, by decide, ?_⟩
  · rw [h2, h3]
    decide
  · rw [h5]
    decide

/-! ## Numbers that keep the arithmetic in range -/

/-- A block id fits `u32`. -/
theorem lt_of_opens {data : Bytes} {id : ℕ} {plain : Bytes}
    (h : p.opens C data = some (id, plain)) : id < 2 ^ 32 := by
  unfold RecvParams.opens authentic at h
  split at h
  · cases h
  · next header payload hparse =>
      split at h
      · split at h
        · cases h
        · obtain ⟨rfl, -⟩ := Prod.mk.inj (Option.some.inj h)
          exact header.blockId.toNat_lt
      · cases h

end RecvFile

/-- Blocks are not empty: the last block starts inside the file, and what is left for it is split
into source blocks. -/
structure RecvParams.Fillable (Q : RaptorQ) (p : RecvParams) : Prop where
  blockSize_pos : 0 < p.blockSize
  last_le : (p.totalBlocks - 1) * p.blockSize ≤ p.fileSize
  last_splits :
    Q.noSourceBlocks (p.fileSize - (p.totalBlocks - 1) * p.blockSize) SYMBOL_SIZE = false

namespace RecvParams

variable {Q : RaptorQ} {p : RecvParams}

theorem decoderLen_of_ne {id : ℕ} (hpos : 0 < p.totalBlocks) (hid : id ≠ p.totalBlocks - 1) :
    p.decoderLen id = .ok p.blockSize := by
  unfold RecvParams.decoderLen Updown.decoderLen
  rw [checkedSub_of_le (by omega)]
  exact if_neg hid

theorem decoderLen_last_of_le (hpos : 0 < p.totalBlocks)
    (hle : (p.totalBlocks - 1) * p.blockSize ≤ p.fileSize) :
    p.decoderLen (p.totalBlocks - 1)
      = .ok (p.fileSize - (p.totalBlocks - 1) * p.blockSize) := by
  have hsize := p.fileSize_lt
  unfold RecvParams.decoderLen Updown.decoderLen
  rw [checkedSub_of_le (by omega)]
  simp only [bind, Except.bind, if_true]
  rw [checkedMul_of_lt (by omega)]
  exact checkedSub_of_le hle

/-- Numbers that fit leave a last block that is not empty. -/
theorem Fits.fillable (hQ : Q.Correct) (h : p.Fits) (hpos : 0 < p.totalBlocks)
    (hlt : ∀ id < p.totalBlocks, p.blockLen id < 2 ^ 32) : p.Fillable Q := by
  have hlast : p.totalBlocks - 1 < p.totalBlocks := by omega
  have hle := (h.offset_lt hlast).le
  have hlen := Except.ok.inj ((decoderLen_last_of_le hpos hle).symm.trans (h.decoderLen hlast))
  refine ⟨h.blockSize_pos, hle, ?_⟩
  rw [hlen]
  exact hQ.noSourceBlocks_of_pos (h.blockLen_pos hlast) (hlt _ hlast)

/-- With such numbers the receiver can set up every block. -/
theorem Fillable.exists_decoderLen (hQ : Q.Correct) (h : p.Fillable Q)
    (hblock : p.blockSize < 2 ^ 32) (hpos : 0 < p.totalBlocks) (id : ℕ) :
    ∃ len, p.decoderLen id = .ok len ∧ Q.noSourceBlocks len SYMBOL_SIZE = false := by
  by_cases hid : id = p.totalBlocks - 1
  · rw [hid]
    exact ⟨_, decoderLen_last_of_le hpos h.last_le, h.last_splits⟩
  · exact ⟨_, decoderLen_of_ne hpos hid, hQ.noSourceBlocks_of_pos h.blockSize_pos hblock⟩

/-- Where the receiver can compute the length of a block, the writer can, and they agree. -/
theorem writeRange_of_decoderLen {id len : ℕ} (h : p.decoderLen id = .ok len)
    (hmul : id * p.blockSize < 2 ^ 64) : p.writeRange id = .ok (id * p.blockSize, len) := by
  obtain ⟨last, hlast, h⟩ := bind_eq_ok h
  rw [RecvParams.writeRange, checkedMul_of_lt hmul, hlast]
  simp only [bind, Except.bind]
  split at h
  · next hid =>
      obtain ⟨start, hstart, h⟩ := bind_eq_ok h
      obtain ⟨-, rfl⟩ := checkedMul_eq_ok hstart
      rw [if_pos hid, h]
      rfl
  · next hid =>
      obtain rfl := Except.ok.inj h
      rw [if_neg hid]
      rfl

/-- The length of a last block that starts behind the end of the file underflows. -/
theorem decoderLen_last_of_lt (hpos : 0 < p.totalBlocks) (hblock : p.blockSize < 2 ^ 32)
    (hgt : p.fileSize < (p.totalBlocks - 1) * p.blockSize) :
    p.decoderLen (p.totalBlocks - 1) = .error .fileSizeUnderflow := by
  have hlt := p.totalBlocks_lt
  have hmul : (p.totalBlocks - 1) * p.blockSize < 2 ^ 64 := by
    calc (p.totalBlocks - 1) * p.blockSize ≤ 2 ^ 32 * p.blockSize :=
          Nat.mul_le_mul_right _ (by omega)
      _ < 2 ^ 32 * 2 ^ 32 := Nat.mul_lt_mul_of_pos_left hblock (by norm_num)
      _ = 2 ^ 64 := by norm_num
  unfold RecvParams.decoderLen Updown.decoderLen
  rw [checkedSub_of_le (by omega)]
  simp only [bind, Except.bind, if_true]
  rw [checkedMul_of_lt hmul]
  exact if_neg hgt.not_ge

/-- Otherwise there is a block that cannot be set up. -/
theorem exists_unopenable_of_not_fillable (hQ : Q.Correct) (hpos : 0 < p.totalBlocks)
    (hblock : p.blockSize < 2 ^ 32) (h : ¬ p.Fillable Q) :
    ∃ id < 2 ^ 32, p.decoderLen id = .error .fileSizeUnderflow ∨
      ∃ len, p.decoderLen id = .ok len ∧ Q.noSourceBlocks len SYMBOL_SIZE = true := by
  have hlt := p.totalBlocks_lt
  rcases Nat.eq_zero_or_pos p.blockSize with hzero | hb
  · -- any block but the last one is empty
    refine ⟨p.totalBlocks, hlt, Or.inr ⟨0, ?_, hQ.noSourceBlocks_zero⟩⟩
    rw [decoderLen_of_ne hpos (by omega), hzero]
  · refine ⟨p.totalBlocks - 1, by omega, ?_⟩
    rcases lt_or_ge p.fileSize ((p.totalBlocks - 1) * p.blockSize) with hgt | hle
    · exact Or.inl (decoderLen_last_of_lt hpos hblock hgt)
    · refine Or.inr ⟨_, decoderLen_last_of_le hpos hle, ?_⟩
      by_contra hsplit
      exact h ⟨hb, hle, by simpa using hsplit⟩

end RecvParams

namespace RecvFile

variable {C : Crates} {p : RecvParams} {rng : ℕ → Vector UInt8 4} {now : ℕ} {disk : Disk}
  {s : RecvFile C.raptorq}

/-- No task has stopped with an arithmetic fault. The bitmap's own bound and the count of the blocks
written are not arithmetic on the request. -/
structure NoFault {Q : RaptorQ} (s : RecvFile Q) : Prop where
  task : ∀ fault, s.task ≠ .panicked fault
  writer : ∀ fault, s.writer = .panicked fault → fault = .indexOutOfRange ∨ fault = .overflow

/-- The writer of a decoded block can only find the hashes too few, or the count at its end. -/
theorem NoFault.take {save : SaveOutcome} {s s' : RecvFile C.raptorq} {block : ReceivedBlock}
    (h : s.NoFault) (hlen : p.decoderLen block.blockId = .ok block.data.length)
    (hmul : block.blockId * p.blockSize < 2 ^ 64) (htake : TakeCases C p save s block s') :
    s'.NoFault := by
  have hwrite := RecvParams.writeRange_of_decoderLen hlen hmul
  cases htake with
  | skipped => exact h
  | rangeFault fault hnew hrange =>
      rw [hwrite] at hrange
      cases hrange
  | sliceFault offset len hnew hrange hshort =>
      rw [hwrite] at hrange
      obtain ⟨-, rfl⟩ := Prod.mk.inj (Except.ok.inj hrange)
      exact absurd hshort (lt_irrefl _)
  | markFault offset len fault hnew hrange hle hmark =>
      refine ⟨h.task, fun fault' hfault' => ?_⟩
      obtain rfl : fault = fault' := WriterTask.panicked.inj hfault'
      exact (markBlock_eq_error hmark).imp And.right And.right
  | wrote offset len resume hnew hrange hle hmark =>
      refine ⟨h.task, fun fault hfault => ?_⟩
      simp only [recordBlock] at hfault
      split at hfault <;> cases hfault

theorem NoFault.fail {n : ℕ} {s s' : RecvFile C.raptorq} {block : ReceivedBlock} (h : s.NoFault)
    (hlen : p.decoderLen block.blockId = .ok block.data.length)
    (hmul : block.blockId * p.blockSize < 2 ^ 64) (hfail : FailCases p n s block s') :
    s'.NoFault := by
  have hwrite := RecvParams.writeRange_of_decoderLen hlen hmul
  cases hfail with
  | rangeFault fault hrange =>
      rw [hwrite] at hrange
      cases hrange
  | sliceFault offset len hrange hshort =>
      rw [hwrite] at hrange
      obtain ⟨-, rfl⟩ := Prod.mk.inj (Except.ok.inj hrange)
      exact absurd hshort (lt_irrefl _)
  | partly => exact ⟨h.task, fun fault hfault => by cases hfault⟩

/-- A datagram causes no fault when every block can be set up. -/
theorem NoFault.datagram {data : Bytes} {r : UdpReceiver C.raptorq} {res : PacketResult}
    (h : s.NoFault) (hlen : ∀ id, ∃ len, s.receiver.actualBlockLen id = .ok len ∧
      C.raptorq.noSourceBlocks len SYMBOL_SIZE = false)
    (heffect : s.receiver.Effect C data r res) : (s.afterReceive data r res).NoFault := by
  refine ⟨fun fault hfault => ?_, h.writer⟩
  cases heffect with
  | ignored hauth hpending hcomp hres => rcases hres with rfl | ⟨e, rfl⟩ <;> cases hfault
  | @faulted id plain fault' hauth hnew hunopenable =>
      obtain ⟨len, hok, hsplit⟩ := hlen id
      exact absurd hunopenable (UdpReceiver.not_unopenable hok hsplit _)
  | absorbed => cases hfault
  | decoded => cases hfault

/-- **With numbers that fit no task ever faults**, whatever authenticates. -/
theorem no_fault_of_reaches (hC : C.Correct) (hblock : p.blockSize < 2 ^ 32)
    (hnum : p.totalBlocks = 0 ∨ p.Fillable C.raptorq)
    (hrun : Reaches (RecvFile.step C p) (fun _ _ => True) (start C.raptorq p rng now disk) s) :
    s.NoFault := by
  have hany : ∀ (u : RecvFile C.raptorq) (e : RecvEvent), True →
      Arrivals C p (fun id _ => id < 2 ^ 32) u e :=
    fun _ _ _ _ _ _ _ _ hopen => lt_of_opens hopen
  refine hrun.invariant_along ⟨?_, ?_⟩ fun u e u' hu hno _ hs => ?_
  · intro fault hfault
    cases hfault
  · intro fault hfault
    cases hfault
  have hbook := bookkeeping_of_reaches hu
  -- a decoded block is as long as its decoder was set up for, and its offset fits 64 bits
  have hblocks : ∀ block ∈ u.channel, p.decoderLen block.blockId = .ok block.data.length ∧
      block.blockId * p.blockSize < 2 ^ 64 := by
    intro block hmem
    have hfrom := (provenance_of_reaches hany hu).blocks block (hbook.mem_decodedBlocks hmem)
    obtain ⟨-, hid⟩ := hfrom.exists_packet
    refine ⟨hfrom.length hC, ?_⟩
    calc block.blockId * p.blockSize ≤ 2 ^ 32 * p.blockSize := Nat.mul_le_mul_right _ hid.le
      _ < 2 ^ 32 * 2 ^ 32 := Nat.mul_lt_mul_of_pos_left hblock (by norm_num)
      _ = 2 ^ 64 := by norm_num
  have hsame : ∀ t : RecvFile C.raptorq, (∀ fault, t.task = .panicked fault →
      u.task = .panicked fault) → (∀ fault, t.writer = .panicked fault →
      u.writer = .panicked fault) → t.NoFault :=
    fun t h1 h2 => ⟨fun fault hf => hno.task fault (h1 fault hf),
      fun fault hf => hno.writer fault (h2 fault hf)⟩
  cases step_cases hs with
  | datagram now data r res htask hopen hconfig heffect =>
      refine hno.datagram (fun id => ?_) heffect
      have hpos : 0 < p.totalBlocks := Nat.zero_lt_of_lt (hbook.length_lt hopen)
      rw [hbook.config.actualBlockLen_eq]
      exact (hnum.resolve_left hpos.ne').exists_decoderLen hC.raptorq hblock hpos id
  | recvError => exact hno
  | take save block rest s' hwriter hchannel htake =>
      obtain ⟨hlen, hmul⟩ := hblocks block (by simp [hchannel])
      have hrest : ({ u with channel := rest } : RecvFile C.raptorq).NoFault :=
        hsame _ (fun _ h => h) fun _ h => h
      exact hrest.take hlen hmul htake
  | writeFails n block rest s' hwriter hchannel hnew hfail =>
      obtain ⟨hlen, hmul⟩ := hblocks block (by simp [hchannel])
      have hrest : ({ u with channel := rest } : RecvFile C.raptorq).NoFault :=
        hsame _ (fun _ h => h) fun _ h => h
      exact hrest.fail hlen hmul hfail
  | idleTimeout | exitAll | sendFailed =>
      exact hsame _ (fun fault hf => by cases hf) fun fault hf => hf
  | send => exact hsame _ (fun fault hf => by cases hf) fun fault hf => hf
  | channelEnd | finish | joinFails | ioFails =>
      exact hsame _ (fun fault hf => hf) fun fault hf => by cases hf

/-- A peer that has the key can make a datagram the receiver opens, for any block id. -/
theorem exists_opens (hC : C.Correct) (p : RecvParams) {id : ℕ} (hid : id < 2 ^ 32) :
    ∃ data plain, p.opens C data = some (id, plain) := by
  obtain ⟨q, hq⟩ := hC.raptorq.exists_packet (show ([0] : Bytes) ≠ [] by simp) (by simp)
  obtain ⟨d, hd⟩ := exists_datagram hC p hid hq
  exact ⟨d, _, hd⟩

/-- A datagram for a block that cannot be set up stops the receive task. -/
theorem exists_panicked (rng : ℕ → Vector UInt8 4) (now : ℕ) (disk : Disk) {id : ℕ}
    {plain data : Bytes} (hpos : 0 < p.totalBlocks) (hopen : p.opens C data = some (id, plain))
    (hlen : p.decoderLen id = .error .fileSizeUnderflow ∨
      ∃ len, p.decoderLen id = .ok len ∧ C.raptorq.noSourceBlocks len SYMBOL_SIZE = true) :
    ∃ s fault, Reaches (RecvFile.step C p) (fun _ _ => True) (start C.raptorq p rng now disk) s ∧
      s.task = .panicked fault ∧ (fault = .fileSizeUnderflow ∨ fault = .divideByZero) := by
  have hbook := bookkeeping_start (p := p) C.raptorq rng now disk
  set s₀ := start C.raptorq p rng now disk
  have hnot : ¬ s₀.receiver.allReceived := by
    rw [hbook.allReceived_iff]
    exact fun h => absurd (h ▸ hpos : 0 < ([] : List ℕ).length) (lt_irrefl 0)
  obtain ⟨-, heffect⟩ := s₀.receiver.receive_effect C ⟨0, 0⟩ data
  rw [← hbook.config.authentic_eq] at hopen
  rw [← hbook.config.actualBlockLen_eq] at hlen
  -- the block has no entry yet
  obtain ⟨fault, hunopenable, hfault⟩ : ∃ fault, s₀.receiver.Unopenable id fault ∧
      (fault = .fileSizeUnderflow ∨ fault = .divideByZero) := by
    rcases hlen with hlen | ⟨len, hlen, hsplit⟩
    · exact ⟨_, Or.inl hlen, Or.inl rfl⟩
    · exact ⟨_, Or.inr ⟨len, hlen, rfl, hsplit, rfl⟩, Or.inr rfl⟩
  refine ⟨_, fault, Reaches.single trivial (step_datagram ⟨0, 0⟩ data rfl hnot), ?_, hfault⟩
  generalize (s₀.receiver.receive C ⟨0, 0⟩ data).1 = r at heffect ⊢
  generalize (s₀.receiver.receive C ⟨0, 0⟩ data).2 = res at heffect ⊢
  have hsame : ∀ {id' plain'}, authentic C.aead s₀.receiver.sessionId s₀.receiver.crypto data
      = some (id', plain') → id' = id := by
    intro id' plain' h
    exact (Prod.mk.inj (Option.some.inj (h.symm.trans hopen))).1
  cases heffect with
  | ignored hauth => exact absurd (hauth _ _ hopen) (by simp [s₀, start, UdpReceiver.new])
  | faulted hauth hnew hunopenable' =>
      rw [hsame hauth] at hunopenable'
      rw [hunopenable'.unique hunopenable]
      rfl
  | absorbed hauth hnew hlen' hadd hpending hcomp hopenable =>
      rw [hsame hauth] at hopenable
      exact absurd hunopenable (hopenable fault)
  | decoded hauth hnew hlen' hadd hpending hcomp hopenable =>
      rw [hsame hauth] at hopenable
      exact absurd hunopenable (hopenable fault)

end RecvFile

end Updown
