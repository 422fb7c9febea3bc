import Updown.Engine.RecvSafety

set_option autoImplicit false

/-! # The size a transfer reports

`receive_file` counts the blocks it has and reports the bytes of as many full blocks, cut off at the
size of the file. The blocks it has at the end are those that were loaded and those that arrived
(`isComplete_eq_received`). The report is the size of these blocks unless the last block of the file
is short and among them while another one is missing (`reportedSize_iff`).
-/

namespace Updown

open Transition

/-! ## The size of a set of blocks -/

namespace RecvParams

variable {p : RecvParams}

/-- Lengths of blocks that do not include the last one. -/
theorem sum_blockLen_of_lt {ids : List ℕ} (h : ∀ id ∈ ids, id + 1 < p.totalBlocks) :
    (ids.map p.blockLen).sum = ids.length * p.blockSize := by
  induction ids with
  | nil => simp
  | cons id ids ih =>
      have hid : ¬ id + 1 = p.totalBlocks := (h id List.mem_cons_self).ne
      rw [List.map_cons, List.sum_cons, ih fun j hj => h j (List.mem_cons_of_mem _ hj), blockLen,
        if_neg hid, List.length_cons]
      ring

/-- The length of the last block. -/
def lastLen (p : RecvParams) : ℕ := p.fileSize - (p.totalBlocks - 1) * p.blockSize

/-- The blocks of a transfer that satisfy `P`. -/
def blocksWith (p : RecvParams) (P : ℕ → Bool) : List ℕ := (List.range p.totalBlocks).filter P

theorem mem_blocksWith {P : ℕ → Bool} {id : ℕ} :
    id ∈ p.blocksWith P ↔ id < p.totalBlocks ∧ P id = true := by
  simp [blocksWith]

/-- The blocks before the last one, and the last one if it is among them. -/
theorem blocksWith_eq (hpos : 0 < p.totalBlocks) (P : ℕ → Bool) :
    p.blocksWith P = (List.range (p.totalBlocks - 1)).filter P ++
      (if P (p.totalBlocks - 1) then [p.totalBlocks - 1] else []) := by
  have hrange : List.range p.totalBlocks
      = List.range (p.totalBlocks - 1) ++ [p.totalBlocks - 1] := by
    rw [← List.range_succ]
    congr 1
    omega
  rw [blocksWith, hrange, List.filter_append, List.filter_singleton]
  cases P (p.totalBlocks - 1) <;> rfl

/-- Number and size of the blocks, without the last one … -/
theorem sum_blocksWith_of_not_last {P : ℕ → Bool} (hlast : p.totalBlocks - 1 ∉ p.blocksWith P) :
    ((p.blocksWith P).map p.blockLen).sum = (p.blocksWith P).length * p.blockSize := by
  apply sum_blockLen_of_lt
  intro id hid
  have hlt := (mem_blocksWith.mp hid).1
  by_contra hge
  exact hlast ((by omega : p.totalBlocks - 1 = id) ▸ hid)

/-- … and with it. -/
theorem sum_blocksWith_of_last {P : ℕ → Bool} (hlast : p.totalBlocks - 1 ∈ p.blocksWith P) :
    ∃ m, (p.blocksWith P).length = m + 1 ∧
      ((p.blocksWith P).map p.blockLen).sum = m * p.blockSize + p.lastLen := by
  obtain ⟨hlt, hP⟩ := mem_blocksWith.mp hlast
  have hpos : 0 < p.totalBlocks := by omega
  have hlen : p.blockLen (p.totalBlocks - 1) = p.lastLen := by
    rw [blockLen, if_pos (by omega), lastLen]
  have hfull : (((List.range (p.totalBlocks - 1)).filter P).map p.blockLen).sum
      = ((List.range (p.totalBlocks - 1)).filter P).length * p.blockSize := by
    apply sum_blockLen_of_lt
    intro id hid
    have := List.mem_range.mp (List.mem_of_mem_filter hid)
    omega
  refine ⟨((List.range (p.totalBlocks - 1)).filter P).length, ?_, ?_⟩
  · rw [blocksWith_eq hpos, if_pos hP, List.length_append, List.length_singleton]
  · rw [blocksWith_eq hpos, if_pos hP, List.map_append, List.sum_append, hfull, List.map_singleton,
      List.sum_singleton, hlen]

theorem length_blocksWith_le (P : ℕ → Bool) : (p.blocksWith P).length ≤ p.totalBlocks :=
  (List.length_filter_le _ _).trans List.length_range.le

/-- Without the last block there is one block less at most. -/
theorem length_blocksWith_of_not_last {P : ℕ → Bool}
    (hlast : p.totalBlocks - 1 ∉ p.blocksWith P) :
    (p.blocksWith P).length ≤ p.totalBlocks - 1 := by
  rcases Nat.eq_zero_or_pos p.totalBlocks with hzero | hpos
  · have hle := length_blocksWith_le (p := p) P
    omega
  · have hP : P (p.totalBlocks - 1) ≠ true := fun hP =>
      hlast (mem_blocksWith.mpr ⟨by omega, hP⟩)
    rw [blocksWith_eq hpos, if_neg hP, List.append_nil]
    exact (List.length_filter_le _ _).trans List.length_range.le

/-- The last block is not empty, and ends the file. -/
theorem lastLen_spec (hb : 0 < p.blockSize)
    (htotal : p.totalBlocks = Blocks.count p.fileSize p.blockSize) (hpos : 0 < p.totalBlocks) :
    0 < p.lastLen ∧ p.lastLen ≤ p.blockSize ∧
      (p.totalBlocks - 1) * p.blockSize + p.lastLen = p.fileSize := by
  have hstart : (p.totalBlocks - 1) * p.blockSize < p.fileSize := by
    apply (Blocks.lt_count_iff hb _).mp
    omega
  have hend : p.fileSize ≤ (p.totalBlocks - 1) * p.blockSize + p.blockSize :=
    calc p.fileSize
        ≤ Blocks.count p.fileSize p.blockSize * p.blockSize := Blocks.le_count_mul hb
      _ = (p.totalBlocks - 1 + 1) * p.blockSize := by rw [← htotal, Nat.sub_add_cancel hpos]
      _ = (p.totalBlocks - 1) * p.blockSize + p.blockSize := Nat.succ_mul _ _
  unfold lastLen
  omega

/-- The product does not leave 64 bits. -/
theorem bytesOf_eq (hb : 0 < p.blockSize)
    (htotal : p.totalBlocks = Blocks.count p.fileSize p.blockSize) {n : ℕ}
    (hn : n ≤ p.totalBlocks) : p.bytesOf n = min (n * p.blockSize) p.fileSize := by
  have hsize := p.fileSize_lt
  have hblock := p.blockSize_lt
  rw [bytesOf, Nat.mod_eq_of_lt]
  rcases Nat.lt_or_ge n 2 with hsmall | hlarge
  · have hmul : n * p.blockSize ≤ 1 * p.blockSize := Nat.mul_le_mul_right _ (by omega)
    omega
  · -- a block size of two blocks or more is below the file size
    obtain ⟨hlast, -, hend⟩ := lastLen_spec hb htotal (by omega)
    have hfirst : 1 * p.blockSize ≤ (p.totalBlocks - 1) * p.blockSize :=
      Nat.mul_le_mul_right _ (by omega)
    calc n * p.blockSize
        ≤ (p.totalBlocks - 1 + 1) * p.blockSize := Nat.mul_le_mul_right _ (by omega)
      _ = (p.totalBlocks - 1) * p.blockSize + p.blockSize := Nat.succ_mul _ _
      _ < 2 ^ 64 := by omega

theorem dvd_iff_lastLen (hb : 0 < p.blockSize)
    (htotal : p.totalBlocks = Blocks.count p.fileSize p.blockSize) (hpos : 0 < p.totalBlocks) :
    p.blockSize ∣ p.fileSize ↔ p.lastLen = p.blockSize := by
  obtain ⟨hlast, hle, hend⟩ := lastLen_spec hb htotal hpos
  rw [← hend, Nat.dvd_add_right (Nat.dvd_mul_left _ _)]
  constructor
  · intro hdvd
    exact le_antisymm hle (Nat.le_of_dvd hlast hdvd)
  · intro heq
    rw [heq]

/-- **Full blocks, cut off at the size of the file, are the size of the blocks** unless a short last
block is among them and another one is not. -/
theorem bytesOf_blocksWith_iff (hb : 0 < p.blockSize)
    (htotal : p.totalBlocks = Blocks.count p.fileSize p.blockSize) (P : ℕ → Bool) :
    p.bytesOf (p.blocksWith P).length = ((p.blocksWith P).map p.blockLen).sum ↔
      p.totalBlocks - 1 ∉ p.blocksWith P ∨ (p.blocksWith P).length = p.totalBlocks ∨
        p.blockSize ∣ p.fileSize := by
  have hle := length_blocksWith_le (p := p) P
  rw [bytesOf_eq hb htotal hle]
  by_cases hlast : p.totalBlocks - 1 ∈ p.blocksWith P
  · obtain ⟨m, hm, hsum⟩ := sum_blocksWith_of_last hlast
    have hpos : 0 < p.totalBlocks := (mem_blocksWith.mp hlast).1.pos
    obtain ⟨hlastPos, hlastLe, hend⟩ := lastLen_spec hb htotal hpos
    rw [hm] at hle
    rw [hm, hsum, dvd_iff_lastLen hb htotal hpos]
    rcases hle.lt_or_eq with hmissing | hall
    · -- a block is missing: the full blocks fit in front of the last one
      have hfits : (m + 1) * p.blockSize ≤ (p.totalBlocks - 1) * p.blockSize :=
        Nat.mul_le_mul_right _ (by omega)
      rw [min_eq_left (by omega), Nat.succ_mul]
      constructor
      · intro heq
        exact Or.inr (Or.inr (by omega))
      · rintro (hnot | hfull | hdvd)
        · exact absurd hlast hnot
        · omega
        · omega
    · have hmeq : m = p.totalBlocks - 1 := by omega
      have hbeyond : p.fileSize ≤ (m + 1) * p.blockSize := by
        rw [Nat.succ_mul, hmeq]
        omega
      rw [min_eq_right hbeyond, hmeq, hend]
      exact ⟨fun _ => Or.inr (Or.inl (by omega)), fun _ => rfl⟩
  · rw [sum_blocksWith_of_not_last hlast]
    refine ⟨fun _ => Or.inl hlast, fun _ => min_eq_left ?_⟩
    -- without the last block, what is counted ends where it starts
    have hbefore := length_blocksWith_of_not_last hlast
    calc (p.blocksWith P).length * p.blockSize
        ≤ (p.totalBlocks - 1) * p.blockSize := Nat.mul_le_mul_right _ hbefore
      _ ≤ p.fileSize := by
        rcases Nat.eq_zero_or_pos p.totalBlocks with hzero | hpos
        · simp [hzero]
        · have hend := (lastLen_spec hb htotal hpos).2.2
          omega

end RecvParams

namespace RecvFile

variable {C : Crates} {p : RecvParams} {rng : ℕ → Vector UInt8 4} {now : ℕ} {disk : Disk}
  {s : RecvFile C.raptorq}

/-! ## The blocks a transfer has at the end -/

/-- The writer has marked what it has taken, and leaves its loop when it has written as many blocks
as there are, or when nothing is left and nothing can come. -/
structure Drained {Q : RaptorQ} (p : RecvParams) (s : RecvFile Q) : Prop where
  looping : s.writer = .looping → ∃ taken, s.log.delivered = taken ++ s.channel ∧
    ∀ block ∈ taken, s.resume.isComplete block.blockId = true
  stopped : s.writer = .awaiting ∨ s.writer.finished = true →
    p.totalBlocks ≤ s.blocksWritten ∨
      s.task.ended = true ∧ ∀ block ∈ s.log.delivered, s.resume.isComplete block.blockId = true

theorem drained_start (Q : RaptorQ) (rng : ℕ → Vector UInt8 4) (now : ℕ) (disk : Disk) :
    (start Q p rng now disk).Drained p where
  looping := fun _ => ⟨[], rfl, by simp⟩
  stopped := by
    rintro (h | h)
    · cases h
    · cases h

/-- A step of the receive task that puts nothing on the channel. -/
theorem Drained.of_task {Q : RaptorQ} {s s' : RecvFile Q} (h : s.Drained p)
    (hwriter : s'.writer = s.writer) (hwritten : s'.blocksWritten = s.blocksWritten)
    (hresume : s'.resume = s.resume) (hchannel : s'.channel = s.channel)
    (hdelivered : s'.log.delivered = s.log.delivered)
    (htask : s.task.ended = true → s'.task.ended = true) : s'.Drained p := by
  constructor
  · rw [hwriter, hchannel, hdelivered, hresume]
    exact h.looping
  · rw [hwriter, hwritten, hdelivered, hresume]
    exact fun hw => (h.stopped hw).imp_right fun hend => ⟨htask hend.1, hend.2⟩

/-- The writer has failed. -/
theorem Drained.of_failed {Q : RaptorQ} {s : RecvFile Q} (hloop : s.writer ≠ .looping)
    (hwait : s.writer ≠ .awaiting) (hfin : s.writer.finished = false) : s.Drained p where
  looping := fun h => absurd h hloop
  stopped := by
    rintro (h | h)
    · exact absurd h hwait
    · rw [hfin] at h
      cases h

/-- **A block that is taken is marked**, if it can be. -/
theorem Drained.take {s s' : RecvFile C.raptorq} (h : s.Drained p) (hrec : s.Recorded p)
    (hwriter : s.writer = .looping) {block : ReceivedBlock} {rest : List ReceivedBlock}
    (hchannel : s.channel = block :: rest) (hid : block.blockId < p.totalBlocks)
    {save : SaveOutcome} (htake : TakeCases C p save { s with channel := rest } block s') :
    s'.Drained p := by
  obtain ⟨taken, heq, hmarked⟩ := h.looping hwriter
  have hsplit : s.log.delivered = (taken ++ [block]) ++ rest := by
    rw [heq, hchannel, List.append_assoc, List.singleton_append]
  have htaken : ∀ resume : ResumeState, resume.isComplete block.blockId = true →
      (∀ id, s.resume.isComplete id = true → resume.isComplete id = true) →
      ∀ b ∈ taken ++ [block], resume.isComplete b.blockId = true := by
    intro resume hblock hkept
    exact List.forall_mem_append.mpr
      ⟨fun b hb => hkept _ (hmarked b hb), List.forall_mem_singleton.mpr hblock⟩
  cases htake with
  | skipped hdone =>
      refine ⟨fun _ => ⟨_, hsplit, htaken _ hdone fun _ hid => hid⟩, fun hw => ?_⟩
      rw [show _ = WriterTask.looping from hwriter] at hw
      rcases hw with hw | hw <;> cases hw
  | rangeFault | sliceFault | markFault =>
      exact .of_failed WriterTask.noConfusion WriterTask.noConfusion rfl
  | wrote offset len resume hnew hrange hlen hmark =>
      have hbit : block.blockId < s.resume.completedBlocks.length := hrec.bitmap.lt_length hid
      have hcomplete := ResumeState.isComplete_markComplete hmark hbit
      refine ⟨fun _ => ⟨_, hsplit, htaken _ ?_ fun id hold => ?_⟩, fun hw => Or.inl ?_⟩
      · rw [recordBlock_resume, hcomplete, decide_eq_true rfl, Bool.true_or]
      · rw [recordBlock_resume, hcomplete, show _ = true from hold, Bool.or_true]
      · simp only [recordBlock] at hw ⊢
        split at hw
        · assumption
        · rcases hw with hw | hw <;> cases hw

/-- **Every step keeps track of what has arrived.** -/
theorem Drained.step {s s' : RecvFile C.raptorq} {e : RecvEvent} (h : s.Drained p)
    (hrec : s.Recorded p) (hids : ∀ block ∈ s.channel, block.blockId < p.totalBlocks)
    (hstep : RecvFile.step C p s e = some s') : s'.Drained p := by
  cases step_cases hstep with
  | datagram now data r res htask =>
      exact h.of_task rfl rfl rfl rfl rfl fun hend => by simp [htask, RecvTask.ended] at hend
  | recvError => exact h
  | idleTimeout | exitAll | sendFailed => exact h.of_task rfl rfl rfl rfl rfl fun _ => rfl
  | send block htask =>
      constructor
      · intro hw
        obtain ⟨taken, heq, hmarked⟩ := h.looping hw
        exact ⟨taken, by simp only [pushBlock, heq, List.append_assoc], hmarked⟩
      · intro hw
        refine Or.inl ((h.stopped hw).resolve_right fun hend => ?_)
        simp [htask, RecvTask.ended] at hend
  | take save block rest s' hwriter hchannel htake =>
      exact h.take hrec hwriter hchannel (hids block (by simp [hchannel])) htake
  | writeFails n block rest s' hwriter hchannel hnew hfail =>
      cases hfail with
      | _ => exact .of_failed WriterTask.noConfusion WriterTask.noConfusion rfl
  | channelEnd hwriter hchannel hended =>
      obtain ⟨taken, heq, hmarked⟩ := h.looping hwriter
      rw [hchannel, List.append_nil] at heq
      refine ⟨fun hw => (by cases hw), fun _ => Or.inr ⟨hended, ?_⟩⟩
      intro block hblock
      exact hmarked block (heq ▸ hblock)
  | finish save why hwriter htask =>
      exact ⟨fun hw => (by cases hw), fun _ => h.stopped (Or.inl hwriter)⟩
  | joinFails | ioFails => exact .of_failed WriterTask.noConfusion WriterTask.noConfusion rfl

/-- A block of the transfer was marked when the resume state was loaded, or has arrived. -/
def received {Q : RaptorQ} (s₀ s : RecvFile Q) (id : ℕ) : Bool :=
  s₀.resume.isComplete id || s.log.delivered.any fun block => decide (block.blockId = id)

/-- Marks stay. -/
theorem isComplete_step {s s' : RecvFile C.raptorq} {e : RecvEvent}
    (hstep : RecvFile.step C p s e = some s') {id : ℕ} (h : s.resume.isComplete id = true) :
    s'.resume.isComplete id = true := by
  cases step_cases hstep with
  | take save block rest s' hwriter hchannel htake =>
      cases htake with
      | wrote offset len resume hnew hrange hlen hmark =>
          by_cases hbit : block.blockId < s.resume.completedBlocks.length
          · rw [recordBlock_resume, ResumeState.isComplete_markComplete hmark hbit,
              show _ = true from h, Bool.or_true]
          · have hsame := ResumeState.markComplete_of_ge
              (C.blake3 (block.data.take len)) (not_lt.mp hbit)
            rw [recordBlock_resume, ← Except.ok.inj (hsame.symm.trans hmark)]
            exact h
      | _ => exact h
  | writeFails n block rest s' hwriter hchannel hnew hfail => cases hfail <;> exact h
  | _ => exact h

/-- The writer's totals, and those it has returned. -/
structure Totals {Q : RaptorQ} (p : RecvParams) (s : RecvFile Q) : Prop where
  bytesWritten : s.bytesWritten = p.bytesOf s.blocksWritten
  done : ∀ result, s.writer = .done result →
    result.fileSize = s.bytesWritten ∧ result.blocksReceived = s.blocksWritten

theorem totals_start (Q : RaptorQ) (rng : ℕ → Vector UInt8 4) (now : ℕ) (disk : Disk) :
    (start Q p rng now disk).Totals p := ⟨rfl, fun _ h => (by cases h)⟩

theorem Totals.step {s s' : RecvFile C.raptorq} {e : RecvEvent} (h : s.Totals p)
    (hstep : RecvFile.step C p s e = some s') : s'.Totals p := by
  cases step_cases hstep with
  | take save block rest s' hwriter hchannel htake =>
      cases htake with
      | skipped => exact ⟨h.bytesWritten, h.done⟩
      | rangeFault | sliceFault | markFault => exact ⟨h.bytesWritten, fun _ hw => (by cases hw)⟩
      | wrote =>
          refine ⟨rfl, fun result hw => ?_⟩
          simp only [recordBlock] at hw
          split at hw <;> cases hw
  | writeFails n block rest s' hwriter hchannel hnew hfail =>
      cases hfail with
      | _ => exact ⟨h.bytesWritten, fun _ hw => (by cases hw)⟩
  | finish =>
      refine ⟨h.bytesWritten, fun result hw => ?_⟩
      obtain rfl := WriterTask.done.inj hw
      exact ⟨rfl, rfl⟩
  | channelEnd | joinFails | ioFails => exact ⟨h.bytesWritten, fun _ hw => (by cases hw)⟩
  | _ => exact ⟨h.bytesWritten, h.done⟩

theorem totals_of_reaches {P : RecvFile C.raptorq → RecvEvent → Prop}
    (hrun : Reaches (RecvFile.step C p) P (start C.raptorq p rng now disk) s) : s.Totals p :=
  hrun.invariant (totals_start _ _ _ _) fun _ _ _ hinv _ hs => hinv.step hs

section

variable (hb : 1 ≤ p.blockSize) (htotal : p.totalBlocks = Blocks.count p.fileSize p.blockSize)
  (hdisk : disk.Sound)
  (hrun : Reaches (RecvFile.step C p) (IdsBelow C p) (start C.raptorq p rng now disk) s)
include hb htotal hdisk hrun

theorem recorded_of_idsBelow : s.Recorded p :=
  recorded_of_reaches ⟨hb, htotal.le⟩ (fun _ _ h => h) hdisk arrivals_of_idsBelow hrun

theorem drained_of_reaches : s.Drained p := by
  apply hrun.invariant_along (drained_start _ _ _ _)
  intro u e u' hu hinv _ hs
  refine hinv.step (recorded_of_idsBelow hb htotal hdisk hu) (fun block hblock => ?_) hs
  have hmem := (bookkeeping_of_reaches hu).mem_decodedBlocks hblock
  obtain ⟨-, hlt⟩ :=
    ((provenance_of_reaches arrivals_of_idsBelow hu).blocks block hmem).exists_packet
  exact hlt

/-- **When `receive_file` returns, the marked blocks are those that were loaded and those that
arrived.** -/
theorem isComplete_eq_received {result : RecvResult} (hdone : s.writer = .done result) {id : ℕ}
    (hid : id < p.totalBlocks) :
    s.resume.isComplete id = received (start C.raptorq p rng now disk) s id := by
  have hrec := recorded_of_idsBelow hb htotal hdisk hrun
  rw [Bool.eq_iff_iff, received, Bool.or_eq_true, List.any_eq_true]
  simp only [decide_eq_true_eq]
  constructor
  · intro h
    exact delivered_of_isComplete hrun h
  · rintro (hloaded | ⟨block, hblock, rfl⟩)
    · exact hrun.invariant (I := fun u => u.resume.isComplete id = true) hloaded
        fun _ _ _ hmarked _ hs => isComplete_step hs hmarked
    · have hfinished : s.writer.finished = true := by
        rw [hdone]
        rfl
      rcases (drained_of_reaches hb htotal hdisk hrun).stopped (Or.inr hfinished) with
        hall | ⟨-, hmarked⟩
      · -- as many blocks are written as there are
        rw [hrec.blocksWritten_eq, ← hrec.totalBlocks_eq] at hall
        apply hrec.wellFormed.isTransferComplete_iff.mp (decide_eq_true hall)
        rwa [hrec.totalBlocks_eq]
      · exact hmarked block hblock

/-- **The reported number of blocks is right, and the reported size is right exactly if** the last
block has not been received, all blocks have, or the last block is as long as the others. -/
theorem reportedSize_iff {result : RecvResult} (hdone : s.writer = .done result) :
    let ids := p.blocksWith (received (start C.raptorq p rng now disk) s)
    (result.fileSize = (ids.map p.blockLen).sum ∧ result.blocksReceived = ids.length) ↔
      p.totalBlocks - 1 ∉ ids ∨ ids.length = p.totalBlocks ∨ p.blockSize ∣ p.fileSize := by
  intro ids
  have hrec := recorded_of_idsBelow hb htotal hdisk hrun
  have htotals := totals_of_reaches hrun
  obtain ⟨hsize, hcount⟩ := htotals.done result hdone
  have hids : ids = s.resume.completeIds := by
    rw [ResumeState.completeIds, hrec.totalBlocks_eq]
    apply List.filter_congr
    intro id hid
    exact (isComplete_eq_received hb htotal hdisk hrun hdone (List.mem_range.mp hid)).symm
  have hlen : result.blocksReceived = ids.length := by
    rw [hcount, hids, hrec.wellFormed.length_completeIds, hrec.blocksWritten_eq]
  have hbytes : result.fileSize = p.bytesOf ids.length := by
    rw [hsize, htotals.bytesWritten, ← hcount, hlen]
  rw [hbytes, and_iff_left hlen]
  exact RecvParams.bytesOf_blocksWith_iff hb htotal _

end

/-! ## A transfer that stops early -/

/-- The packet of the second block arrives, of one byte, and then nothing for ten seconds. -/
def lastBlockOnly : List RecvEvent :=
  [.datagram Small.clock (Small.sent.getD 1 []), .send, .take .failed, .idleTimeout, .channelEnd,
    .finish .written]

/-- The transfer ends with a report of one block and four bytes. -/
theorem lastBlockOnly_run :
    ∃ s result, Reaches (RecvFile.step PlainCrates.plainCrates Small.params)
        (IdsBelow PlainCrates.plainCrates Small.params)
        (start _ Small.params Small.rng 0 Small.disk) s ∧
      s.writer = .done result ∧ result.fileSize = 4 ∧ result.blocksReceived = 1 ∧
      s.log.delivered.map (·.blockId) = [1] := by
  obtain ⟨s, hs, hcheck⟩ := exists_of_runAll (RecvFile.step PlainCrates.plainCrates Small.params)
    (start _ Small.params Small.rng 0 Small.disk) lastBlockOnly
    (fun s => s.writer.finished && decide (s.bytesWritten = 4) && decide (s.blocksWritten = 1) &&
      decide (s.log.delivered.map (·.blockId) = [1])) (by decide +kernel)
  have hallowed := Small.allowedAlong_of_datagramsAll (p := Small.params)
    (fun data => ((Small.params.opens PlainCrates.plainCrates data).all fun o =>
      decide (o.1 < Small.params.totalBlocks))) lastBlockOnly
    (P := IdsBelow PlainCrates.plainCrates Small.params) (by decide +kernel)
    (fun u e h now data he id plain hopen => by simpa [hopen] using h now data he)
    (start _ Small.params Small.rng 0 Small.disk)
  have hrun := Reaches.of_runAll hs hallowed
  simp only [Bool.and_eq_true, decide_eq_true_eq] at hcheck
  obtain ⟨⟨⟨hfinished, hbytes⟩, hblocks⟩, hdelivered⟩ := hcheck
  obtain ⟨result, hdone⟩ := WriterTask.exists_of_finished hfinished
  obtain ⟨hsize, hcount⟩ := (totals_of_reaches hrun).done result hdone
  exact ⟨s, result, hrun, hdone, hsize.trans hbytes, hcount.trans hblocks, hdelivered⟩

theorem reportedSize_iff_lastBlock :
    ∃ s result, s.writer = .done result ∧
      let ids := Small.params.blocksWith
        (received (start PlainCrates.plainCrates.raptorq Small.params Small.rng 0 Small.disk) s)
      (result.fileSize = (ids.map Small.params.blockLen).sum ∧
          result.blocksReceived = ids.length) ↔
        Small.params.totalBlocks - 1 ∉ ids ∨ ids.length = Small.params.totalBlocks ∨
          Small.params.blockSize ∣ Small.params.fileSize := by
  obtain ⟨s, result, hrun, hdone, -⟩ := lastBlockOnly_run
  exact ⟨s, result, hdone, reportedSize_iff (C := PlainCrates.plainCrates) (by decide) (by decide)
    (fun st hst => by cases hst) hrun hdone⟩

/-- **A last block of one byte is reported as a block of four.** -/
theorem lastBlock_not_reported :
    ¬ ∀ (s : RecvFile PlainCrates.plainCrates.raptorq) (result : RecvResult),
      Reaches (RecvFile.step PlainCrates.plainCrates Small.params)
        (IdsBelow PlainCrates.plainCrates Small.params)
        (start _ Small.params Small.rng 0 Small.disk) s →
      s.writer = .done result →
      result.fileSize = ((Small.params.blocksWith (received
        (start _ Small.params Small.rng 0 Small.disk) s)).map Small.params.blockLen).sum := by
  intro h
  obtain ⟨s, result, hrun, hdone, hsize, -, hdelivered⟩ := lastBlockOnly_run
  have hreceived : received (start _ Small.params Small.rng 0 Small.disk) s
      = fun id => decide (1 = id) := by
    funext id
    have hnew : (start PlainCrates.plainCrates.raptorq Small.params Small.rng 0
        Small.disk).resume.isComplete id = false := ResumeState.isComplete_new _ _ _ _ id
    have hany : s.log.delivered.any (fun block => decide (block.blockId = id))
        = (s.log.delivered.map (·.blockId)).any fun id' => decide (id' = id) := by
      rw [List.any_map]
      rfl
    rw [received, hnew, hany, hdelivered]
    simp
  have hsum := h s result hrun hdone
  rw [hsize, hreceived] at hsum
  exact absurd hsum (by decide)

end RecvFile

end Updown
