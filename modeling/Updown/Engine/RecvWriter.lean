import Updown.Engine.RecvInvariants

set_option autoImplicit false

/-! # Invariants of the writer

`Recorded` says that the writer's count, its bitmap and the file agree in size and number as long
as block ids are in range. A block marked in the resume state was marked when it was loaded, or is
one the writer was handed since (`delivered_of_isComplete`).
-/

namespace Updown

/-- A resume file on disk has the shape `save` gives it. -/
def Disk.Sound (d : Disk) : Prop := ∀ st, d.resume = some (.saved st) → st.WellFormed

namespace RecvFile

variable {C : Crates} {p : RecvParams}

/-! ## The parts of a written block -/

@[simp] theorem write_resume {Q : RaptorQ} (s : RecvFile Q) (offset : ℕ) (chunk : Bytes) :
    (s.write offset chunk).resume = s.resume := rfl

@[simp] theorem write_file {Q : RaptorQ} (s : RecvFile Q) (offset : ℕ) (chunk : Bytes) :
    (s.write offset chunk).file = Blocks.patch 0 s.file offset chunk := rfl

@[simp] theorem recordBlock_file {Q : RaptorQ} (save : SaveOutcome) (s : RecvFile Q)
    (block : ReceivedBlock) (resume : ResumeState) :
    (s.recordBlock p save block resume).file = s.file := rfl

@[simp] theorem recordBlock_resume {Q : RaptorQ} (save : SaveOutcome) (s : RecvFile Q)
    (block : ReceivedBlock) (resume : ResumeState) :
    (s.recordBlock p save block resume).resume = resume := rfl

@[simp] theorem recordBlock_blocksWritten {Q : RaptorQ} (save : SaveOutcome) (s : RecvFile Q)
    (block : ReceivedBlock) (resume : ResumeState) :
    (s.recordBlock p save block resume).blocksWritten = s.blocksWritten + 1 := rfl

/-- The resume file after an attempt to save is the old one, a torn one, or the state saved. -/
theorem SaveOutcome.apply_saved {o : SaveOutcome} {st st' : ResumeState} {old : Option ResumeFile}
    (h : o.apply st old = some (.saved st')) : st' = st ∨ old = some (.saved st') := by
  cases o with
  | written => exact Or.inl (ResumeFile.saved.inj (Option.some.inj h)).symm
  | failed => exact Or.inr h
  | torn => cases h

/-- **What a step leaves in the resume file** is the state of the writer or what was there. -/
theorem step_saved {s s' : RecvFile C.raptorq} {e : RecvEvent} {st : ResumeState}
    (hstep : RecvFile.step C p s e = some s') (h : s'.resumeFile = some (.saved st)) :
    st = s'.resume ∨ s.resumeFile = some (.saved st) := by
  cases step_cases hstep with
  | take save block rest s' hwriter hchannel htake =>
      cases htake with
      | wrote offset len resume =>
          simp only [recordBlock] at h
          split at h
          · exact SaveOutcome.apply_saved h
          · exact Or.inr h
      | skipped | rangeFault | sliceFault | markFault => exact Or.inr h
  | writeFails n block rest s' hwriter hchannel hnew hfail => cases hfail <;> exact Or.inr h
  | finish save why hwriter htask =>
      simp only [finishTransfer] at h
      split at h
      · cases h
      · exact SaveOutcome.apply_saved h
  | _ => exact Or.inr h

/-! ## Counts, bitmap and file -/

/-- The writer's records agree. -/
structure Recorded {Q : RaptorQ} (p : RecvParams) (s : RecvFile Q) : Prop where
  wellFormed : s.resume.WellFormed
  fileSize_eq : s.resume.fileSize = p.fileSize
  blockSize_eq : s.resume.blockSize = p.blockSize
  totalBlocks_eq : s.resume.totalBlocks = p.totalBlocks
  blocksWritten_eq : s.blocksWritten = s.resume.completedCount
  length_file : s.file.length = p.fileSize
  writes_le : ∀ w ∈ s.log.writes, w.1 + w.2 ≤ p.fileSize

/-- The writer starts with the state that was loaded, or with a new one. -/
theorem start_resume (Q : RaptorQ) (rng : ℕ → Vector UInt8 4) (now : ℕ) (disk : Disk) :
    (disk.resume = some (.saved (start Q p rng now disk).resume) ∨
      (start Q p rng now disk).resume = .new p.sessionId p.fileSize p.blockSize p.totalBlocks) ∧
    (start Q p rng now disk).resume.fileSize = p.fileSize ∧
    (start Q p rng now disk).resume.blockSize = p.blockSize ∧
    (start Q p rng now disk).resume.totalBlocks = p.totalBlocks := by
  cases hload : (ResumeState.load disk.resume p.fileSize p.blockSize p.totalBlocks).1 with
  | none =>
      have hresume : (start Q p rng now disk).resume
          = .new p.sessionId p.fileSize p.blockSize p.totalBlocks := by simp [start, hload]
      rw [hresume]
      exact ⟨Or.inr rfl, rfl, rfl, rfl⟩
  | some st =>
      have hresume : (start Q p rng now disk).resume = st := by simp [start, hload]
      obtain ⟨hfile, hparams⟩ := ResumeState.load_eq_some hload
      rw [hresume]
      exact ⟨Or.inl hfile, hparams⟩

/-- The resume file a transfer starts with is the state it starts with. -/
theorem start_saved {Q : RaptorQ} {rng : ℕ → Vector UInt8 4} {now : ℕ} {disk : Disk}
    {st : ResumeState} (h : (start Q p rng now disk).resumeFile = some (.saved st)) :
    st = (start Q p rng now disk).resume := by
  have hload := ResumeState.load_snd_saved h
  simp [start, hload]

theorem recorded_start (Q : RaptorQ) (rng : ℕ → Vector UInt8 4) (now : ℕ) {disk : Disk}
    (hdisk : disk.Sound) : (start Q p rng now disk).Recorded p := by
  obtain ⟨horigin, hf, hb, ht⟩ := start_resume (p := p) Q rng now disk
  refine ⟨?_, hf, hb, ht, rfl, by simp [start], by simp [start]⟩
  rcases horigin with hfile | hnew
  · exact hdisk _ hfile
  · rw [hnew]
    exact ResumeState.wellFormed_new p.totalBlocks_lt

/-- A block of the transfer that is not marked can be marked and counted. -/
theorem Recorded.canRecord {Q : RaptorQ} {s : RecvFile Q} (h : s.Recorded p) {id : ℕ}
    (hid : id < p.totalBlocks) (hnew : s.resume.isComplete id = false) : s.CanRecord id := by
  have hid' : id < s.resume.totalBlocks := h.totalBlocks_eq.symm ▸ hid
  have htotal := h.wellFormed.total_lt
  have hlt := h.wellFormed.completedCount_lt hid' hnew
  rw [← h.blocksWritten_eq] at hlt
  exact ⟨fun _ => h.wellFormed.hashes_length ▸ hid', by omega⟩

/-- A step that leaves the writer's records alone keeps them in agreement. -/
theorem Recorded.of_eq {Q : RaptorQ} {s s' : RecvFile Q} (h : s.Recorded p)
    (hresume : s'.resume = s.resume) (hwritten : s'.blocksWritten = s.blocksWritten)
    (hfile : s'.file.length = s.file.length)
    (hwrites : ∀ w ∈ s'.log.writes, w ∈ s.log.writes ∨ w.1 + w.2 ≤ p.fileSize) :
    s'.Recorded p :=
  ⟨hresume ▸ h.wellFormed, hresume ▸ h.fileSize_eq, hresume ▸ h.blockSize_eq,
    hresume ▸ h.totalBlocks_eq, by rw [hwritten, hresume, h.blocksWritten_eq],
    hfile.trans h.length_file, fun w hw => (hwrites w hw).elim (h.writes_le w) id⟩

/-- **Taking a block in range keeps the records in agreement.** -/
theorem Recorded.take {save : SaveOutcome} {s s' : RecvFile C.raptorq} {block : ReceivedBlock}
    (h : s.Recorded p) (hfits : p.Fits) (hid : block.blockId < p.totalBlocks)
    (htake : TakeCases C p save s block s') : s'.Recorded p := by
  cases htake with
  | skipped => exact h
  | rangeFault | sliceFault => exact h.of_eq rfl rfl rfl (fun w hw => Or.inl hw)
  | markFault offset len fault hnew hrange hlen hmark =>
      exact absurd hmark ((h.canRecord hid hnew).markBlock_ne_error _ _)
  | wrote offset len resume hnew hrange hlen hmark =>
      obtain ⟨rfl, rfl⟩ := RecvParams.writeRange_eq_ok hrange
      have hend := hfits.end_le hid
      have hchunk : (block.data.take (p.blockLen block.blockId)).length
          = p.blockLen block.blockId := by simp [hlen]
      have hid' : block.blockId < s.resume.totalBlocks := h.totalBlocks_eq.symm ▸ hid
      obtain ⟨hf, hb, ht, -, -⟩ := ResumeState.markComplete_frame hmark
      refine ⟨h.wellFormed.mark hmark, hf.trans h.fileSize_eq, hb.trans h.blockSize_eq,
        ht.trans h.totalBlocks_eq, ?_, ?_, ?_⟩
      · rw [recordBlock_blocksWritten, recordBlock_resume,
          h.wellFormed.completedCount_markComplete hmark hid' hnew, ← h.blocksWritten_eq]
        rfl
      · rw [recordBlock_file, write_file, Blocks.length_patch, h.length_file]
        rwa [hchunk, h.length_file]
      · refine List.forall_mem_append.mpr ⟨h.writes_le, List.forall_mem_singleton.mpr ?_⟩
        rw [hchunk]
        exact hend

/-- A failing write stays in range as well. -/
theorem Recorded.fail {n : ℕ} {s s' : RecvFile C.raptorq} {block : ReceivedBlock}
    (h : s.Recorded p) (hfits : p.Fits) (hid : block.blockId < p.totalBlocks)
    (hfail : FailCases p n s block s') : s'.Recorded p := by
  cases hfail with
  | rangeFault | sliceFault => exact h.of_eq rfl rfl rfl (fun w hw => Or.inl hw)
  | partly offset len hrange hlen =>
      obtain ⟨rfl, rfl⟩ := RecvParams.writeRange_eq_ok hrange
      have hend := hfits.end_le hid
      have hchunk : ((block.data.take (p.blockLen block.blockId)).take n).length
          ≤ p.blockLen block.blockId := by
        rw [List.length_take, List.length_take]
        omega
      have hfile := h.length_file
      refine h.of_eq rfl rfl ?_ ?_
      · exact Blocks.length_patch (by omega)
      · intro w hw
        have hw' : w ∈ s.log.writes ++ [(block.blockId * p.blockSize,
            ((block.data.take (p.blockLen block.blockId)).take n).length)] := hw
        rcases List.mem_append.mp hw' with hold | hnew'
        · exact Or.inl hold
        · rw [List.mem_singleton.mp hnew']
          exact Or.inr (by omega)

/-- **Every step keeps the records in agreement** when the ids on the channel are in range. -/
theorem Recorded.step {s s' : RecvFile C.raptorq} {e : RecvEvent} (h : s.Recorded p)
    (hfits : p.Fits) (hids : ∀ block ∈ s.channel, block.blockId < p.totalBlocks)
    (hstep : RecvFile.step C p s e = some s') : s'.Recorded p := by
  have hsame : ∀ t : RecvFile C.raptorq, t.resume = s.resume → t.blocksWritten = s.blocksWritten →
      t.file = s.file → t.log.writes = s.log.writes → t.Recorded p :=
    fun t h1 h2 h3 h4 => h.of_eq h1 h2 (by rw [h3]) (fun w hw => Or.inl (h4 ▸ hw))
  cases step_cases hstep with
  | datagram => exact hsame _ rfl rfl rfl rfl
  | recvError => exact h
  | idleTimeout => exact hsame _ rfl rfl rfl rfl
  | exitAll => exact hsame _ rfl rfl rfl rfl
  | send => exact hsame _ rfl rfl rfl rfl
  | sendFailed => exact hsame _ rfl rfl rfl rfl
  | take save block rest s' hwriter hchannel htake =>
      have hrest : ({ s with channel := rest } : RecvFile C.raptorq).Recorded p :=
        hsame _ rfl rfl rfl rfl
      exact hrest.take hfits (hids block (by simp [hchannel])) htake
  | writeFails n block rest s' hwriter hchannel hnew hfail =>
      have hrest : ({ s with channel := rest } : RecvFile C.raptorq).Recorded p :=
        hsame _ rfl rfl rfl rfl
      exact hrest.fail hfits (hids block (by simp [hchannel])) hfail
  | channelEnd => exact hsame _ rfl rfl rfl rfl
  | finish => exact hsame _ rfl rfl rfl rfl
  | joinFails => exact hsame _ rfl rfl rfl rfl
  | ioFails => exact hsame _ rfl rfl rfl rfl

/-- Blocks on the channel are decoded blocks. -/
theorem Bookkeeping.mem_decodedBlocks {Q : RaptorQ} {s : RecvFile Q} (h : s.Bookkeeping p)
    {block : ReceivedBlock} (hblock : block ∈ s.channel) : block ∈ s.decodedBlocks := by
  obtain ⟨taken, htaken⟩ := h.taken
  simp [decodedBlocks, htaken, hblock]

/-- **Only blocks that were delivered get marked.** -/
theorem delivered_of_isComplete {rng : ℕ → Vector UInt8 4} {now : ℕ} {disk : Disk}
    {P : RecvFile C.raptorq → RecvEvent → Prop} {s : RecvFile C.raptorq}
    (h : Transition.Reaches (RecvFile.step C p) P (start C.raptorq p rng now disk) s) {id : ℕ}
    (hid : s.resume.isComplete id = true) :
    (start C.raptorq p rng now disk).resume.isComplete id = true ∨
      ∃ block ∈ s.log.delivered, block.blockId = id := by
  set s₀ := start C.raptorq p rng now disk with hs₀
  refine h.invariant_along (I := fun u => ∀ id, u.resume.isComplete id = true →
    s₀.resume.isComplete id = true ∨ ∃ block ∈ u.log.delivered, block.blockId = id)
    (fun _ => Or.inl) (fun u e u' hu hinv _ hs id hid => ?_) id hid
  have htaken := (bookkeeping_of_reaches hu).taken
  cases step_cases hs with
  | send block =>
      refine (hinv id hid).imp_right fun ⟨block', hmem, heq⟩ => ⟨block', ?_, heq⟩
      exact List.mem_append_left _ hmem
  | take save block rest s' hwriter hchannel htake =>
      cases htake with
      | wrote offset len resume hnew hrange hlen hmark =>
          rcases ResumeState.isComplete_of_markComplete hmark hid with rfl | hold
          · obtain ⟨taken, heq⟩ := htaken
            refine Or.inr ⟨block, ?_, rfl⟩
            show block ∈ u.log.delivered
            simp [heq, hchannel]
          · exact hinv id hold
      | _ => exact hinv id hid
  | writeFails n block rest s' hwriter hchannel hnew hfail =>
      cases hfail with
      | _ => exact hinv id hid
  | _ => exact hinv id hid

/-- **The records agree in every state reached**, when packets that authenticate carry ids below
`total_blocks`. -/
theorem recorded_of_reaches {K : ℕ → C.raptorq.Packet → Prop} (hfits : p.Fits)
    (hK : ∀ id q, K id q → id < p.totalBlocks) {rng : ℕ → Vector UInt8 4} {now : ℕ} {disk : Disk}
    (hdisk : disk.Sound) {P : RecvFile C.raptorq → RecvEvent → Prop} {s : RecvFile C.raptorq}
    (hP : ∀ s e, P s e → Arrivals C p K s e)
    (h : Transition.Reaches (RecvFile.step C p) P (start C.raptorq p rng now disk) s) :
    s.Recorded p := by
  refine h.invariant_along (recorded_start _ _ _ hdisk) fun u e u' hu hrec _ hs => ?_
  refine hrec.step hfits (fun block hblock => ?_) hs
  have hmem := (bookkeeping_of_reaches hu).mem_decodedBlocks hblock
  obtain ⟨q, hq⟩ := ((provenance_of_reaches hP hu).blocks block hmem).exists_packet
  exact hK _ q hq

end RecvFile

end Updown
