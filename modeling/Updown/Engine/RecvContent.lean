import Updown.Engine.RecvWriter

set_option autoImplicit false

/-! # What the output file holds

The packets of a source `S` are `GenuineOn G` when those of the blocks in `G` are packets of the
blocks of `S` and all ids are in range. Under such arrivals a decoded block of `G` is the source's
(`data_eq_of_reaches`), and `Content` says what the file holds: the blocks the resume state had
marked are as they were found on disk, and the blocks of `G` marked since are the source's.
-/

namespace Updown.RecvFile

variable {C : Crates} {p : RecvParams} {S : Bytes} {G : ℕ → Prop}

/-- Packets of blocks in range; those of the blocks in `G` are packets of the source's blocks. -/
def GenuineOn (C : Crates) (p : RecvParams) (S : Bytes) (G : ℕ → Prop) (id : ℕ)
    (q : C.raptorq.Packet) : Prop :=
  id < p.totalBlocks ∧ (G id → C.raptorq.IsPacketOf (Blocks.block p.blockSize S id) q)

/-- The blocks in `G` have the length of the source's blocks. -/
structure SizedOn (p : RecvParams) (S : Bytes) (G : ℕ → Prop) : Prop where
  fits : p.Fits
  fileSize_eq : p.fileSize = S.length
  blockLen_eq : ∀ id < p.totalBlocks, G id →
    p.blockLen id = (Blocks.block p.blockSize S id).length

theorem sizedOn_of_for (h : p.For S) (G : ℕ → Prop) : SizedOn p S G :=
  ⟨h.fits, h.fileSize_eq, fun _ hid _ => h.blockLen hid⟩

/-- **What is decoded from the source's packets is the source's block.** -/
theorem DecodedFrom.genuine (hC : C.Correct) (hS : SizedOn p S G) {id : ℕ} {data : Bytes}
    (h : DecodedFrom C p (GenuineOn C p S G) id data) :
    id < p.totalBlocks ∧ (G id → data = Blocks.block p.blockSize S id) := by
  obtain ⟨q, hid, -⟩ := h.exists_packet
  refine ⟨hid, fun hG => ?_⟩
  refine h.eq hC ?_ fun q' hq' => hq'.2 hG
  rw [hS.fits.decoderLen hid, hS.blockLen_eq _ hid hG]

/-- **Decoded blocks are the source's blocks.** -/
theorem data_eq_of_reaches (hC : C.Correct) (hS : SizedOn p S G) {rng : ℕ → Vector UInt8 4}
    {now : ℕ} {disk : Disk} {P : RecvFile C.raptorq → RecvEvent → Prop} {s : RecvFile C.raptorq}
    (hP : ∀ s e, P s e → Arrivals C p (GenuineOn C p S G) s e)
    (h : Transition.Reaches (RecvFile.step C p) P (start C.raptorq p rng now disk) s)
    {block : ReceivedBlock} (hblock : block ∈ s.decodedBlocks) :
    block.blockId < p.totalBlocks ∧
      (G block.blockId → block.data = Blocks.block p.blockSize S block.blockId) :=
  ((provenance_of_reaches hP h).blocks block hblock).genuine hC hS

/-! ## The file -/

/-- What the file holds, compared with the state `s₀` the transfer started in. -/
structure Content {Q : RaptorQ} (p : RecvParams) (S : Bytes) (G : ℕ → Prop)
    (s₀ s : RecvFile Q) : Prop where
  marked : ∀ id, s₀.resume.isComplete id = true → s.resume.isComplete id = true
  kept : ∀ id, s₀.resume.isComplete id = true →
    Blocks.block p.blockSize s.file id = Blocks.block p.blockSize s₀.file id
  written : ∀ id, s.resume.isComplete id = true → s₀.resume.isComplete id = false → G id →
    Blocks.block p.blockSize s.file id = Blocks.block p.blockSize S id
  saved : ∀ st, s.resumeFile = some (.saved st) →
    ∀ id, st.isComplete id = true → s.resume.isComplete id = true

theorem content_start (Q : RaptorQ) (rng : ℕ → Vector UInt8 4) (now : ℕ) (disk : Disk) :
    Content p S G (start Q p rng now disk) (start Q p rng now disk) where
  marked := fun _ h => h
  kept := fun _ _ => rfl
  written := by
    intro id h h' _
    rw [h] at h'
    cases h'
  saved := by
    intro st hst id hid
    rwa [start_saved hst] at hid

/-- Writing part of block `i` changes no other block of the transfer. -/
theorem block_write_of_ne (hfits : p.Fits) {file chunk : Bytes} {i j : ℕ}
    (hfile : file.length = p.fileSize) (hi : i < p.totalBlocks) (hj : j < p.totalBlocks)
    (hij : j ≠ i) (hlen : chunk.length ≤ p.blockLen i) :
    Blocks.block p.blockSize (Blocks.patch 0 file (i * p.blockSize) chunk) j
      = Blocks.block p.blockSize file j := by
  have hend := hfits.end_le hi
  refine Blocks.block_patch_of_disjoint (by omega) ?_
  rcases Nat.lt_or_gt_of_ne hij with hlt | hlt
  · exact Or.inl (Nat.mul_le_mul_right _ hlt)
  · have := RecvParams.end_le_of_lt hj hlt
    exact Or.inr (by omega)

/-- Blocks that are marked lie in the transfer. -/
theorem Recorded.lt_of_isComplete {Q : RaptorQ} {s : RecvFile Q} (h : s.Recorded p) {id : ℕ}
    (hid : s.resume.isComplete id = true) : id < p.totalBlocks := by
  have := ResumeState.lt_of_isComplete hid
  rwa [h.wellFormed.bitmap_length, h.totalBlocks_eq] at this

/-- A write to a block that is not marked leaves the marked blocks alone. -/
theorem Recorded.block_write {Q : RaptorQ} {s : RecvFile Q} (h : s.Recorded p) (hfits : p.Fits)
    {id j : ℕ} {chunk : Bytes} (hid : id < p.totalBlocks)
    (hnew : s.resume.isComplete id = false) (hlen : chunk.length ≤ p.blockLen id)
    (hj : s.resume.isComplete j = true) :
    Blocks.block p.blockSize (Blocks.patch 0 s.file (id * p.blockSize) chunk) j
      = Blocks.block p.blockSize s.file j := by
  have hne : j ≠ id := by
    rintro rfl
    rw [hj] at hnew
    cases hnew
  exact block_write_of_ne hfits h.length_file hid (h.lt_of_isComplete hj) hne hlen

/-- A step that keeps file and bitmap keeps the content. -/
theorem Content.of_eq {Q : RaptorQ} {s₀ s s' : RecvFile Q} (h : Content p S G s₀ s)
    (hresume : s'.resume = s.resume) (hfile : s'.file = s.file)
    (hsaved : ∀ st, s'.resumeFile = some (.saved st) →
      st = s'.resume ∨ s.resumeFile = some (.saved st)) : Content p S G s₀ s' := by
  refine ⟨hresume ▸ h.marked, hfile ▸ h.kept, hresume ▸ hfile ▸ h.written, ?_⟩
  intro st hst id hid
  rcases hsaved st hst with rfl | hold
  · exact hid
  · exact hresume ▸ h.saved st hold id hid

/-- **Writing and marking a block of the source.** -/
theorem Content.wrote {Q : RaptorQ} {s₀ s s' : RecvFile Q} (h : Content p S G s₀ s)
    (hrec : s.Recorded p) (hS : SizedOn p S G) {id : ℕ} {chunk : Bytes} {hash : Hash}
    (hid : id < p.totalBlocks) (hnew : s.resume.isComplete id = false)
    (hchunk : chunk.length = p.blockLen id)
    (hdata : G id → chunk = Blocks.block p.blockSize S id)
    (hfile : s'.file = Blocks.patch 0 s.file (id * p.blockSize) chunk)
    (hmark : s.resume.markComplete id hash = .ok s'.resume)
    (hsaved : ∀ st, s'.resumeFile = some (.saved st) →
      st = s'.resume ∨ s.resumeFile = some (.saved st)) : Content p S G s₀ s' := by
  have hbitmap : id < s.resume.completedBlocks.length := by
    rwa [hrec.wellFormed.bitmap_length, hrec.totalBlocks_eq]
  have hmarked := ResumeState.isComplete_markComplete hmark hbitmap
  have hother : ∀ j, s.resume.isComplete j = true →
      Blocks.block p.blockSize s'.file j = Blocks.block p.blockSize s.file j := by
    intro j hj
    rw [hfile]
    exact hrec.block_write hS.fits hid hnew hchunk.le hj
  refine ⟨?_, ?_, ?_, ?_⟩
  · intro j hj
    rw [hmarked, h.marked j hj, Bool.or_true]
  · intro j hj
    rw [hother j (h.marked j hj), h.kept j hj]
  · intro j hj hj₀ hG
    -- the block just written holds the chunk, the others are untouched
    by_cases hji : j = id
    · subst hji
      have hoff := hS.fits.offset_lt hid
      rw [hfile]
      rw [← hrec.length_file] at hoff
      rw [Blocks.block_patch_self ?_ hoff.le, hdata hG]
      rw [hdata hG, Blocks.length_block, hrec.length_file, hS.fileSize_eq]
    · have hj' : s.resume.isComplete j = true := by
        rw [hmarked] at hj
        simpa [hji] using hj
      rw [hother j hj', h.written j hj' hj₀ hG]
  · intro st hst j hj
    rcases hsaved st hst with rfl | hold
    · exact hj
    · rw [hmarked, h.saved st hold j hj, Bool.or_true]

/-- **Every step keeps the content** when the blocks on the channel are the source's. -/
theorem Content.step {s₀ s s' : RecvFile C.raptorq} {e : RecvEvent} (h : Content p S G s₀ s)
    (hrec : s.Recorded p) (hS : SizedOn p S G)
    (hblocks : ∀ block ∈ s.channel, block.blockId < p.totalBlocks ∧
      (G block.blockId → block.data = Blocks.block p.blockSize S block.blockId))
    (hstep : RecvFile.step C p s e = some s') : Content p S G s₀ s' := by
  have hsaved : ∀ st, s'.resumeFile = some (.saved st) →
      st = s'.resume ∨ s.resumeFile = some (.saved st) :=
    fun st hst => step_saved hstep hst
  cases step_cases hstep with
  | take save block rest s' hwriter hchannel htake =>
      obtain ⟨hid, hdata⟩ := hblocks block (by simp [hchannel])
      cases htake with
      | skipped | rangeFault | sliceFault => exact h.of_eq rfl rfl hsaved
      | markFault offset len fault hnew hrange hlen hmark =>
          exact absurd hmark ((hrec.canRecord hid hnew).markBlock_ne_error _ _)
      | wrote offset len resume hnew hrange hlen hmark =>
          obtain ⟨rfl, rfl⟩ := RecvParams.writeRange_eq_ok hrange
          refine h.wrote hrec hS hid hnew (by simp [hlen]) (fun hG => ?_) rfl hmark hsaved
          rw [hdata hG, hS.blockLen_eq _ hid hG, List.take_length]
  | writeFails n block rest s' hwriter hchannel hnew hfail =>
      obtain ⟨hid, -⟩ := hblocks block (by simp [hchannel])
      cases hfail with
      | rangeFault | sliceFault => exact h.of_eq rfl rfl hsaved
      | partly offset len hrange hlen =>
          obtain ⟨rfl, rfl⟩ := RecvParams.writeRange_eq_ok hrange
          -- a block that is only partly written is not marked
          have hlen' : ((block.data.take (p.blockLen block.blockId)).take n).length
              ≤ p.blockLen block.blockId := by
            rw [List.length_take, List.length_take]
            omega
          refine ⟨h.marked, ?_, ?_, h.saved⟩
          · intro j hj
            rw [← h.kept j hj]
            exact hrec.block_write hS.fits hid hnew hlen' (h.marked j hj)
          · intro j hj hj₀ hG
            rw [← h.written j hj hj₀ hG]
            exact hrec.block_write hS.fits hid hnew hlen' hj
  | _ => exact h.of_eq rfl rfl hsaved

/-- **The content in every state reached** by packets of the source. -/
theorem content_of_reaches (hC : C.Correct) (hS : SizedOn p S G) {rng : ℕ → Vector UInt8 4}
    {now : ℕ} {disk : Disk} (hdisk : disk.Sound) {P : RecvFile C.raptorq → RecvEvent → Prop}
    {s : RecvFile C.raptorq} (hP : ∀ s e, P s e → Arrivals C p (GenuineOn C p S G) s e)
    (h : Transition.Reaches (RecvFile.step C p) P (start C.raptorq p rng now disk) s) :
    Content p S G (start C.raptorq p rng now disk) s := by
  refine h.invariant_along (content_start _ _ _ _) fun u e u' hu hcontent _ hs => ?_
  have hrec := recorded_of_reaches hS.fits (fun _ _ hq => hq.1) hdisk hP hu
  refine hcontent.step hrec hS (fun block hblock => ?_) hs
  exact data_eq_of_reaches hC hS hP hu ((bookkeeping_of_reaches hu).mem_decodedBlocks hblock)

/-- **A complete file is the source** if the blocks that were marked at the start are. -/
theorem file_eq_of_complete (hC : C.Correct) (hS : p.For S) {rng : ℕ → Vector UInt8 4}
    {now : ℕ} {disk : Disk} (hdisk : disk.Sound) {P : RecvFile C.raptorq → RecvEvent → Prop}
    {s : RecvFile C.raptorq}
    (hP : ∀ s e, P s e → Arrivals C p (GenuineOn C p S fun _ => True) s e)
    (hmarked : ∀ id, (start C.raptorq p rng now disk).resume.isComplete id = true →
      Blocks.block p.blockSize (start C.raptorq p rng now disk).file id
        = Blocks.block p.blockSize S id)
    (h : Transition.Reaches (RecvFile.step C p) P (start C.raptorq p rng now disk) s)
    (hcomplete : s.resume.isTransferComplete = true) : s.file = S := by
  have hsized := sizedOn_of_for hS fun _ => True
  have hrec := recorded_of_reaches hS.fits (fun _ _ hq => hq.1) hdisk hP h
  have hcontent := content_of_reaches hC hsized hdisk hP h
  refine Blocks.ext_blocks hS.blockSize_pos (hrec.length_file.trans hS.fileSize_eq) fun id hid => ?_
  rw [← hS.totalBlocks_eq, ← hrec.totalBlocks_eq] at hid
  have hall := hrec.wellFormed.isTransferComplete_iff.mp hcomplete id hid
  cases h₀ : (start C.raptorq p rng now disk).resume.isComplete id with
  | true => rw [hcontent.kept id h₀, hmarked id h₀]
  | false => exact hcontent.written id hall h₀ trivial

end Updown.RecvFile
