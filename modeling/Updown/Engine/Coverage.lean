import Updown.Engine.RecvProgress

set_option autoImplicit false

/-! # What a complete transfer has written

A block marked in the resume state was marked when the state was loaded, or has been written since,
at its place and in its length (`accounted_of_reaches`). No assumption is made on what arrives: a
block id beyond the bitmap is written somewhere, but not marked. When the transfer counts as
complete, every byte of the file lies in such a block (`covered_of_complete`).
-/

namespace Updown.RecvFile

open Transition

variable {C : Crates} {p : RecvParams}

/-- Every marked block was marked in `s₀`, or its range is among the writes. -/
structure Accounted {Q : RaptorQ} (p : RecvParams) (s₀ s : RecvFile Q) : Prop where
  bitmap : Bitmap p s.resume
  written : ∀ id, s.resume.isComplete id = true →
    s₀.resume.isComplete id = true ∨ (id * p.blockSize, p.blockLen id) ∈ s.log.writes

theorem bitmap_start (Q : RaptorQ) (rng : ℕ → Vector UInt8 4) (now : ℕ) {disk : Disk}
    (hdisk : disk.Sound) : Bitmap p (start Q p rng now disk).resume :=
  (recorded_start Q rng now hdisk).bitmap

/-- More writes and the same bitmap. -/
theorem Accounted.of_eq {Q : RaptorQ} {s₀ s s' : RecvFile Q} (h : Accounted p s₀ s)
    (hresume : s'.resume = s.resume) (hwrites : s.log.writes ⊆ s'.log.writes) :
    Accounted p s₀ s' := by
  refine ⟨hresume ▸ h.bitmap, fun id hid => ?_⟩
  exact (h.written id (hresume ▸ hid)).imp_right fun hmem => hwrites hmem

/-- **A block is marked after it is written.** -/
theorem Accounted.wrote {save : SaveOutcome} {s₀ s : RecvFile C.raptorq} {block : ReceivedBlock}
    {offset len : ℕ} {resume : ResumeState} (h : Accounted p s₀ s)
    (hrange : p.writeRange block.blockId = .ok (offset, len)) (hlen : len ≤ block.data.length)
    (hmark : s.resume.markComplete block.blockId (C.blake3 (block.data.take len)) = .ok resume) :
    Accounted p s₀ ((s.write offset (block.data.take len)).recordBlock p save block resume) := by
  have hchunk : (block.data.take len).length = len := by simp [hlen]
  have hwrites : ((s.write offset (block.data.take len)).recordBlock p save block resume).log.writes
      = s.log.writes ++ [(offset, len)] := by
    show s.log.writes ++ [(offset, (block.data.take len).length)] = _
    rw [hchunk]
  refine ⟨h.bitmap.mark hmark, fun id hid => ?_⟩
  rw [hwrites]
  by_cases hnew : s.resume.isComplete id = true
  · exact (h.written id hnew).imp_right fun hmem => List.mem_append_left _ hmem
  · -- the block that is marked now lies in the bitmap, so it was written where it belongs
    obtain rfl : id = block.blockId :=
      (ResumeState.isComplete_of_markComplete hmark hid).resolve_right hnew
    have hbit := (h.bitmap.mark hmark).wellFormed.bitmap_length ▸ ResumeState.lt_of_isComplete hid
    rw [(h.bitmap.mark hmark).totalBlocks_eq] at hbit
    obtain ⟨rfl, rfl⟩ := RecvParams.writeRange_eq_ok hrange
    exact Or.inr (by simp)

/-- **Every step keeps the marked blocks accounted for.** -/
theorem Accounted.step {s₀ s s' : RecvFile C.raptorq} {e : RecvEvent} (h : Accounted p s₀ s)
    (hstep : RecvFile.step C p s e = some s') : Accounted p s₀ s' := by
  cases step_cases hstep with
  | take save block rest s' hwriter hchannel htake =>
      have hrest : Accounted p s₀ ({ s with channel := rest } : RecvFile C.raptorq) :=
        h.of_eq rfl (List.Subset.refl _)
      cases htake with
      | skipped => exact hrest
      | rangeFault | sliceFault => exact hrest.of_eq rfl (List.Subset.refl _)
      | markFault => exact hrest.of_eq rfl (List.subset_append_left _ _)
      | wrote offset len resume hnew hrange hlen hmark => exact hrest.wrote hrange hlen hmark
  | writeFails n block rest s' hwriter hchannel hnew hfail =>
      cases hfail with
      | rangeFault | sliceFault => exact h.of_eq rfl (List.Subset.refl _)
      | partly => exact h.of_eq rfl (List.subset_append_left _ _)
  | _ => exact h.of_eq rfl (List.Subset.refl _)

theorem accounted_of_reaches {rng : ℕ → Vector UInt8 4} {now : ℕ} {disk : Disk}
    (hdisk : disk.Sound) {P : RecvFile C.raptorq → RecvEvent → Prop} {s : RecvFile C.raptorq}
    (h : Reaches (RecvFile.step C p) P (start C.raptorq p rng now disk) s) :
    Accounted p (start C.raptorq p rng now disk) s :=
  h.invariant ⟨bitmap_start _ _ _ hdisk, fun _ => Or.inl⟩ fun _ _ _ hinv _ hs => hinv.step hs

/-- **A complete transfer covers the file**: every byte lies in the range of a block that was marked
at the start or has been written. -/
theorem covered_of_complete {rng : ℕ → Vector UInt8 4} {now : ℕ} {disk : Disk}
    (hdisk : disk.Sound) {P : RecvFile C.raptorq → RecvEvent → Prop} {s : RecvFile C.raptorq}
    (h : Reaches (RecvFile.step C p) P (start C.raptorq p rng now disk) s) (hb : 0 < p.blockSize)
    (htotal : p.totalBlocks = Blocks.count p.fileSize p.blockSize)
    (hcomplete : s.resume.isTransferComplete = true) {k : ℕ} (hk : k < p.fileSize) :
    (start C.raptorq p rng now disk).resume.isComplete (k / p.blockSize) = true ∨
      ∃ w ∈ s.log.writes, w.1 = k / p.blockSize * p.blockSize ∧ w.1 ≤ k ∧ k < w.1 + w.2 := by
  have hacc := accounted_of_reaches hdisk h
  set id := k / p.blockSize
  have hle : id * p.blockSize ≤ k := Nat.div_mul_le_self k p.blockSize
  have hlt : k < id * p.blockSize + p.blockSize := Nat.lt_div_mul_add hb
  have hid : id < p.totalBlocks := by
    rw [htotal]
    exact (Blocks.lt_count_iff hb id).mpr (hle.trans_lt hk)
  have hmarked : s.resume.isComplete id = true := by
    apply hacc.bitmap.wellFormed.isTransferComplete_iff.mp hcomplete
    rwa [hacc.bitmap.totalBlocks_eq]
  refine (hacc.written id hmarked).imp_right fun hmem => ⟨_, hmem, rfl, hle, ?_⟩
  show k < id * p.blockSize + p.blockLen id
  unfold RecvParams.blockLen
  split
  · omega
  · exact hlt

end Updown.RecvFile
