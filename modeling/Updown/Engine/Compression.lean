import Updown.Engine.Transfer

set_option autoImplicit false

/-! # Compression

With `compress` on, `send_file_inner` sends a block in its compressed form where that is shorter.
The receiver is not told: it sets the decoder of a block up with the block's length in the file, and
writes what the decoder returns. `transparent_iff` says for which blocks the original bytes arrive.
-/

namespace Updown

open Transition

section

variable {C : Crates} {e : SendEngine} {file : SourceFile} {p : RecvParams} {id : ℕ}

namespace SendEngine

/-- Compression is off, or makes the block no shorter. -/
def KeepsRaw (C : Crates) (e : SendEngine) (raw : Bytes) : Prop :=
  e.compress = false ∨ ∃ compressed, C.zstd raw = some compressed ∧ raw.length ≤ compressed.length

/-- What is sent for a block is never longer than the block, and of its length only if it is the
block. -/
theorem blockData_cases {raw data : Bytes} (h : e.blockData C raw = .ok data) :
    (data = raw ∧ KeepsRaw C e raw) ∨ (data.length < raw.length ∧ ¬ KeepsRaw C e raw) := by
  unfold blockData at h
  split at h
  · next hon =>
      cases hz : C.zstd raw with
      | none =>
          rw [hz] at h
          cases h
      | some compressed =>
          rw [hz] at h
          obtain rfl := Except.ok.inj h
          by_cases hlt : compressed.length < raw.length
          · refine Or.inr ⟨by rwa [if_pos hlt], ?_⟩
            rintro (hoff | ⟨z, hz', hle⟩)
            · rw [hon] at hoff
              cases hoff
            · rw [hz] at hz'
              obtain rfl := Option.some.inj hz'
              omega
          · exact Or.inl ⟨if_neg hlt, Or.inr ⟨compressed, hz, by omega⟩⟩
  · next hoff =>
      obtain rfl := Except.ok.inj h
      exact Or.inl ⟨rfl, Or.inl (by simpa using hoff)⟩

theorem blockData_of_keepsRaw {raw : Bytes} (h : KeepsRaw C e raw) :
    e.blockData C raw = .ok raw := by
  unfold blockData
  rcases h with hoff | ⟨compressed, hz, hle⟩
  · rw [hoff]
    rfl
  · rw [hz]
    split
    · show Except.ok (if compressed.length < raw.length then compressed else raw) = _
      rw [if_neg (by omega)]
    · rfl

end SendEngine

/-- The length of a block as the receiver computes it is that of the source's block, unless it is
the last of a number of blocks that was cut down. -/
theorem RecvParams.Announced.blockLen_eq_iff (hp : p.Announced e file) (hb : 1 ≤ e.blockSize)
    (hid : id < p.totalBlocks) :
    p.blockLen id = (Blocks.block e.blockSize file.bytes id).length ↔
      ¬ (id + 1 = p.totalBlocks ∧
        p.totalBlocks < Blocks.count file.bytes.length e.blockSize) := by
  have hcount := hp.lt_count hid
  have hoff := (Blocks.lt_count_iff hb id).mp hcount
  unfold RecvParams.blockLen
  rw [hp.blockSize_eq, hp.fileSize_eq, Blocks.length_block]
  by_cases hlast : id + 1 = p.totalBlocks
  -- the last id has the rest of the file, however much that is
  · rw [if_pos hlast]
    have hnext := Blocks.lt_count_iff (n := file.bytes.length) hb (id + 1)
    rw [Nat.succ_mul] at hnext
    constructor
    · rintro hlen ⟨-, hlt⟩
      have := hnext.mp (hlast ▸ hlt)
      omega
    · intro hnot
      have hle : ¬ id + 1 < Blocks.count file.bytes.length e.blockSize := fun hlt =>
        hnot ⟨hlast, hlast ▸ hlt⟩
      rw [hnext] at hle
      omega
  · rw [if_neg hlast]
    have hnext := (Blocks.lt_count_iff (n := file.bytes.length) hb (id + 1)).mp
      (hp.lt_count (show id + 1 < p.totalBlocks by omega))
    rw [Nat.succ_mul] at hnext
    simp only [hlast, false_and, not_false_iff, iff_true]
    omega

/-- Compression does not show for block `id`: what the encoder is given is as long as the decoder
expects, and a block that is written holds the original bytes, whatever is lost, repeated or
reordered on the way. -/
structure Transparent (C : Crates) (e : SendEngine) (file : SourceFile) (p : RecvParams) (id : ℕ) :
    Prop where
  length : ∃ data, e.blockData C (Blocks.block e.blockSize file.bytes id) = .ok data ∧
    p.decoderLen id = .ok data.length
  written : ∀ skip rngSend doneAt rngRecv now disk s, disk.Sound →
    Reaches (RecvFile.step C p)
      (Network C p (e.sendFileInner C file p.sharedKey p.sessionId skip rngSend doneAt).1)
      (RecvFile.start C.raptorq p rngRecv now disk) s →
    (RecvFile.start C.raptorq p rngRecv now disk).resume.isComplete id = false →
    s.resume.isComplete id = true →
    Blocks.block e.blockSize s.file id = Blocks.block e.blockSize file.bytes id

/-- **Compression is transparent for exactly the blocks it does not shorten**, the last block of a
number of blocks that does not fit 32 bits apart. -/
theorem transparent_iff (hC : C.Correct) (hp : p.Announced e file) (hb : 1 ≤ e.blockSize)
    (hid : id < p.totalBlocks) :
    Transparent C e file p id ↔
      e.KeepsRaw C (Blocks.block e.blockSize file.bytes id) ∧
        ¬ (id + 1 = p.totalBlocks ∧
          p.totalBlocks < Blocks.count file.bytes.length e.blockSize) := by
  have hfits := hp.fits hb
  rw [← hp.blockLen_eq_iff hb hid]
  constructor
  · intro h
    obtain ⟨data, hdata, hlen⟩ := h.length
    have hlen' := Except.ok.inj ((hfits.decoderLen hid).symm.trans hlen)
    -- a compressed block would be shorter than what the receiver expects
    have hle : (Blocks.block e.blockSize file.bytes id).length ≤ p.blockLen id := by
      rw [Blocks.length_block, RecvParams.blockLen, hp.fileSize_eq, hp.blockSize_eq]
      split <;> omega
    rcases SendEngine.blockData_cases hdata with ⟨rfl, hraw⟩ | ⟨hlt, -⟩
    · exact ⟨hraw, hlen'⟩
    · omega
  · rintro ⟨hraw, hlen⟩
    have hdata := SendEngine.blockData_of_keepsRaw hraw
    refine ⟨⟨_, hdata, by rw [hfits.decoderLen hid, hlen]⟩, ?_⟩
    intro skip rngSend doneAt rngRecv now disk s hdisk hrun hstart hmarked
    -- the packets of this block are packets of its original bytes
    have hsized : RecvFile.SizedOn p file.bytes (· = id) := by
      refine ⟨hfits, hp.fileSize_eq, ?_⟩
      rintro id' - rfl
      rw [hlen, hp.blockSize_eq]
    have hP : ∀ u ev, Network C p
        (e.sendFileInner C file p.sharedKey p.sessionId skip rngSend doneAt).1 u ev →
        RecvFile.Arrivals C p (RecvFile.GenuineOn C p file.bytes (· = id)) u ev := by
      intro u ev h t d he id' plain hopen
      obtain ⟨-, hid', data, hsent, hpacket⟩ := sent_of_network hC hp u ev h t d he id' plain hopen
      refine ⟨hid', ?_⟩
      rintro rfl
      obtain rfl := Except.ok.inj (hdata.symm.trans hsent)
      rwa [hp.blockSize_eq]
    have hcontent := RecvFile.content_of_reaches hC hsized hdisk hP hrun
    have := hcontent.written id hmarked hstart rfl
    rwa [hp.blockSize_eq] at this

end

namespace Small

/-- Five equal bytes: the first block can be compressed, the second cannot. -/
def sevens : SourceFile := ⟨[7, 7, 7, 7, 7], by decide⟩

def compressing : SendEngine := engine.withCompression true

theorem announced_sevens : params.Announced compressing sevens := ⟨rfl, rfl, by decide⟩

theorem transparent_iff_small :
    ¬ Transparent PlainCrates.plainCrates compressing sevens params 0 ∧
      Transparent PlainCrates.plainCrates compressing sevens params 1 := by
  rw [transparent_iff PlainCrates.plainCrates_correct announced_sevens (by decide) (by decide),
    transparent_iff PlainCrates.plainCrates_correct announced_sevens (by decide) (by decide)]
  constructor
  · rintro ⟨hoff | ⟨compressed, hz, hle⟩, -⟩
    · cases hoff
    · obtain rfl : [4, 7] = compressed := Option.some.inj hz
      exact absurd hle (by decide)
  · exact ⟨Or.inr ⟨[1, 7], rfl, by decide⟩, by decide⟩

def compressedSent : List Bytes :=
  (compressing.sendFileWithSession PlainCrates.plainCrates sevens params.sharedKey params.sessionId
    rng 0).1

/-- Both blocks arrive and are written. -/
def compressedEvents : List RecvEvent :=
  [.datagram clock (compressedSent.getD 0 []), .send, .take .failed,
    .datagram clock (compressedSent.getD 1 []), .send, .take .failed, .exitAll, .finish .written]

/-- **A block that is sent compressed is written as the decoder returns it**: two bytes are sent
where four are expected, and the transfer ends complete with other bytes in the file. -/
theorem compressed_not_transparent :
    compressing.blockData PlainCrates.plainCrates (Blocks.block 4 sevens.bytes 0) = .ok [4, 7] ∧
    params.decoderLen 0 = .ok 4 ∧
    ∃ s, Reaches (RecvFile.step PlainCrates.plainCrates params)
        (Network PlainCrates.plainCrates params compressedSent)
        (RecvFile.start PlainCrates.plainCrates.raptorq params rng 0 ⟨none, none⟩) s ∧
      s.writer.finished = true ∧ s.resume.isTransferComplete = true ∧
      s.file = [4, 7, 0, 0, 7] := by
  refine ⟨rfl, rfl, ?_⟩
  obtain ⟨s, hs, hcheck⟩ := exists_of_runAll
    (RecvFile.step PlainCrates.plainCrates params)
    (RecvFile.start PlainCrates.plainCrates.raptorq params rng 0 ⟨none, none⟩) compressedEvents
    (fun s => s.writer.finished && s.resume.isTransferComplete &&
      decide (s.file = [4, 7, 0, 0, 7]))
    (by decide +kernel)
  simp only [Bool.and_eq_true, decide_eq_true_eq] at hcheck
  obtain ⟨⟨hdone, hcomplete⟩, hfile⟩ := hcheck
  have hallowed := allowedAlong_of_datagramsAll (p := params)
    (fun data => decide (data ∈ compressedSent)) compressedEvents
    (P := Network PlainCrates.plainCrates params compressedSent) (by decide +kernel)
    (fun _ _ h now data he => Or.inl (of_decide_eq_true (h now data he)))
    (RecvFile.start PlainCrates.plainCrates.raptorq params rng 0 ⟨none, none⟩)
  exact ⟨s, Reaches.of_runAll hs hallowed, hdone, hcomplete, hfile⟩

end Small

end Updown
