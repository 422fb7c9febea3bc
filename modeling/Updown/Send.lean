import Updown.Engine.Completion
import Updown.Serve

set_option autoImplicit false

/-! # The `send` command

For each file `send` asks the endpoint for a transfer (`negotiate_send` in `main.rs`), plans which
blocks to skip from the hashes the endpoint answers with, and sends the rest. The endpoint's receive
task is never told which blocks are skipped: `delta_completes_iff` says what that means for the end
of the transfer.
-/

namespace Updown

open Transition

/-- The request of `negotiate_send` for a file. -/
def negotiateRequest (C : Crates) (filename : String) (file : SourceFile) (blockSize : ℕ)
    (sessionId : UInt32) : Except Fault TransferRequest :=
  (countBlocks file.bytes.length blockSize).map fun totalBlocks =>
    { sessionId := sessionId
      filename := filename
      fileSize := UInt64.ofNat file.bytes.length
      blockSize := UInt32.ofNat blockSize
      totalBlocks := UInt32.ofNat totalBlocks
      fileHash := C.blake3 file.bytes }

/-- The blocks to skip, from the hashes of the receiver's copy; no hashes, nothing to skip. -/
def skipBlocks (C : Crates) (file : SourceFile) (blockSize : ℕ) (receiverHashes : List Hash) :
    Except Fault (List ℕ) :=
  if receiverHashes = [] then .ok []
  else do
    let sourceHashes ← computeBlockHashes C file.bytes blockSize
    let changed := diffBlockHashes sourceHashes receiverHashes
    let _stats ← DeltaSyncStats.fromDiff (sourceHashes.length % 2 ^ 32) changed
    pure (unchangedBlocks sourceHashes changed)

/-- Send the file, or only its changed blocks. -/
def sendNegotiated (C : Crates) (e : SendEngine) (file : SourceFile) (sharedKey : Bytes)
    (sessionId : UInt32) (skip : List ℕ) (rng : ℕ → Vector UInt8 4) (doneAt : UInt64) :
    List Bytes × Except CallFailure SendResult :=
  if skip = [] then e.sendFileWithSession C file sharedKey sessionId rng doneAt
  else e.sendFileDelta C file sharedKey sessionId skip rng doneAt

theorem sendNegotiated_eq (C : Crates) (e : SendEngine) (file : SourceFile) (sharedKey : Bytes)
    (sessionId : UInt32) (skip : List ℕ) (rng : ℕ → Vector UInt8 4) (doneAt : UInt64) :
    sendNegotiated C e file sharedKey sessionId skip rng doneAt
      = e.sendFileInner C file sharedKey sessionId skip rng doneAt := by
  unfold sendNegotiated
  split
  · next hskip =>
      rw [hskip]
      rfl
  · rfl

section

/-! ## What is negotiated -/

variable {C : Crates} {e : SendEngine} {file : SourceFile} {filename : String}
  {sessionId : UInt32} {sharedKey : Vector UInt8 KEY_LEN} {rateMbps : ℕ}

/-- **The receiver is set up for the file as it is sent**, when the sizes fit the fields of the
request. -/
theorem matches_of_negotiated (hblock : e.blockSize < 2 ^ 32)
    (hcount : Blocks.count file.bytes.length e.blockSize < 2 ^ 32) {req : TransferRequest}
    (hreq : negotiateRequest C filename file e.blockSize sessionId = .ok req) {p : RecvParams}
    (hp : req.recvParams sharedKey rateMbps = some p) : p.Matches e file := by
  have hsize := file.length_lt
  unfold negotiateRequest at hreq
  cases hT : countBlocks file.bytes.length e.blockSize with
  | error fault =>
      rw [hT] at hreq
      cases hreq
  | ok T =>
      rw [hT] at hreq
      obtain rfl := Except.ok.inj hreq
      obtain ⟨hb, hf, ht, -⟩ := TransferRequest.recvParams_eq_some hp
      obtain ⟨-, -, hTeq⟩ := countBlocks_ok hT
      rw [Nat.mod_eq_of_lt hcount] at hTeq
      refine ⟨?_, ?_, ?_⟩
      · rw [hb]
        exact UInt32.toNat_ofNat_of_lt' hblock
      · rw [hf]
        exact UInt64.toNat_ofNat_of_lt' (lt_trans hsize (by norm_num))
      · rw [ht, ← hTeq]
        exact UInt32.toNat_ofNat_of_lt' (hTeq ▸ hcount)

/-- **The plan skips the blocks whose hashes agree.** -/
theorem mem_skipBlocks (hb : 1 ≤ e.blockSize) (hsize : e.blockSize ≤ ISIZE_MAX)
    (hcount : Blocks.count file.bytes.length e.blockSize < 2 ^ 32) {existing : Bytes}
    (hlen : existing.length = file.bytes.length) (hpos : 0 < file.bytes.length)
    {hashes : List Hash} (hhashes : computeBlockHashes C existing e.blockSize = .ok hashes)
    {skip : List ℕ} (hskip : skipBlocks C file e.blockSize hashes = .ok skip) :
    skip.dedup.length ≤ Blocks.count file.bytes.length e.blockSize ∧
    ∀ id, id ∈ skip ↔ id < Blocks.count file.bytes.length e.blockSize ∧
      C.blake3 (Blocks.block e.blockSize existing id)
        = C.blake3 (Blocks.block e.blockSize file.bytes id) := by
  have hlt := file.length_lt
  set n := Blocks.count file.bytes.length e.blockSize with hn
  -- both sides hash the same number of blocks
  have hexisting : computeBlockHashes C existing e.blockSize = .ok _ :=
    computeBlockHashes_eq hb hsize (by omega)
  have hsource : computeBlockHashes C file.bytes e.blockSize = .ok _ :=
    computeBlockHashes_eq hb hsize hlt
  rw [hlen, ← hn, Nat.mod_eq_of_lt hcount] at hexisting
  rw [← hn, Nat.mod_eq_of_lt hcount] at hsource
  obtain rfl := Except.ok.inj (hhashes.symm.trans hexisting)
  have hne : (List.range n).map (fun id => C.blake3 (Blocks.block e.blockSize existing id)) ≠ [] := by
    have : 0 < n := Blocks.count_pos hb hpos
    intro hnil
    have := congrArg List.length hnil
    simp at this
    omega
  simp only [skipBlocks, if_neg hne, hsource, bind, Except.bind] at hskip
  cases hstats : DeltaSyncStats.fromDiff _ (diffBlockHashes
      ((List.range n).map fun id => C.blake3 (Blocks.block e.blockSize file.bytes id))
      ((List.range n).map fun id => C.blake3 (Blocks.block e.blockSize existing id))) with
  | error fault =>
      rw [hstats] at hskip
      cases hskip
  | ok stats =>
      rw [hstats] at hskip
      obtain rfl := Except.ok.inj hskip
      refine ⟨?_, fun id => mem_unchangedBlocks hcount _ _⟩
      have hle := length_unchangedBlocks_le
        ((List.range n).map fun id => C.blake3 (Blocks.block e.blockSize file.bytes id))
        (diffBlockHashes
          ((List.range n).map fun id => C.blake3 (Blocks.block e.blockSize file.bytes id))
          ((List.range n).map fun id => C.blake3 (Blocks.block e.blockSize existing id)))
      rw [List.length_map, List.length_range, Nat.mod_eq_of_lt hcount] at hle
      rwa [List.Nodup.dedup (nodup_unchangedBlocks _ _)]

/-! ## How a negotiated transfer ends -/

section

variable {p : RecvParams} {skip : List ℕ} {rngSend rngRecv : ℕ → Vector UInt8 4} {doneAt : UInt64}
  {now : ℕ} {disk : Disk} {s : RecvFile C.raptorq}

/-- A sender of raw blocks that skips nothing sends every block. -/
theorem fullySent_of_sender (hC : C.Correct) (hp : p.Matches e file) (hb : 1 ≤ e.blockSize)
    (hblock : e.blockSize < 2 ^ 32) (hsends : e.SendsRaw C file.bytes)
    (hdepth : 1 ≤ e.interleaveDepth)
    (hroom : Blocks.count file.bytes.length e.blockSize + e.interleaveDepth < 2 ^ 32)
    (hskip : skip.dedup.length ≤ Blocks.count file.bytes.length e.blockSize)
    (hall : ∀ id < p.totalBlocks, id ∉ skip) :
    RecvFile.FullySent C p
      (e.sendFileInner C file p.sharedKey p.sessionId skip rngSend doneAt).1
      (Blocks.block p.blockSize file.bytes) := by
  have hmax : ISIZE_MAX = 2 ^ 63 - 1 := rfl
  have hbound := p.totalBlocks_lt
  obtain ⟨-, hpackets⟩ := SendEngine.sendFileInner_ok hC p.sharedKey_length hb (by omega) hsends
    hdepth hroom hskip p.sessionId rngSend doneAt
  refine ⟨fun d hd id plain hopen => ?_, fun id hid => ((hp.for hb).blockLen hid).symm,
    fun id _ => ?_, fun id hid be hbe q hq => ?_⟩
  · obtain ⟨-, hid, hpacket⟩ := genuine_of_network hC hp hsends
      (RecvFile.start C.raptorq p rngSend 0 ⟨none, none⟩) (.datagram ⟨0, 0⟩ d)
      (fun _ _ he => by cases he; exact Or.inl hd) ⟨0, 0⟩ d rfl id plain hopen
    exact ⟨hid, hpacket trivial⟩
  · rw [Blocks.length_block, hp.blockSize_eq]
    omega
  · rw [hp.blockSize_eq] at hbe
    obtain ⟨pkt, hpkt, hcarries⟩ :=
      hpackets id (hp.totalBlocks_eq ▸ hid) (hall id hid) be hbe q hq
    exact ⟨pkt, hpkt, hcarries.authentic hC (by omega) rfl⟩

/-- The hashes the endpoint answers with are those of its copy, if that has the size of the file. -/
theorem hashes_of_negotiated (hp : p.Matches e file) {req : TransferRequest}
    (hparams : req.recvParams sharedKey rateMbps = some p) {existing : Bytes}
    (hlen : existing.length = file.bytes.length) {hashes : List Hash}
    (hhashes : req.deltaHashes C (some existing) = .ok (some hashes)) :
    computeBlockHashes C existing e.blockSize = .ok hashes := by
  obtain ⟨hb, hf, -, -⟩ := TransferRequest.recvParams_eq_some hparams
  have hsize : existing.length = req.fileSize.toNat := by
    rw [hlen, ← hf, hp.fileSize_eq]
  have hblock : req.blockSize.toNat = e.blockSize := by
    rw [← hb, hp.blockSize_eq]
  simp only [TransferRequest.deltaHashes, if_pos hsize, hblock] at hhashes
  cases hcompute : computeBlockHashes C existing e.blockSize with
  | error fault =>
      rw [hcompute] at hhashes
      cases hhashes
  | ok hashes' =>
      rw [hcompute] at hhashes
      exact congrArg Except.ok (Option.some.inj (Except.ok.inj hhashes))

/-- A sender sends packets of blocks of the file only. -/
theorem soundTransfer_of_sender (hC : C.Correct) (hp : p.Matches e file) (hb : 1 ≤ e.blockSize)
    (hblock : e.blockSize < 2 ^ 32) (hdisk : disk.Sound) :
    RecvFile.SoundTransfer C p
      (e.sendFileInner C file p.sharedKey p.sessionId skip rngSend doneAt).1 disk where
  fits := (hp.for hb).fits
  blockSize_lt := by rw [hp.blockSize_eq]; exact hblock
  blockLen_lt := by
    intro id hid
    rw [(hp.for hb).blockLen hid, Blocks.length_block, hp.blockSize_eq]
    exact lt_of_le_of_lt (Nat.min_le_left _ _) hblock
  disk_sound := hdisk
  ids_lt := by
    intro d hd id plain hopen
    exact (sent_of_network hC hp.announced (RecvFile.start C.raptorq p rngSend 0 ⟨none, none⟩)
      (.datagram ⟨0, 0⟩ d) (fun _ _ he => by cases he; exact Or.inl hd) ⟨0, 0⟩ d rfl id plain
      hopen).2.1

/-- A skipped block is left out. -/
theorem leftOut_of_skipped (hC : C.Correct) (hp : p.Matches e file) {out : Option Bytes} {id : ℕ}
    (hid : id < p.totalBlocks) (hskip : id ∈ skip) :
    RecvFile.LeftOut C p (e.sendFileInner C file p.sharedKey p.sessionId skip rngSend doneAt).1
      (RecvFile.start C.raptorq p rngRecv now ⟨out, none⟩) id where
  lt := hid
  unsent := by
    intro d hd plain hopen
    exact (sent_of_network hC hp.announced (RecvFile.start C.raptorq p rngSend 0 ⟨none, none⟩)
      (.datagram ⟨0, 0⟩ d) (fun _ _ he => by cases he; exact Or.inl hd) ⟨0, 0⟩ d rfl id plain
      hopen).1 hskip
  unmarked := by simp [RecvFile.start, ResumeState.load]

/-- What delta sync promises, with an existing copy and no resume file: once everything that is
sent has arrived, the transfer comes to its end through the "all blocks received" exit, complete
and without a resume file. -/
def DeltaCompletes (C : Crates) (e : SendEngine) (file : SourceFile) (p : RecvParams)
    (skip : List ℕ) (existing : Bytes) (rngSend rngRecv : ℕ → Vector UInt8 4) (doneAt : UInt64)
    (now : ℕ) : Prop :=
  let sent := (sendNegotiated C e file p.sharedKey p.sessionId skip rngSend doneAt).1
  ∀ s, Reaches (RecvFile.step C p) (RecvFile.AllArrive C p sent)
      (RecvFile.start C.raptorq p rngRecv now ⟨some existing, none⟩) s →
    RecvFile.Settled sent s →
    Inevitable (RecvFile.step C p) (RecvFile.AllArrive C p sent)
      (RecvFile.Completed (Q := C.raptorq)) s

/-- **Delta sync completes exactly if nothing is skipped.** For a source and an existing copy of the
same size, with no resume file: if a transfer of which everything that is sent arrives always comes
to its end through the "all blocks received" exit, complete and without a resume file, then no block
of the copy has the hash of the source's block; and where blocks are sent raw, it then does. -/
theorem delta_completes_iff (hC : C.Correct) (hb : 1 ≤ e.blockSize) (hblock : e.blockSize < 2 ^ 32)
    (hcount : Blocks.count file.bytes.length e.blockSize < 2 ^ 32)
    {existing : Bytes} (hlen : existing.length = file.bytes.length) (hpos : 0 < file.bytes.length)
    {req : TransferRequest}
    (hreq : negotiateRequest C filename file e.blockSize sessionId = .ok req)
    {hashes : List Hash} (hhashes : req.deltaHashes C (some existing) = .ok (some hashes))
    (hskip : skipBlocks C file e.blockSize hashes = .ok skip)
    (hp : req.recvParams sharedKey rateMbps = some p) :
    (DeltaCompletes C e file p skip existing rngSend rngRecv doneAt now →
      ∀ id < Blocks.count file.bytes.length e.blockSize,
        C.blake3 (Blocks.block e.blockSize existing id)
          ≠ C.blake3 (Blocks.block e.blockSize file.bytes id)) ∧
    (e.SendsRaw C file.bytes → 1 ≤ e.interleaveDepth →
      Blocks.count file.bytes.length e.blockSize + e.interleaveDepth < 2 ^ 32 →
      (∀ id < Blocks.count file.bytes.length e.blockSize,
        C.blake3 (Blocks.block e.blockSize existing id)
          ≠ C.blake3 (Blocks.block e.blockSize file.bytes id)) →
      DeltaCompletes C e file p skip existing rngSend rngRecv doneAt now) := by
  have hmatch := matches_of_negotiated hblock hcount hreq hp
  have hsize : e.blockSize ≤ ISIZE_MAX := hblock.le.trans (by decide)
  obtain ⟨hfew, hmem⟩ := mem_skipBlocks hb hsize hcount hlen hpos
    (hashes_of_negotiated hmatch hp hlen hhashes) hskip
  have hdisk : (⟨some existing, none⟩ : Disk).Sound := by
    intro st hst
    cases hst
  rw [DeltaCompletes, sendNegotiated_eq]
  set sent := (e.sendFileInner C file p.sharedKey p.sessionId skip rngSend doneAt).1
  constructor
  · intro hcompletes id hid heq
    -- the block is skipped, and the transfer that times out is stuck
    have hsound : RecvFile.SoundTransfer C p sent ⟨some existing, none⟩ :=
      soundTransfer_of_sender hC hmatch hb hblock hdisk
    have hleft : RecvFile.LeftOut C p sent
        (RecvFile.start C.raptorq p rngRecv now ⟨some existing, none⟩) id :=
      leftOut_of_skipped hC hmatch (hmatch.totalBlocks_eq ▸ hid) ((hmem id).mpr ⟨hid, heq⟩)
    obtain ⟨s, s', hrun, harrived, hrest, hdone, htask, -⟩ := hleft.exists_timedOut hC hsound
    have hinevitable := (hcompletes s hrun (Or.inl harrived)).of_reaches
      (fun u u' hu => RecvFile.not_moves_of_finished hu.writer hu.task u') hrest
    have hcompleted := hinevitable.of_stuck (RecvFile.not_moves_of_finished hdone htask)
    rw [hcompleted.task] at htask
    cases htask
  · intro hsends hdepth hroom hne s hrun hsettled
    have hfull : RecvFile.FullySent C p sent (Blocks.block p.blockSize file.bytes) :=
      fullySent_of_sender hC hmatch hb hblock hsends hdepth hroom hfew fun id hid hin =>
        hne id (hmatch.totalBlocks_eq ▸ hid) ((hmem id).mp hin).2
    have hempty : (RecvFile.start C.raptorq p rngRecv now ⟨some existing, none⟩).blocksWritten
        = 0 := by
      simp [RecvFile.start, ResumeState.load]
    exact RecvFile.inevitable_completed hC hfull
      (hfull.sound (hmatch.for hb).fits (hmatch.blockSize_eq ▸ hblock) hdisk)
      (hempty ▸ Nat.zero_le _) hrun hsettled

end

end

/-! ### The small transfer -/

namespace Small

/-- The request for `file`. -/
def request : TransferRequest :=
  { sessionId := 9, filename := "a.bin", fileSize := 5, blockSize := 4, totalBlocks := 2,
    fileHash := PlainCrates.plainCrates.blake3 file.bytes }

/-- What `receive_file` is given for it. -/
def requestParams : RecvParams :=
  { Small.params with sharedKey := (Vector.replicate KEY_LEN 7).toList, sharedKey_length := rfl }

/-- The hashes of the two blocks of a file of five bytes. -/
def hashesOf (bytes : Bytes) : List Hash :=
  [PlainCrates.plainCrates.blake3 (Blocks.block 4 bytes 0),
    PlainCrates.plainCrates.blake3 (Blocks.block 4 bytes 1)]

theorem request_negotiated : negotiateRequest PlainCrates.plainCrates "a.bin" file 4 9 = .ok request :=
  rfl

theorem request_params : request.recvParams (Vector.replicate KEY_LEN 7) 1000 = some requestParams :=
  rfl

/-- A copy that has no block of the file is replaced. -/
theorem delta_completes_iff_small :
    DeltaCompletes PlainCrates.plainCrates engine file requestParams [] [9, 9, 9, 9, 9] rng rng 0
      0 := by
  have hhashes : request.deltaHashes PlainCrates.plainCrates (some [9, 9, 9, 9, 9])
      = .ok (some (hashesOf [9, 9, 9, 9, 9])) := rfl
  have hskip : skipBlocks PlainCrates.plainCrates file engine.blockSize
      (hashesOf [9, 9, 9, 9, 9]) = .ok [] := by
    decide +kernel
  have hne : ∀ id < Blocks.count file.bytes.length engine.blockSize,
      PlainCrates.plainCrates.blake3 (Blocks.block engine.blockSize [9, 9, 9, 9, 9] id)
        ≠ PlainCrates.plainCrates.blake3 (Blocks.block engine.blockSize file.bytes id) := by
    decide +kernel
  have hcount : Blocks.count file.bytes.length engine.blockSize < 2 ^ 32 := by decide
  have hlen : [9, 9, 9, 9, 9].length = file.bytes.length := rfl
  exact (delta_completes_iff PlainCrates.plainCrates_correct (by decide) (by decide) hcount hlen
    (by decide) request_negotiated hhashes hskip request_params).2
    (SendEngine.sendsRaw_of_off rfl) (by decide) (by decide) hne

/-- The copy is the file itself: both blocks are skipped, and what is sent is the "done" signal. -/
def skippedSent : List Bytes :=
  (sendNegotiated PlainCrates.plainCrates engine file requestParams.sharedKey
    requestParams.sessionId [0, 1] rng 0).1

def skippedEvents : List RecvEvent :=
  skippedSent.map (RecvEvent.datagram clock) ++ [.idleTimeout, .channelEnd, .finish .written]

/-- Only what is sent arrives, and the idle timeout waits for it. -/
def skippedCheck (s : RecvFile PlainCrates.plainCrates.raptorq) : RecvEvent → Bool
  | .datagram _ data => decide (data ∈ skippedSent)
  | .idleTimeout => decide (∀ d ∈ skippedSent, d ∈ s.log.arrived)
  | .channelEnd | .finish _ => true
  | _ => false

/-- **A copy with an unchanged block does not complete**: everything that is sent arrives, the
transfer ends through the idle timeout, and leaves its resume file. -/
theorem unchanged_not_completed :
    negotiateRequest PlainCrates.plainCrates "a.bin" file 4 9 = .ok request ∧
    request.deltaHashes PlainCrates.plainCrates (some file.bytes)
      = .ok (some (hashesOf file.bytes)) ∧
    skipBlocks PlainCrates.plainCrates file 4 (hashesOf file.bytes) = .ok [0, 1] ∧
    ∃ s, Reaches (RecvFile.step PlainCrates.plainCrates requestParams)
        (RecvFile.AllArrive PlainCrates.plainCrates requestParams skippedSent)
        (RecvFile.start PlainCrates.plainCrates.raptorq requestParams rng 0 ⟨some file.bytes, none⟩)
        s ∧
      (∀ d ∈ skippedSent, d ∈ s.log.arrived) ∧ s.writer.finished = true ∧
      s.task = .exited .idleTimeout ∧ s.resume.isTransferComplete = false ∧
      s.resumeFile ≠ none := by
  refine ⟨rfl, rfl, by decide +kernel, ?_⟩
  obtain ⟨s, hs, hcheck⟩ := exists_of_runAll
    (guarded skippedCheck (RecvFile.step PlainCrates.plainCrates requestParams))
    (RecvFile.start PlainCrates.plainCrates.raptorq requestParams rng 0 ⟨some file.bytes, none⟩)
    skippedEvents
    (fun s => decide (∀ d ∈ skippedSent, d ∈ s.log.arrived) && s.writer.finished &&
      decide (s.task = .exited .idleTimeout) && !s.resume.isTransferComplete &&
      s.resumeFile.isSome)
    (by decide +kernel)
  have hallowed : ∀ s e, skippedCheck s e = true →
      RecvFile.AllArrive PlainCrates.plainCrates requestParams skippedSent s e := by
    intro s e he
    cases e with
    | datagram now data => exact Or.inl (of_decide_eq_true he)
    | idleTimeout =>
        show ∀ d ∈ skippedSent, d ∈ s.log.arrived
        simpa [skippedCheck] using he
    | channelEnd | finish => trivial
    | _ => cases he
  simp only [Bool.and_eq_true, decide_eq_true_eq, Bool.not_eq_true'] at hcheck
  obtain ⟨⟨⟨⟨harrived, hdone⟩, htask⟩, hopen⟩, hresume⟩ := hcheck
  exact ⟨s, Reaches.of_guarded skippedCheck hallowed hs, harrived, hdone, htask, hopen,
    Option.ne_none_iff_isSome.mpr hresume⟩

end Small

end Updown
