import Updown.Engine.Transfer

set_option autoImplicit false

/-! # The desktop agent

`start_download` and `start_send` of `web/agent.rs` run a transfer in a task of its own and report
its end in the list of transfers. What they report is whether `receive_file` or `send_file` returned
a result; `no_false_success_iff` says when that means that the file has arrived.
-/

namespace Updown

open Transition

/-- An entry of the agent's list of transfers. -/
structure TransferStatus where
  id : String
  filename : String
  direction : String
  fileSize : ℕ
  bytesTransferred : ℕ
  status : String
  progressPct : ℚ

namespace TransferStatus

/-- The entry `start_download` registers. -/
def download (id filename : String) (fileSize : ℕ) : TransferStatus :=
  { id := id, filename := filename, direction := "download", fileSize := fileSize,
    bytesTransferred := 0, status := "connecting", progressPct := 0 }

/-- The entry `start_send` registers. -/
def upload (id filename : String) (fileSize : ℕ) : TransferStatus :=
  { id := id, filename := filename, direction := "upload", fileSize := fileSize,
    bytesTransferred := 0, status := "connecting", progressPct := 0 }

/-- What the task of `start_download` or `start_send` makes of its entry when the transfer has
ended; `bytes` is the `file_size` of the result. -/
def report (t : TransferStatus) : Except String ℕ → TransferStatus
  | .ok bytes => { t with status := "completed", bytesTransferred := bytes, progressPct := 100 }
  | .error e => { t with status := "failed: " ++ e }

/-- The agent shows the transfer as done. -/
def Succeeded (t : TransferStatus) : Prop := t.status = "completed" ∧ t.progressPct = 100

end TransferStatus

/-- What `receive_file` has returned; a task that has panicked returns nothing. -/
def WriterTask.returned : WriterTask → Option (Except String ℕ)
  | .done result => some (.ok result.fileSize)
  | .failed msg => some (.error msg)
  | _ => none

/-- What `send_file` has returned. -/
def sendReturned : Except CallFailure SendResult → Option (Except String ℕ)
  | .ok result => some (.ok result.fileSize)
  | .error (.error msg) => some (.error msg)
  | _ => none

/-- The entry after the task has got as far as it gets. -/
def TransferStatus.after (t : TransferStatus) (returned : Option (Except String ℕ)) :
    TransferStatus :=
  match returned with
  | some result => t.report result
  | none => t

/-- The engine of `start_send`. -/
def agentEngine (rateMbps : Option ℕ) : SendEngine := SendEngine.new (rateMbps.getD 1000)

/-- The entry shows success exactly if the transfer has returned a result. -/
theorem TransferStatus.succeeded_after_iff {t : TransferStatus} (ht : t.status = "connecting")
    {returned : Option (Except String ℕ)} :
    (t.after returned).Succeeded ↔ ∃ bytes, returned = some (.ok bytes) := by
  match returned with
  | none =>
      simp [after, Succeeded, ht]
  | some (.ok bytes) => simp [after, report, Succeeded]
  | some (.error msg) =>
      have hne : "failed: " ++ msg ≠ "completed" := by
        intro heq
        have := congrArg (fun s => s.toList.head?) heq
        simp at this
      simp [after, report, Succeeded, hne]

theorem WriterTask.returned_ok_iff {w : WriterTask} :
    (∃ bytes, w.returned = some (.ok bytes)) ↔ w.finished = true := by
  cases w <;> simp [returned, finished]

section

variable {C : Crates} {p : RecvParams} {sent : List Bytes} {disk : Disk}

/-- Marks stay. -/
theorem RecvFile.marked_of_reaches {P : RecvFile C.raptorq → RecvEvent → Prop}
    {s₀ s : RecvFile C.raptorq} (h : Reaches (RecvFile.step C p) P s₀ s) {id : ℕ}
    (hid : s₀.resume.isComplete id = true) : s.resume.isComplete id = true := by
  refine h.invariant (I := fun u => u.resume.isComplete id = true) hid fun u e u' hu _ hs => ?_
  cases step_cases hs with
  | take save block rest s' hwriter hchannel htake =>
      cases htake with
      | wrote offset len resume hnew hrange hlen hmark =>
          show resume.isComplete id = true
          rcases Nat.lt_or_ge block.blockId u.resume.completedBlocks.length with hlt | hge
          · rw [ResumeState.isComplete_markComplete hmark hlt, hu, Bool.or_true]
          · rw [ResumeState.markComplete_of_ge _ hge] at hmark
            rwa [← Except.ok.inj hmark]
      | _ => exact hu
  | writeFails n block rest s' hwriter hchannel hnew hfail =>
      cases hfail with
      | _ => exact hu
  | _ => exact hu

/-- `start_download` shows a download as done only if every block has been received and written,
whatever the network does with the datagrams `sent`. -/
def DownloadHonest (C : Crates) (p : RecvParams) (sent : List Bytes) (disk : Disk) : Prop :=
  ∀ rng now s transferId filename,
    Reaches (RecvFile.step C p) (Network C p sent) (RecvFile.start C.raptorq p rng now disk) s →
    ((TransferStatus.download transferId filename p.fileSize).after s.writer.returned).Succeeded →
    ∀ id < p.totalBlocks, s.resume.isComplete id = true

/-- `start_send` shows an upload as done only if the receiver has decoded every block of the file,
whatever the network does: `key` and `sessionId` are what the agent drew for the transfer, and the
receiver is set up for the file. -/
def SendHonest (C : Crates) (rateMbps : Option ℕ) (file : SourceFile) (key : Bytes)
    (sessionId : UInt32) : Prop :=
  ∀ (p : RecvParams) rngSend doneAt rngRecv now disk s transferId filename,
    p.Matches (agentEngine rateMbps) file →
    Reaches (RecvFile.step C p)
      (Network C p ((agentEngine rateMbps).sendFileWithSession C file key sessionId rngSend doneAt).1)
      (RecvFile.start C.raptorq p rngRecv now disk) s →
    ((TransferStatus.upload transferId filename file.bytes.length).after
      (sendReturned ((agentEngine rateMbps).sendFileWithSession C file key sessionId rngSend
        doneAt).2)).Succeeded →
    ∀ id < p.totalBlocks, id ∈ s.receiver.completedBlocks

/-- A download is honest exactly if there was nothing left to receive. -/
theorem downloadHonest_iff : DownloadHonest C p sent disk ↔
    ∀ rng now, ∀ id < p.totalBlocks,
      (RecvFile.start C.raptorq p rng now disk).resume.isComplete id = true := by
  constructor
  · intro hhonest rng now id hid
    -- the network is silent, and the transfer ends by the idle timeout
    obtain ⟨s, hrun, hdone, -, hresume, -, -⟩ := RecvFile.exists_finished (permitsEnd_network sent)
      (s := RecvFile.start C.raptorq p rng now disk) rfl rfl (Or.inl rfl)
      (Or.inr fun _ _ h => by cases h)
    rw [← hresume]
    exact hhonest rng now s "" "" hrun
      ((TransferStatus.succeeded_after_iff rfl).mpr (WriterTask.returned_ok_iff.mpr hdone)) id hid
  · intro hmarked rng now s transferId filename hrun _ id hid
    exact RecvFile.marked_of_reaches hrun (hmarked rng now id hid)

/-- An upload is honest exactly if the file is empty. -/
theorem sendHonest_iff (hC : C.Correct) {rateMbps : Option ℕ} {file : SourceFile} {key : Bytes}
    (hkey : key.length = KEY_LEN) (sessionId : UInt32)
    (hroom : Blocks.count file.bytes.length (agentEngine rateMbps).blockSize
      + (agentEngine rateMbps).interleaveDepth < 2 ^ 32) :
    SendHonest C rateMbps file key sessionId ↔ file.bytes = [] := by
  have hb : 0 < (agentEngine rateMbps).blockSize := by
    show 0 < DEFAULT_BLOCK_SIZE
    decide
  constructor
  · intro hhonest
    by_contra hne
    -- the receiver has not heard anything yet when `send_file` returns
    have hcount := Blocks.count_pos hb (List.length_pos_iff.mpr hne)
    let p : RecvParams :=
      { sessionId := sessionId, sharedKey := key, blockSize := (agentEngine rateMbps).blockSize,
        fileSize := file.bytes.length,
        totalBlocks := Blocks.count file.bytes.length (agentEngine rateMbps).blockSize,
        targetRateMbps := 1000, sharedKey_length := hkey,
        blockSize_lt := by show DEFAULT_BLOCK_SIZE < 2 ^ 64; decide,
        fileSize_lt := file.length_lt, totalBlocks_lt := by omega }
    have hskip : ([] : List ℕ).dedup.length
        ≤ Blocks.count file.bytes.length (agentEngine rateMbps).blockSize := Nat.zero_le _
    have hraw : (agentEngine rateMbps).SendsRaw C file.bytes := SendEngine.sendsRaw_of_off rfl
    obtain ⟨⟨result, hresult⟩, -⟩ := SendEngine.sendFileInner_ok hC hkey hb
      (show DEFAULT_BLOCK_SIZE ≤ ISIZE_MAX by decide) hraw (show 0 < 4 by decide) hroom hskip
      sessionId (fun _ => Vector.replicate 4 0) 0
    have hmem := hhonest p (fun _ => Vector.replicate 4 0) 0 (fun _ => Vector.replicate 4 0) 0
      ⟨none, none⟩ (RecvFile.start C.raptorq p (fun _ => Vector.replicate 4 0) 0 ⟨none, none⟩) "" ""
      ⟨rfl, rfl, rfl⟩ (Reaches.refl _)
      ((TransferStatus.succeeded_after_iff rfl).mpr ⟨result.fileSize, by
        rw [SendEngine.sendFileWithSession, hresult]
        rfl⟩) 0 hcount
    cases hmem
  · rintro hempty p rngSend doneAt rngRecv now disk s transferId filename hp - - id hid
    rw [hp.totalBlocks_eq, hempty, List.length_nil, Blocks.count_zero hb] at hid
    exact absurd hid (Nat.not_lt_zero id)

/-- **No false success**: the agent's report of a download can be trusted exactly if the resume
state it started from was complete, that of an upload exactly if the file is empty. -/
theorem no_false_success_iff (hC : C.Correct) {rateMbps : Option ℕ} {file : SourceFile}
    {key : Bytes} (hkey : key.length = KEY_LEN) (sessionId : UInt32)
    (hroom : Blocks.count file.bytes.length (agentEngine rateMbps).blockSize
      + (agentEngine rateMbps).interleaveDepth < 2 ^ 32) :
    (DownloadHonest C p sent disk ↔ ∀ rng now, ∀ id < p.totalBlocks,
      (RecvFile.start C.raptorq p rng now disk).resume.isComplete id = true) ∧
    (SendHonest C rateMbps file key sessionId ↔ file.bytes = []) :=
  ⟨downloadHonest_iff, sendHonest_iff hC hkey sessionId hroom⟩

end

namespace Small

theorem no_false_success_iff_small :
    ¬ DownloadHonest PlainCrates.plainCrates params sent ⟨none, none⟩ ∧
      ¬ SendHonest PlainCrates.plainCrates none file params.sharedKey 9 := by
  have hroom : Blocks.count file.bytes.length (agentEngine none).blockSize
      + (agentEngine none).interleaveDepth < 2 ^ 32 := by decide
  obtain ⟨hdownload, hsend⟩ : (DownloadHonest PlainCrates.plainCrates params sent ⟨none, none⟩ ↔ _)
      ∧ (SendHonest PlainCrates.plainCrates none file params.sharedKey 9 ↔ _) :=
    no_false_success_iff PlainCrates.plainCrates_correct params.sharedKey_length 9 hroom
  rw [hdownload, hsend]
  constructor
  · intro hmarked
    exact absurd (hmarked rng 0 0 (by decide)) (by decide)
  · intro hempty
    cases hempty

/-- **A silent network is reported as success.** The download ends by the idle timeout and the
upload returns, and both show as done; nothing has been received. -/
theorem silence_succeeds :
    (∃ s, Reaches (RecvFile.step PlainCrates.plainCrates params)
        (Network PlainCrates.plainCrates params sent)
        (RecvFile.start PlainCrates.plainCrates.raptorq params rng 0 ⟨none, none⟩) s ∧
      ((TransferStatus.download "t" "a.bin" 5).after s.writer.returned).Succeeded ∧
      s.log.arrived = [] ∧ s.resume.isComplete 0 = false) ∧
    ((TransferStatus.upload "t" "a.bin" 5).after (sendReturned
      ((agentEngine none).sendFileWithSession PlainCrates.plainCrates file params.sharedKey 9 rng
        0).2)).Succeeded := by
  constructor
  · obtain ⟨s, hs, hcheck⟩ := exists_of_runAll
      (RecvFile.step PlainCrates.plainCrates params)
      (RecvFile.start PlainCrates.plainCrates.raptorq params rng 0 ⟨none, none⟩)
      [.idleTimeout, .channelEnd, .finish .written]
      (fun s => s.writer.finished && decide (s.log.arrived = []) && !s.resume.isComplete 0)
      (by decide +kernel)
    simp only [Bool.and_eq_true, decide_eq_true_eq, Bool.not_eq_true'] at hcheck
    obtain ⟨⟨hdone, harrived⟩, hopen⟩ := hcheck
    refine ⟨s, Reaches.of_runAll hs (allowedAlong_of_forall ?_),
      (TransferStatus.succeeded_after_iff rfl).mpr (WriterTask.returned_ok_iff.mpr hdone), harrived,
      hopen⟩
    rintro e he u now data rfl
    simp at he
  · refine (TransferStatus.succeeded_after_iff rfl).mpr ⟨5, ?_⟩
    decide +kernel

end Small

end Updown
