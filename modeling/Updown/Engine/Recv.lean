import Updown.Lib.Blocks
import Updown.Lib.Transition
import Updown.Transport.Receiver
import Updown.Engine.Resume

set_option autoImplicit false

/-! # Receiving a file

`RecvEngine::receive_file` (`engine/recv.rs`) is two tasks that meet at a channel of 64 blocks:
the receive task runs `receive_loop` of the UDP receiver, and the function itself is the writer
that takes decoded blocks off the channel. `RecvFile` is their joint state and `RecvFile.step`
one step of either task; the events say what the network and the disk do. The file is kept as
`write_all` was told it, which returns before its last bytes are there: `DeferredRecv` is a transfer
with the write that is still under way.
-/

namespace Updown

/-- The arguments of `receive_file`, with the ranges of their types. A file size beyond `i64` is
refused by `set_len`, before either task starts. -/
structure RecvParams where
  sessionId : UInt32
  sharedKey : Bytes
  blockSize : ℕ
  fileSize : ℕ
  totalBlocks : ℕ
  targetRateMbps : ℕ
  sharedKey_length : sharedKey.length = KEY_LEN
  blockSize_lt : blockSize < 2 ^ 64
  fileSize_lt : fileSize < 2 ^ 63
  totalBlocks_lt : totalBlocks < 2 ^ 32

/-- What is on disk for one output path: the file itself and the resume file beside it. -/
structure Disk where
  out : Option Bytes
  resume : Option ResumeFile
  deriving DecidableEq

/-- How `ResumeState::save` can end; its error is ignored, and a torn write leaves a file that
does not deserialize. -/
inductive SaveOutcome where
  | written
  | failed
  | torn

def SaveOutcome.apply (o : SaveOutcome) (s : ResumeState) (old : Option ResumeFile) :
    Option ResumeFile :=
  match o with
  | .written => some (.saved s)
  | .failed => old
  | .torn => some .corrupt

/-- Result of `receive_file`. -/
structure RecvResult where
  fileSize : ℕ
  totalPackets : ℕ
  blocksReceived : ℕ
  blake3Hash : Hash
  finalLossEstimate : ℚ
  finalFecRatio : ℚ
  totalExcessSymbols : ℕ
  deriving DecidableEq

/-- How `receive_loop` ends. -/
inductive LoopExit where
  /-- "All blocks received and decoded". -/
  | allReceived
  /-- Ten seconds without a datagram. -/
  | idleTimeout
  /-- The writer dropped its end of the channel. -/
  | channelClosed
  deriving DecidableEq

/-- Where the receive task is. -/
inductive RecvTask where
  | running
  /-- In `block_tx.send(block).await`. -/
  | sending (block : ReceivedBlock)
  | exited (why : LoopExit)
  | panicked (fault : Fault)
  deriving DecidableEq

/-- Where the writer is. -/
inductive WriterTask where
  /-- In the loop over `block_rx.recv()`. -/
  | looping
  /-- In `recv_handle.await`; the channel is still open. -/
  | awaiting
  | done (result : RecvResult)
  | failed (msg : String)
  | panicked (fault : Fault)

/-- `block_rx` is dropped when `receive_file` returns. -/
def WriterTask.channelOpen : WriterTask → Bool
  | .looping => true
  | .awaiting => true
  | _ => false

/-- `receive_file` has returned a result. -/
def WriterTask.finished : WriterTask → Bool
  | .done _ => true
  | _ => false

theorem WriterTask.exists_of_finished {w : WriterTask} (h : w.finished = true) :
    ∃ result, w = .done result := by
  cases w with
  | done result => exact ⟨result, rfl⟩
  | looping | awaiting | failed | panicked => cases h

/-- No more blocks come from the receive task. -/
def RecvTask.ended : RecvTask → Bool
  | .exited _ => true
  | .panicked _ => true
  | _ => false

/-- What has happened so far. No step depends on it. -/
structure RecvLog where
  /-- Datagrams read from the socket. -/
  arrived : List Bytes
  /-- Blocks put on the channel. -/
  delivered : List ReceivedBlock
  /-- Offset and length of each write to the output file. -/
  writes : List (ℕ × ℕ)

/-- The state of one `receive_file`. -/
structure RecvFile (Q : RaptorQ) where
  receiver : UdpReceiver Q
  task : RecvTask
  channel : List ReceivedBlock
  file : Bytes
  resumeFile : Option ResumeFile
  resume : ResumeState
  blocksWritten : ℕ
  bytesWritten : ℕ
  totalExcessSymbols : ℕ
  blocksSinceSave : ℕ
  writer : WriterTask
  log : RecvLog

/-- One step of `receive_file`, with what the environment decides about it. -/
inductive RecvEvent where
  | datagram (now : Clock) (data : Bytes)
  | recvError
  | idleTimeout
  /-- The check at the head of `receive_loop` succeeds. -/
  | exitAll
  | send
  | sendFailed
  /-- The writer takes a block; `save` is used when it persists the resume state. -/
  | take (save : SaveOutcome)
  /-- Seeking or writing fails after `n` bytes. -/
  | writeFails (n : ℕ)
  | channelEnd
  | finish (save : SaveOutcome)
  /-- Flushing or hashing the file fails. -/
  | ioFails

/-- The capacity of the block channel. -/
def CHANNEL_CAPACITY : ℕ := 64

namespace RecvParams

/-- Offset and length of the write of a block. -/
def writeRange (p : RecvParams) (blockId : ℕ) : Except Fault (ℕ × ℕ) := do
  let offset ← checkedMul blockId p.blockSize
  let last ← checkedSub .totalBlocksUnderflow p.totalBlocks 1
  if blockId = last then
    let remaining ← checkedSub .fileSizeUnderflow p.fileSize offset
    pure (offset, remaining)
  else
    pure (offset, p.blockSize)

/-- `(blocks * block_size).min(file_size)` in `u64` arithmetic. -/
def bytesOf (p : RecvParams) (blocks : ℕ) : ℕ := min (blocks * p.blockSize % 2 ^ 64) p.fileSize

end RecvParams

namespace RecvFile

variable {Q : RaptorQ}

/-- The state before the two loops: resume state loaded, output file opened and sized. -/
def start (Q : RaptorQ) (p : RecvParams) (rng : ℕ → Vector UInt8 4) (now : ℕ) (disk : Disk) :
    RecvFile Q :=
  let loaded := ResumeState.load disk.resume p.fileSize p.blockSize p.totalBlocks
  let resume := loaded.1.getD (.new p.sessionId p.fileSize p.blockSize p.totalBlocks)
  { receiver := .new Q p.sessionId (.fromKey p.sharedKey rng) p.blockSize p.fileSize
      p.totalBlocks p.targetRateMbps now
    task := .running
    channel := []
    file := Blocks.resize 0 p.fileSize (disk.out.getD [])
    resumeFile := loaded.2
    resume := resume
    blocksWritten := resume.completedCount
    bytesWritten := p.bytesOf resume.completedCount
    totalExcessSymbols := 0
    blocksSinceSave := 0
    writer := .looping
    log := ⟨[], [], []⟩ }

/-- What is on disk. -/
def disk (s : RecvFile Q) : Disk := { out := some s.file, resume := s.resumeFile }

/-- The receive task has handled a datagram. -/
def afterReceive (s : RecvFile Q) (data : Bytes) (r : UdpReceiver Q) (res : PacketResult) :
    RecvFile Q :=
  { s with
    receiver := r
    task :=
      match res with
      | .ok (some block) => .sending block
      | .panic fault => .panicked fault
      | _ => .running
    log := { s.log with arrived := s.log.arrived ++ [data] } }

@[simp] theorem afterReceive_receiver (s : RecvFile Q) (data : Bytes) (r : UdpReceiver Q)
    (res : PacketResult) : (s.afterReceive data r res).receiver = r := rfl

@[simp] theorem afterReceive_delivered (s : RecvFile Q) (data : Bytes) (r : UdpReceiver Q)
    (res : PacketResult) : (s.afterReceive data r res).log.delivered = s.log.delivered := rfl

/-- A block goes on the channel. -/
def pushBlock (s : RecvFile Q) (block : ReceivedBlock) : RecvFile Q :=
  { s with
    task := .running
    channel := s.channel ++ [block]
    log := { s.log with delivered := s.log.delivered ++ [block] } }

/-- Bytes are written to the output file. -/
def write (s : RecvFile Q) (offset : ℕ) (chunk : Bytes) : RecvFile Q :=
  { s with
    file := Blocks.patch 0 s.file offset chunk
    log := { s.log with writes := s.log.writes ++ [(offset, chunk.length)] } }

/-- A block has been written and marked. -/
def recordBlock (p : RecvParams) (save : SaveOutcome) (s : RecvFile Q) (block : ReceivedBlock)
    (resume : ResumeState) : RecvFile Q :=
  let written := s.blocksWritten + 1
  let persist := decide (8 ≤ s.blocksSinceSave + 1)
  { s with
    resume := resume
    blocksWritten := written
    bytesWritten := p.bytesOf written
    totalExcessSymbols := s.totalExcessSymbols + block.decodeStats.excessSymbols
    blocksSinceSave := if persist then 0 else s.blocksSinceSave + 1
    resumeFile := if persist then save.apply resume s.resumeFile else s.resumeFile
    writer := if p.totalBlocks ≤ written then .awaiting else .looping }

/-- `mark_complete`, and `blocks_written += 1` on a `u32`. -/
def markBlock (C : Crates) (s : RecvFile Q) (blockId : ℕ) (chunk : Bytes) :
    Except Fault ResumeState := do
  let resume ← s.resume.markComplete blockId (C.blake3 chunk)
  if s.blocksWritten + 1 < 2 ^ 32 then pure resume else .error .overflow

/-- The body of the writer loop for one block. -/
def takeBlock (C : Crates) (p : RecvParams) (save : SaveOutcome) (s : RecvFile Q)
    (block : ReceivedBlock) : RecvFile Q :=
  if s.resume.isComplete block.blockId then s
  else
    match p.writeRange block.blockId with
    | .error fault => { s with writer := .panicked fault }
    | .ok (offset, actualLen) =>
        if block.data.length < actualLen then { s with writer := .panicked .sliceOutOfRange }
        else
          let chunk := block.data.take actualLen
          let s := s.write offset chunk
          match s.markBlock C block.blockId chunk with
          | .error fault => { s with writer := .panicked fault }
          | .ok resume => s.recordBlock p save block resume

/-- A write error in the writer loop: part of the block is written, and the error returned. -/
def failWrite (p : RecvParams) (n : ℕ) (s : RecvFile Q) (block : ReceivedBlock) :
    RecvFile Q :=
  match p.writeRange block.blockId with
  | .error fault => { s with writer := .panicked fault }
  | .ok (offset, actualLen) =>
      if block.data.length < actualLen then { s with writer := .panicked .sliceOutOfRange }
      else
        { s.write offset ((block.data.take actualLen).take n) with
          writer := .failed "write error" }

/-- The end of `receive_file` once the receive task has returned its stats. -/
def finishTransfer (C : Crates) (save : SaveOutcome) (s : RecvFile Q) : RecvFile Q :=
  { s with
    resumeFile :=
      if s.resume.isTransferComplete then none else save.apply s.resume s.resumeFile
    writer := .done
      { fileSize := s.bytesWritten
        totalPackets := s.receiver.totalPacketsReceived
        blocksReceived := s.blocksWritten
        blake3Hash := C.blake3 s.file
        finalLossEstimate := s.receiver.adaptiveFec.lossEstimate
        finalFecRatio := s.receiver.adaptiveFec.recommendedRatio
        totalExcessSymbols := s.totalExcessSymbols } }

/-- One step; `none` when the event is not possible in the state. -/
def step (C : Crates) (p : RecvParams) (s : RecvFile C.raptorq) :
    RecvEvent → Option (RecvFile C.raptorq)
  | .datagram now data =>
      match s.task with
      | .running =>
          if s.receiver.allReceived then none
          else
            some (s.afterReceive data (s.receiver.receive C now data).1
              (s.receiver.receive C now data).2)
      | _ => none
  | .recvError =>
      match s.task with
      | .running => if s.receiver.allReceived then none else some s
      | _ => none
  | .idleTimeout =>
      match s.task with
      | .running =>
          if s.receiver.allReceived then none else some { s with task := .exited .idleTimeout }
      | _ => none
  | .exitAll =>
      match s.task with
      | .running =>
          if s.receiver.allReceived then some { s with task := .exited .allReceived } else none
      | _ => none
  | .send =>
      match s.task with
      | .sending block =>
          if s.writer.channelOpen ∧ s.channel.length < CHANNEL_CAPACITY then
            some (s.pushBlock block)
          else none
      | _ => none
  | .sendFailed =>
      match s.task with
      | .sending _ =>
          if s.writer.channelOpen then none else some { s with task := .exited .channelClosed }
      | _ => none
  | .take save =>
      match s.writer, s.channel with
      | .looping, block :: rest => some (({ s with channel := rest }).takeBlock C p save block)
      | _, _ => none
  | .writeFails n =>
      match s.writer, s.channel with
      | .looping, block :: rest =>
          if s.resume.isComplete block.blockId then none
          else some (({ s with channel := rest }).failWrite p n block)
      | _, _ => none
  | .channelEnd =>
      match s.writer, s.channel with
      | .looping, [] => if s.task.ended then some { s with writer := .awaiting } else none
      | _, _ => none
  | .finish save =>
      match s.writer, s.task with
      | .awaiting, .exited _ => some (s.finishTransfer C save)
      | .awaiting, .panicked _ => some { s with writer := .failed "task panicked" }
      | _, _ => none
  | .ioFails =>
      match s.writer with
      | .awaiting => some { s with writer := .failed "io error" }
      | _ => none

end RecvFile

end Updown
