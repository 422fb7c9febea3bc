import Updown.Engine.Recv

set_option autoImplicit false

/-! # The steps of a receiving transfer

Inversion of `RecvFile.step` and of the writer's handling of one block. Every invariant of a
transfer is derived from `step_cases` and `takeBlock_cases`.
-/

namespace Updown.RecvFile

variable {C : Crates} {p : RecvParams}

/-- What the writer can do with a block it takes off the channel. -/
inductive TakeCases (C : Crates) (p : RecvParams) (save : SaveOutcome) (s : RecvFile C.raptorq)
    (block : ReceivedBlock) : RecvFile C.raptorq → Prop
  | skipped (hdone : s.resume.isComplete block.blockId = true) : TakeCases C p save s block s
  | rangeFault (fault : Fault) (hnew : s.resume.isComplete block.blockId = false)
      (hrange : p.writeRange block.blockId = .error fault) :
      TakeCases C p save s block { s with writer := .panicked fault }
  | sliceFault (offset len : ℕ) (hnew : s.resume.isComplete block.blockId = false)
      (hrange : p.writeRange block.blockId = .ok (offset, len))
      (hshort : block.data.length < len) :
      TakeCases C p save s block { s with writer := .panicked .sliceOutOfRange }
  | markFault (offset len : ℕ) (fault : Fault) (hnew : s.resume.isComplete block.blockId = false)
      (hrange : p.writeRange block.blockId = .ok (offset, len)) (hlen : len ≤ block.data.length)
      (hmark : s.markBlock C block.blockId (block.data.take len) = .error fault) :
      TakeCases C p save s block
        { s.write offset (block.data.take len) with writer := .panicked fault }
  | wrote (offset len : ℕ) (resume : ResumeState)
      (hnew : s.resume.isComplete block.blockId = false)
      (hrange : p.writeRange block.blockId = .ok (offset, len)) (hlen : len ≤ block.data.length)
      (hmark : s.resume.markComplete block.blockId (C.blake3 (block.data.take len))
        = .ok resume)
      (hcount : s.blocksWritten + 1 < 2 ^ 32) :
      TakeCases C p save s block
        ((s.write offset (block.data.take len)).recordBlock p save block resume)

theorem markBlock_eq_ok {Q : RaptorQ} {s : RecvFile Q} {id : ℕ} {chunk : Bytes}
    {resume : ResumeState} (h : s.markBlock C id chunk = .ok resume) :
    s.resume.markComplete id (C.blake3 chunk) = .ok resume ∧ s.blocksWritten + 1 < 2 ^ 32 := by
  obtain ⟨resume', hmark, h⟩ := bind_eq_ok h
  split at h
  · next hcount => exact ⟨hmark.trans (congrArg _ (Except.ok.inj h)), hcount⟩
  · cases h

/-- Marking a block faults when the bitmap has an entry for it and the hashes have none, or when the
count is at its end. -/
theorem markBlock_eq_error {Q : RaptorQ} {s : RecvFile Q} {id : ℕ} {chunk : Bytes} {fault : Fault}
    (h : s.markBlock C id chunk = .error fault) :
    (s.resume.markComplete id (C.blake3 chunk) = .error fault ∧ fault = .indexOutOfRange) ∨
      (2 ^ 32 ≤ s.blocksWritten + 1 ∧ fault = .overflow) := by
  unfold markBlock at h
  cases hmark : s.resume.markComplete id (C.blake3 chunk) with
  | error fault' =>
      rw [hmark] at h
      obtain rfl : fault' = fault := Except.error.inj h
      exact Or.inl ⟨rfl, ResumeState.eq_of_markComplete_eq_error hmark⟩
  | ok resume =>
      rw [hmark] at h
      simp only [bind, Except.bind] at h
      split at h
      · cases h
      · next hcount => exact Or.inr ⟨Nat.not_lt.mp hcount, (Except.error.inj h).symm⟩

/-- The block can be marked and counted: there is a place for its hash if there is one for its bit,
and the count is not at its end. -/
structure CanRecord {Q : RaptorQ} (s : RecvFile Q) (id : ℕ) : Prop where
  hash : id < s.resume.completedBlocks.length → id < s.resume.blockHashes.length
  count : s.blocksWritten + 1 < 2 ^ 32

theorem CanRecord.markBlock_ne_error {Q : RaptorQ} {s : RecvFile Q} {id : ℕ} (h : s.CanRecord id)
    (chunk : Bytes) (fault : Fault) : s.markBlock C id chunk ≠ .error fault := by
  intro hmark
  rcases markBlock_eq_error hmark with ⟨hfault, -⟩ | ⟨hfull, -⟩
  · unfold ResumeState.markComplete at hfault
    split at hfault
    · next hbit =>
        rw [if_pos (h.hash hbit)] at hfault
        cases hfault
    · cases hfault
  · exact absurd h.count (Nat.not_lt.mpr hfull)

theorem takeBlock_cases (save : SaveOutcome) (s : RecvFile C.raptorq) (block : ReceivedBlock) :
    TakeCases C p save s block (s.takeBlock C p save block) := by
  unfold takeBlock
  by_cases hdone : s.resume.isComplete block.blockId = true
  · rw [if_pos hdone]
    exact .skipped hdone
  · have hnew : s.resume.isComplete block.blockId = false := by simpa using hdone
    rw [if_neg hdone]
    cases hrange : p.writeRange block.blockId with
    | error fault => exact .rangeFault fault hnew hrange
    | ok range =>
        obtain ⟨offset, len⟩ := range
        dsimp only
        by_cases hshort : block.data.length < len
        · rw [if_pos hshort]
          exact .sliceFault offset len hnew hrange hshort
        · rw [if_neg hshort]
          have hlen : len ≤ block.data.length := Nat.le_of_not_lt hshort
          have hblock : (s.write offset (block.data.take len)).markBlock C block.blockId
              (block.data.take len) = s.markBlock C block.blockId (block.data.take len) := rfl
          rw [hblock]
          cases hmark : s.markBlock C block.blockId (block.data.take len) with
          | error fault => exact .markFault offset len fault hnew hrange hlen hmark
          | ok resume =>
              obtain ⟨hcomplete, hcount⟩ := markBlock_eq_ok hmark
              exact .wrote offset len resume hnew hrange hlen hcomplete hcount

/-- What a write error leaves behind. -/
inductive FailCases (p : RecvParams) (n : ℕ) (s : RecvFile C.raptorq) (block : ReceivedBlock) :
    RecvFile C.raptorq → Prop
  | rangeFault (fault : Fault) (hrange : p.writeRange block.blockId = .error fault) :
      FailCases p n s block { s with writer := .panicked fault }
  | sliceFault (offset len : ℕ) (hrange : p.writeRange block.blockId = .ok (offset, len))
      (hshort : block.data.length < len) :
      FailCases p n s block { s with writer := .panicked .sliceOutOfRange }
  | partly (offset len : ℕ) (hrange : p.writeRange block.blockId = .ok (offset, len))
      (hlen : len ≤ block.data.length) :
      FailCases p n s block
        { s.write offset ((block.data.take len).take n) with writer := .failed "write error" }

theorem failWrite_cases (n : ℕ) (s : RecvFile C.raptorq) (block : ReceivedBlock) :
    FailCases p n s block (s.failWrite p n block) := by
  unfold failWrite
  cases hrange : p.writeRange block.blockId with
  | error fault => exact .rangeFault fault hrange
  | ok range =>
      obtain ⟨offset, len⟩ := range
      dsimp only
      by_cases hshort : block.data.length < len
      · rw [if_pos hshort]
        exact .sliceFault offset len hrange hshort
      · rw [if_neg hshort]
        exact .partly offset len hrange (Nat.le_of_not_lt hshort)

/-- The steps of a transfer. -/
inductive StepCases (C : Crates) (p : RecvParams) (s : RecvFile C.raptorq) :
    RecvEvent → RecvFile C.raptorq → Prop
  | datagram (now : Clock) (data : Bytes) (r : UdpReceiver C.raptorq) (res : PacketResult)
      (htask : s.task = .running) (hopen : ¬ s.receiver.allReceived)
      (hconfig : s.receiver.SameConfig r) (heffect : s.receiver.Effect C data r res) :
      StepCases C p s (.datagram now data) (s.afterReceive data r res)
  | recvError (htask : s.task = .running) (hopen : ¬ s.receiver.allReceived) :
      StepCases C p s .recvError s
  | idleTimeout (htask : s.task = .running) (hopen : ¬ s.receiver.allReceived) :
      StepCases C p s .idleTimeout { s with task := .exited .idleTimeout }
  | exitAll (htask : s.task = .running) (hall : s.receiver.allReceived) :
      StepCases C p s .exitAll { s with task := .exited .allReceived }
  | send (block : ReceivedBlock) (htask : s.task = .sending block)
      (hopen : s.writer.channelOpen = true) (hroom : s.channel.length < CHANNEL_CAPACITY) :
      StepCases C p s .send (s.pushBlock block)
  | sendFailed (block : ReceivedBlock) (htask : s.task = .sending block)
      (hclosed : s.writer.channelOpen = false) :
      StepCases C p s .sendFailed { s with task := .exited .channelClosed }
  | take (save : SaveOutcome) (block : ReceivedBlock) (rest : List ReceivedBlock)
      (s' : RecvFile C.raptorq) (hwriter : s.writer = .looping)
      (hchannel : s.channel = block :: rest)
      (htake : TakeCases C p save { s with channel := rest } block s') :
      StepCases C p s (.take save) s'
  | writeFails (n : ℕ) (block : ReceivedBlock) (rest : List ReceivedBlock)
      (s' : RecvFile C.raptorq) (hwriter : s.writer = .looping)
      (hchannel : s.channel = block :: rest)
      (hnew : s.resume.isComplete block.blockId = false)
      (hfail : FailCases p n { s with channel := rest } block s') :
      StepCases C p s (.writeFails n) s'
  | channelEnd (hwriter : s.writer = .looping) (hchannel : s.channel = [])
      (hended : s.task.ended = true) :
      StepCases C p s .channelEnd { s with writer := .awaiting }
  | finish (save : SaveOutcome) (why : LoopExit) (hwriter : s.writer = .awaiting)
      (htask : s.task = .exited why) :
      StepCases C p s (.finish save) (s.finishTransfer C save)
  | joinFails (save : SaveOutcome) (fault : Fault) (hwriter : s.writer = .awaiting)
      (htask : s.task = .panicked fault) :
      StepCases C p s (.finish save) { s with writer := .failed "task panicked" }
  | ioFails (hwriter : s.writer = .awaiting) :
      StepCases C p s .ioFails { s with writer := .failed "io error" }

/-- **Inversion of a step.** -/
theorem step_cases {s s' : RecvFile C.raptorq} {e : RecvEvent} (h : step C p s e = some s') :
    StepCases C p s e s' := by
  cases e with
  | datagram now data =>
      simp only [step] at h
      split at h
      · next htask =>
          split at h
          · cases h
          · next hopen =>
              obtain rfl := Option.some.inj h
              obtain ⟨hconfig, heffect⟩ := s.receiver.receive_effect C now data
              exact .datagram now data _ _ htask hopen hconfig heffect
      · cases h
  | recvError =>
      simp only [step] at h
      split at h
      · next htask =>
          split at h
          · cases h
          · next hopen =>
              obtain rfl := Option.some.inj h
              exact .recvError htask hopen
      · cases h
  | idleTimeout =>
      simp only [step] at h
      split at h
      · next htask =>
          split at h
          · cases h
          · next hopen =>
              obtain rfl := Option.some.inj h
              exact .idleTimeout htask hopen
      · cases h
  | exitAll =>
      simp only [step] at h
      split at h
      · next htask =>
          split at h
          · next hall =>
              obtain rfl := Option.some.inj h
              exact .exitAll htask hall
          · cases h
      · cases h
  -- a block in hand waits for room, and is lost once the writer has dropped its end
  | send =>
      simp only [step] at h
      split at h
      · next block htask =>
          split at h
          · next hroom =>
              obtain rfl := Option.some.inj h
              exact .send block htask hroom.1 hroom.2
          · cases h
      · cases h
  | sendFailed =>
      simp only [step] at h
      split at h
      · next block htask =>
          split at h
          · cases h
          · next hclosed =>
              obtain rfl := Option.some.inj h
              exact .sendFailed block htask (by simpa using hclosed)
      · cases h
  | take save =>
      simp only [step] at h
      split at h
      · next block rest hwriter hchannel =>
          obtain rfl := Option.some.inj h
          exact .take save block rest _ hwriter hchannel (takeBlock_cases save _ block)
      · cases h
  | writeFails n =>
      simp only [step] at h
      split at h
      · next block rest hwriter hchannel =>
          split at h
          · cases h
          · next hnew =>
              obtain rfl := Option.some.inj h
              exact .writeFails n block rest _ hwriter hchannel (by simpa using hnew)
                (failWrite_cases n _ block)
      · cases h
  | channelEnd =>
      simp only [step] at h
      split at h
      · next hwriter hchannel =>
          split at h
          · next hended =>
              obtain rfl := Option.some.inj h
              exact .channelEnd hwriter hchannel hended
          · cases h
      · cases h
  -- the handle gives the result of a task that has exited, or its panic
  | finish save =>
      simp only [step] at h
      split at h
      · next why hwriter htask =>
          obtain rfl := Option.some.inj h
          exact .finish save why hwriter htask
      · next fault hwriter htask =>
          obtain rfl := Option.some.inj h
          exact .joinFails save fault hwriter htask
      · cases h
  | ioFails =>
      simp only [step] at h
      split at h
      · next hwriter =>
          obtain rfl := Option.some.inj h
          exact .ioFails hwriter
      · cases h

/-! ## Steps that are possible -/

section

variable {s : RecvFile C.raptorq}

theorem step_datagram (now : Clock) (data : Bytes) (htask : s.task = .running)
    (hopen : ¬ s.receiver.allReceived) :
    RecvFile.step C p s (.datagram now data)
      = some (s.afterReceive data (s.receiver.receive C now data).1
          (s.receiver.receive C now data).2) := by
  simp only [step, htask, if_neg hopen]

theorem step_idleTimeout (htask : s.task = .running) (hopen : ¬ s.receiver.allReceived) :
    RecvFile.step C p s .idleTimeout = some { s with task := .exited .idleTimeout } := by
  simp only [step, htask, if_neg hopen]

theorem step_exitAll (htask : s.task = .running) (hall : s.receiver.allReceived) :
    RecvFile.step C p s .exitAll = some { s with task := .exited .allReceived } := by
  simp only [step, htask, if_pos hall]

theorem step_send {block : ReceivedBlock} (htask : s.task = .sending block)
    (hopen : s.writer.channelOpen = true) (hroom : s.channel.length < CHANNEL_CAPACITY) :
    RecvFile.step C p s .send = some (s.pushBlock block) := by
  simp only [step, htask, hopen, hroom, and_self, if_true]

theorem step_take (save : SaveOutcome) {block : ReceivedBlock} {rest : List ReceivedBlock}
    (hwriter : s.writer = .looping) (hchannel : s.channel = block :: rest) :
    RecvFile.step C p s (.take save)
      = some (({ s with channel := rest } : RecvFile C.raptorq).takeBlock C p save block) := by
  simp only [step, hwriter, hchannel]

theorem step_channelEnd (hwriter : s.writer = .looping) (hchannel : s.channel = [])
    (hended : s.task.ended = true) :
    RecvFile.step C p s .channelEnd = some { s with writer := .awaiting } := by
  simp only [step, hwriter, hchannel, hended, if_true]

theorem step_finish (save : SaveOutcome) {why : LoopExit} (hwriter : s.writer = .awaiting)
    (htask : s.task = .exited why) :
    RecvFile.step C p s (.finish save) = some (s.finishTransfer C save) := by
  simp only [step, hwriter, htask]

end

end Updown.RecvFile
