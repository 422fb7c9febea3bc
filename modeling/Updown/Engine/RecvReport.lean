import Updown.Engine.RecvBooks
import Updown.Engine.ReceivedSize

set_option autoImplicit false

/-! # What a transfer decodes and reports

The books of the receiver over the runs of `receive_file`. The blocks of a transfer do not depend on
one another: each is decoded from its own packets (`blocks_independent`). The report at the end
counts every datagram and summarizes the blocks that were delivered (`report_of_blocks`).
-/

namespace Updown.RecvFile

open Transition

variable {C : Crates} {p : RecvParams} {P : RecvFile C.raptorq → RecvEvent → Prop}
  {rng : ℕ → Vector UInt8 4} {now : ℕ} {disk : Disk} {s s' : RecvFile C.raptorq}

/-- The receive task takes a datagram while it runs. -/
theorem datagram_eq {clock : Clock} {data : Bytes}
    (h : step C p s (.datagram clock data) = some s') :
    s.task = .running ∧ s' = s.afterReceive data (s.receiver.receive C clock data).1
      (s.receiver.receive C clock data).2 := by
  simp only [step] at h
  split at h
  · next htask =>
      split at h
      · cases h
      · exact ⟨htask, (Option.some.inj h).symm⟩
  · cases h

/-! ## The books over a run -/

/-- The books are right about the blocks decoded so far. One of them is lost if the writer was gone
before it could be sent. -/
def Booked (C : Crates) (p : RecvParams) (now : ℕ) (s : RecvFile C.raptorq) : Prop :=
  ∃ blocks, s.decodedBlocks <+: blocks ∧
    (s.task ≠ .exited .channelClosed → blocks = s.decodedBlocks) ∧
    UdpReceiver.Controllers C p now s.log.arrived blocks s.receiver ∧
    ((∀ fault, s.task ≠ .panicked fault) →
      UdpReceiver.Books C p s.log.arrived blocks s.receiver)

theorem booked_start : Booked C p now (start C.raptorq p rng now disk) :=
  ⟨[], List.prefix_rfl, fun _ => rfl, UdpReceiver.controllers_new C p rng now,
    fun _ => UdpReceiver.books_new C p rng now⟩

/-- A step that leaves the receiver and loses no block. -/
theorem Booked.of_eq (h : Booked C p now s) (hreceiver : s'.receiver = s.receiver)
    (harrived : s'.log.arrived = s.log.arrived) (hdecoded : s'.decodedBlocks = s.decodedBlocks)
    (hclosed : s'.task ≠ .exited .channelClosed → s.task ≠ .exited .channelClosed)
    (hpanic : (∀ fault, s'.task ≠ .panicked fault) → ∀ fault, s.task ≠ .panicked fault) :
    Booked C p now s' := by
  obtain ⟨blocks, hpre, heq, hcontrollers, hbooks⟩ := h
  refine ⟨blocks, hdecoded ▸ hpre, fun hne => hdecoded ▸ heq (hclosed hne), ?_, fun hne => ?_⟩
  · rw [hreceiver, harrived]
    exact hcontrollers
  · rw [hreceiver, harrived]
    exact hbooks (hpanic hne)

theorem Booked.of_sameReceiving (h : Booked C p now s) (hs : s.SameReceiving s') :
    Booked C p now s' :=
  h.of_eq hs.receiver hs.arrived (by simp only [decodedBlocks, hs.task, hs.delivered])
    (by rw [hs.task]; exact id) (by rw [hs.task]; exact id)

/-- The blocks decoded after a datagram. -/
theorem decodedBlocks_afterReceive {data : Bytes} {r : UdpReceiver C.raptorq} {res : PacketResult}
    (htask : s.task = .running) :
    (s.afterReceive data r res).decodedBlocks = s.decodedBlocks ++ res.blocks := by
  have hnone : s.task.inHand = [] := by rw [htask]; rfl
  rw [decodedBlocks, decodedBlocks, afterReceive_delivered, hnone, List.append_nil]
  cases res with
  | ok out => cases out <;> rfl
  | err | panic => rfl

/-- **Every step keeps the books.** -/
theorem Booked.step {e : RecvEvent} (h : Booked C p now s)
    (hstep : RecvFile.step C p s e = some s') : Booked C p now s' := by
  cases step_cases hstep with
  | datagram clock data r res =>
      obtain ⟨htask, heq⟩ := datagram_eq hstep
      rw [heq]
      obtain ⟨blocks, -, hblocks, hcontrollers, hbooks⟩ := h
      obtain rfl := hblocks (by rw [htask]; exact RecvTask.noConfusion)
      refine ⟨_, List.prefix_rfl, fun _ => rfl, ?_, fun hok => ?_⟩
      · rw [decodedBlocks_afterReceive htask]
        exact hcontrollers.receive
      · rw [decodedBlocks_afterReceive htask]
        refine (hbooks (by rw [htask]; exact fun _ => RecvTask.noConfusion)).receive
          fun fault hfault => hok fault ?_
        simp only [afterReceive, hfault]
  | recvError => exact h
  | idleTimeout htask | exitAll htask =>
      refine h.of_eq rfl rfl ?_ (fun _ => ?_) (fun _ fault => ?_)
      · simp only [decodedBlocks, htask, RecvTask.inHand]
      · rw [htask]
        exact RecvTask.noConfusion
      · rw [htask]
        exact RecvTask.noConfusion
  | send block htask =>
      refine h.of_eq rfl rfl ?_ (fun _ => ?_) (fun _ fault => ?_)
      · simp only [decodedBlocks, pushBlock, htask, RecvTask.inHand, List.append_nil]
      · rw [htask]
        exact RecvTask.noConfusion
      · rw [htask]
        exact RecvTask.noConfusion
  -- the block in hand is lost: what was delivered is a prefix from here on
  | sendFailed block htask =>
      obtain ⟨blocks, hpre, hblocks, hcontrollers, hbooks⟩ := h
      refine ⟨blocks, List.IsPrefix.trans ?_ hpre, fun hne => absurd rfl hne, hcontrollers,
        fun _ => hbooks (by rw [htask]; exact fun _ => RecvTask.noConfusion)⟩
      simp [decodedBlocks, RecvTask.inHand]
  | take save block rest s' hwriter hchannel htake =>
      obtain ⟨hsame, -⟩ := htake.frame
      exact h.of_sameReceiving ⟨hsame.receiver, hsame.task, hsame.delivered, hsame.arrived⟩
  | writeFails n block rest s' hwriter hchannel hnew hfail =>
      obtain ⟨hsame, -⟩ := hfail.frame
      exact h.of_sameReceiving ⟨hsame.receiver, hsame.task, hsame.delivered, hsame.arrived⟩
  | channelEnd | finish | joinFails | ioFails => exact h.of_sameReceiving ⟨rfl, rfl, rfl, rfl⟩

theorem booked_of_reaches
    (hrun : Reaches (RecvFile.step C p) P (start C.raptorq p rng now disk) s) : Booked C p now s :=
  hrun.invariant booked_start fun _ _ _ hb _ hs => hb.step hs

/-- The decoder of a block of `len` bytes that is fed the packets of block `id` that have arrived,
and those only. -/
def decodedAlone (C : Crates) (p : RecvParams) (s : RecvFile C.raptorq) (id len : ℕ) :
    FecDecoder C.raptorq × Option (Bytes × DecodeStats) :=
  (FecDecoder.new C.raptorq len SYMBOL_SIZE).drive (p.packetsOf C id s.log.arrived)

/-- **The blocks of a transfer do not depend on one another**, whatever arrives and in whatever
order: a block is complete exactly if its own packets decode it, it is then what they decode to, and
before that it has an entry in both tables exactly if a packet of it has arrived, with the state and
the count of a decoder that was fed these packets only. -/
theorem blocks_independent
    (hrun : Reaches (RecvFile.step C p) P (start C.raptorq p rng now disk) s)
    (hok : ∀ fault, s.task ≠ .panicked fault) {id len : ℕ} (hlen : p.decoderLen id = .ok len) :
    (id ∈ s.receiver.completedBlocks ↔ (decodedAlone C p s id len).2.isSome) ∧
    (∀ block ∈ s.decodedBlocks, block.blockId = id →
      (decodedAlone C p s id len).2 = some (block.data, block.decodeStats) ∧
      block.packetsReceived = block.decodeStats.packetsNeeded) ∧
    ((s.receiver.pendingBlocks id).isSome ↔
      (decodedAlone C p s id len).2 = none ∧ p.packetsOf C id s.log.arrived ≠ []) ∧
    (s.receiver.blockExpectTimes id).isSome = (s.receiver.pendingBlocks id).isSome ∧
    (∀ entry, s.receiver.pendingBlocks id = some entry →
      entry.decoder = (decodedAlone C p s id len).1 ∧
      entry.packetsReceived = (p.packetsOf C id s.log.arrived).length) := by
  obtain ⟨blocks, hpre, -, -, hbooks⟩ := booked_of_reaches hrun
  have h := hbooks hok
  -- identifiers are complete once, so the report of a block is that of its packets alone
  have hfinished : ∀ block ∈ blocks, block.blockId = id →
      (decodedAlone C p s id len).2 = some (block.data, block.decodeStats) := by
    rintro block hblock rfl
    obtain ⟨len', hlen', hout⟩ := h.finished block hblock
    obtain rfl : len' = len := Except.ok.inj (hlen'.symm.trans hlen)
    exact hout
  have hcomplete : id ∈ s.receiver.completedBlocks ↔ (decodedAlone C p s id len).2.isSome := by
    constructor
    · intro hid
      rw [h.completed] at hid
      obtain ⟨block, hblock, heq⟩ := List.mem_map.mp hid
      rw [hfinished block hblock heq]
      rfl
    · intro hsome
      by_contra hid
      rw [decodedAlone, h.unfinished id len hid hlen] at hsome
      cases hsome
  refine ⟨hcomplete, fun block hblock heq => ?_, ?_, h.expected id, fun entry hentry => ⟨?_, ?_⟩⟩
  · exact ⟨hfinished block (hpre.subset hblock) heq, h.received block (hpre.subset hblock)⟩
  · rw [h.pending id, hcomplete, Option.not_isSome_iff_eq_none]
  · have hid := ((h.pending id).mp (by rw [hentry]; rfl)).1
    rw [decodedAlone, h.unfinished id len hid hlen, UdpReceiver.decoderFor, hentry]
  · exact h.packets id entry hentry

/-- Two packets of the second block and junk have arrived. -/
theorem blocks_independent_small :
    ∃ s, runAll (RecvFile.step PlainCrates.plainCrates Small.params)
        (start _ Small.params Small.rng 0 Small.disk) (Small.events.take 5) = some s ∧
      s.receiver.completedBlocks = [1] ∧
      (decodedAlone PlainCrates.plainCrates Small.params s 1 1).2.isSome := by
  obtain ⟨s, hs, hcheck⟩ := exists_of_runAll (RecvFile.step PlainCrates.plainCrates Small.params)
    (start _ Small.params Small.rng 0 Small.disk) (Small.events.take 5)
    (fun s => decide (s.task = .running) && decide (s.receiver.completedBlocks = [1]))
    (by decide +kernel)
  simp only [Bool.and_eq_true, decide_eq_true_eq] at hcheck
  obtain ⟨htask, hcompleted⟩ := hcheck
  have hrun := Reaches.of_runAll (P := fun _ _ => True) hs
    (allowedAlong_of_forall fun _ _ _ => trivial)
  refine ⟨s, hs, hcompleted, ?_⟩
  exact (blocks_independent hrun (by rw [htask]; exact fun _ => RecvTask.noConfusion) rfl).1.mp
    (by rw [hcompleted]; exact List.mem_singleton_self 1)

/-! ## The report -/

/-- The excess symbols of the blocks that the resume state at the start did not have. -/
def excessOf (loaded : ResumeState) (blocks : List ReceivedBlock) : ℕ :=
  ((blocks.filter fun block => !loaded.isComplete block.blockId).map
    (·.decodeStats.excessSymbols)).sum

theorem excessOf_snoc (loaded : ResumeState) (blocks : List ReceivedBlock) (block : ReceivedBlock) :
    excessOf loaded (blocks ++ [block]) = excessOf loaded blocks
      + if loaded.isComplete block.blockId then 0 else block.decodeStats.excessSymbols := by
  rw [excessOf, List.filter_append, List.map_append, List.sum_append]
  cases h : loaded.isComplete block.blockId <;> simp [excessOf, h]

/-- The report so far: the symbols in excess are those of the blocks the writer has taken, and it
has marked no other. At the end the report has the figures of the receiver, which is done. -/
structure Reported {Q : RaptorQ} (loaded : ResumeState) (s : RecvFile Q) : Prop where
  excess : s.writer.channelOpen = true ∨ s.writer.finished = true →
    ∃ taken, s.log.delivered = taken ++ s.channel ∧
      s.totalExcessSymbols = excessOf loaded taken ∧
      ∀ id, (∀ block ∈ taken, block.blockId ≠ id) →
        s.resume.isComplete id = loaded.isComplete id
  closed : s.task = .exited .channelClosed →
    s.writer.channelOpen = false ∧ s.writer.finished = false
  done : ∀ result, s.writer = .done result →
    (∃ why, s.task = .exited why) ∧
    result.totalPackets = s.receiver.totalPacketsReceived ∧
    result.finalLossEstimate = s.receiver.adaptiveFec.lossEstimate ∧
    result.finalFecRatio = s.receiver.adaptiveFec.recommendedRatio ∧
    result.totalExcessSymbols = s.totalExcessSymbols

theorem reported_start (Q : RaptorQ) (rng : ℕ → Vector UInt8 4) (now : ℕ) (disk : Disk) :
    (start Q p rng now disk).Reported (start Q p rng now disk).resume where
  excess := fun _ => ⟨[], rfl, rfl, fun _ _ => rfl⟩
  closed := by intro h; cases h
  done := by intro result h; cases h

/-- A step of the receive task that puts nothing on the channel. -/
theorem Reported.of_task {Q : RaptorQ} {loaded : ResumeState} {s s' : RecvFile Q}
    (h : s.Reported loaded) (hwriter : s'.writer = s.writer) (hchannel : s'.channel = s.channel)
    (hdelivered : s'.log.delivered = s.log.delivered) (hresume : s'.resume = s.resume)
    (hexcess : s'.totalExcessSymbols = s.totalExcessSymbols)
    (hrunning : ∀ why, s.task ≠ .exited why)
    (hclosed : s'.task = .exited .channelClosed → s.writer.channelOpen = false) :
    s'.Reported loaded := by
  have hnot : ∀ result, s.writer ≠ .done result := by
    intro result hdone
    obtain ⟨⟨why, htask⟩, -⟩ := h.done result hdone
    exact hrunning why htask
  refine ⟨?_, fun htask => ?_, fun result hdone => absurd (hwriter ▸ hdone) (hnot result)⟩
  · rw [hwriter, hchannel, hdelivered, hresume, hexcess]
    exact h.excess
  · rw [hwriter]
    refine ⟨hclosed htask, ?_⟩
    by_contra hfin
    obtain ⟨result, hdone⟩ := WriterTask.exists_of_finished (by simpa using hfin)
    exact hnot result hdone

/-- The writer has failed. -/
theorem Reported.of_failed {Q : RaptorQ} {loaded : ResumeState} {s : RecvFile Q}
    (hopen : s.writer.channelOpen = false) (hfin : s.writer.finished = false) :
    s.Reported loaded where
  excess := by
    rintro (h | h)
    · rw [hopen] at h
      cases h
    · rw [hfin] at h
      cases h
  closed := fun _ => ⟨hopen, hfin⟩
  done := by
    intro result hdone
    rw [hdone] at hfin
    cases hfin

/-- **A block that is taken adds its excess once**, unless the resume file had it. -/
theorem Reported.take {loaded : ResumeState} {save : SaveOutcome} {block : ReceivedBlock}
    {rest : List ReceivedBlock} (h : s.Reported loaded) (hb : s.Bookkeeping p)
    (hwriter : s.writer = .looping) (hchannel : s.channel = block :: rest)
    (htake : TakeCases C p save { s with channel := rest } block s') : s'.Reported loaded := by
  obtain ⟨taken, heq, hexcess, hmarked⟩ := h.excess (Or.inl (by rw [hwriter]; rfl))
  have hsplit : s.log.delivered = (taken ++ [block]) ++ rest := by
    rw [heq, hchannel, List.append_assoc, List.singleton_append]
  have hclosed : s.task ≠ .exited .channelClosed := by
    intro htask
    have := (h.closed htask).1
    rw [hwriter] at this
    cases this
  -- ids are delivered once, so that only the resume file can have marked this one
  have hloaded : s.resume.isComplete block.blockId = loaded.isComplete block.blockId := by
    refine hmarked _ fun b hbmem hid => ?_
    have hnodup := hb.nodup_delivered
    rw [hsplit, List.map_append, List.map_append, List.map_singleton] at hnodup
    have hdisjoint := (List.nodup_append.mp hnodup.of_append_left).2.2
    exact hdisjoint _ (List.mem_map_of_mem hbmem) _ (List.mem_singleton_self _) hid
  have hother : ∀ id, (∀ b ∈ taken ++ [block], b.blockId ≠ id) →
      id ≠ block.blockId ∧ s.resume.isComplete id = loaded.isComplete id := by
    intro id hid
    refine ⟨fun heq => hid block (by simp) heq.symm, hmarked id fun b hbmem => ?_⟩
    exact hid b (List.mem_append_left _ hbmem)
  cases htake with
  | skipped hdone =>
      refine ⟨fun _ => ⟨taken ++ [block], hsplit, ?_, fun id hid => (hother id hid).2⟩,
        fun htask => absurd htask hclosed, fun result hres => ?_⟩
      · rw [excessOf_snoc, ← hloaded, if_pos hdone]
        exact hexcess
      · rw [show _ = WriterTask.looping from hwriter] at hres
        cases hres
  | rangeFault | sliceFault | markFault => exact .of_failed rfl rfl
  | wrote offset len resume hnew hrange hlen hmark =>
      refine ⟨fun _ => ⟨taken ++ [block], hsplit, ?_, fun id hid => ?_⟩,
        fun htask => absurd htask hclosed, fun result hres => ?_⟩
      · rw [excessOf_snoc, ← hloaded, show s.resume.isComplete block.blockId = false from hnew,
          if_neg Bool.false_ne_true, ← hexcess]
        rfl
      · obtain ⟨hne, hsame⟩ := hother id hid
        rw [recordBlock_resume, ← hsame]
        exact ResumeState.isComplete_markComplete_of_ne hmark hne
      · simp only [recordBlock] at hres
        split at hres <;> cases hres

/-- **Every step keeps the report.** -/
theorem Reported.step {loaded : ResumeState} {e : RecvEvent} (h : s.Reported loaded)
    (hb : s.Bookkeeping p) (hstep : RecvFile.step C p s e = some s') : s'.Reported loaded := by
  cases step_cases hstep with
  | datagram clock data r res htask =>
      refine h.of_task rfl rfl rfl rfl rfl (by rw [htask]; exact fun _ => RecvTask.noConfusion)
        fun hclosed => ?_
      simp only [afterReceive] at hclosed
      split at hclosed <;> cases hclosed
  | recvError => exact h
  | idleTimeout htask | exitAll htask =>
      exact h.of_task rfl rfl rfl rfl rfl (by rw [htask]; exact fun _ => RecvTask.noConfusion)
        fun hclosed => by cases hclosed
  | sendFailed block htask hclosed =>
      exact h.of_task rfl rfl rfl rfl rfl (by rw [htask]; exact fun _ => RecvTask.noConfusion)
        fun _ => hclosed
  -- the block in hand is pushed to the channel: the excess is one block longer
  | send block htask hopen =>
      refine ⟨fun hw => ?_, fun hclosed => (by cases hclosed), fun result hdone => ?_⟩
      · obtain ⟨taken, heq, hexcess, hmarked⟩ := h.excess hw
        exact ⟨taken, by simp only [pushBlock, heq, List.append_assoc], hexcess, hmarked⟩
      · rw [show s.writer = .done result from hdone] at hopen
        cases hopen
  | take save block rest s' hwriter hchannel htake => exact h.take hb hwriter hchannel htake
  | writeFails n block rest s' hwriter hchannel hnew hfail =>
      cases hfail with
      | _ => exact .of_failed rfl rfl
  | channelEnd hwriter =>
      -- the channel is closed only once the writer has ended
      have hclosed : s.task ≠ .exited .channelClosed := by
        intro htask
        have := (h.closed htask).1
        rw [hwriter] at this
        cases this
      exact ⟨fun _ => h.excess (Or.inl (by rw [hwriter]; rfl)), fun htask => absurd htask hclosed,
        fun result hdone => by cases hdone⟩
  | finish save why hwriter htask =>
      have hclosed : s.task ≠ .exited .channelClosed := by
        intro htask
        have := (h.closed htask).1
        rw [hwriter] at this
        cases this
      refine ⟨fun _ => h.excess (Or.inl (by rw [hwriter]; rfl)), fun htask => absurd htask hclosed,
        fun result hdone => ?_⟩
      obtain rfl := WriterTask.done.inj hdone
      exact ⟨⟨why, htask⟩, rfl, rfl, rfl, rfl⟩
  | joinFails | ioFails => exact .of_failed rfl rfl

theorem reported_of_reaches
    (hrun : Reaches (RecvFile.step C p) P (start C.raptorq p rng now disk) s) :
    s.Reported (start C.raptorq p rng now disk).resume :=
  hrun.invariant_along (reported_start _ _ _ _) fun _ _ _ hu h _ hs =>
    h.step (bookkeeping_of_reaches hu) hs

/-- **The report is about what arrived and was delivered.** In every run that ends with a result,
the packets are all datagrams that arrived, the loss estimate and the redundancy are those of a
controller that was fed the statistics of the delivered blocks in their order, and the excess
symbols are those of the delivered blocks that the writer took and the resume file did not have. -/
theorem report_of_blocks
    (hrun : Reaches (RecvFile.step C p) P (start C.raptorq p rng now disk) s) {result : RecvResult}
    (hdone : s.writer = .done result) :
    result.totalPackets = s.log.arrived.length ∧
    result.finalLossEstimate
      = (AdaptiveFec.new.run (s.log.delivered.map (·.decodeStats))).lossEstimate ∧
    result.finalFecRatio
      = (AdaptiveFec.new.run (s.log.delivered.map (·.decodeStats))).recommendedRatio ∧
    (∃ taken, s.log.delivered = taken ++ s.channel ∧
      result.totalExcessSymbols = excessOf (start C.raptorq p rng now disk).resume taken) ∧
    ∀ block ∈ s.log.delivered, ∃ len, p.decoderLen block.blockId = .ok len ∧
      (decodedAlone C p s block.blockId len).2 = some (block.data, block.decodeStats) := by
  have hreported := reported_of_reaches hrun
  obtain ⟨⟨why, htask⟩, hpackets, hloss, hratio, hexcess⟩ := hreported.done result hdone
  obtain ⟨taken, heq, htaken, -⟩ := hreported.excess (Or.inr (by rw [hdone]; rfl))
  obtain ⟨blocks, -, hblocks, hcontrollers, hbooks⟩ := booked_of_reaches hrun
  have hdelivered : s.decodedBlocks = s.log.delivered := by
    rw [decodedBlocks, htask]
    exact List.append_nil _
  obtain rfl := hblocks fun hclosed => by
    have := (hreported.closed hclosed).2
    rw [hdone] at this
    cases this
  rw [hdelivered] at hcontrollers hbooks
  refine ⟨hpackets.trans hcontrollers.totalPackets, ?_, ?_, ⟨taken, heq, hexcess.trans htaken⟩, ?_⟩
  · rw [hloss, hcontrollers.adaptiveFec]
  · rw [hratio, hcontrollers.adaptiveFec]
  · exact (hbooks (by rw [htask]; exact fun _ => RecvTask.noConfusion)).finished

theorem report_of_blocks_small :
    ∃ s result, runAll (RecvFile.step PlainCrates.plainCrates Small.params)
        (start _ Small.params Small.rng 0 Small.disk) Small.events = some s ∧
      s.writer = .done result ∧ result.totalPackets = 4 := by
  obtain ⟨s, hs, hcheck⟩ := exists_of_runAll (RecvFile.step PlainCrates.plainCrates Small.params)
    (start _ Small.params Small.rng 0 Small.disk) Small.events
    (fun s => s.writer.finished && decide (s.log.arrived.length = 4)) (by decide +kernel)
  simp only [Bool.and_eq_true, decide_eq_true_eq] at hcheck
  obtain ⟨hfinished, harrived⟩ := hcheck
  obtain ⟨result, hdone⟩ := WriterTask.exists_of_finished hfinished
  have hrun := Reaches.of_runAll (P := fun _ _ => True) hs
    (allowedAlong_of_forall fun _ _ _ => trivial)
  exact ⟨s, result, hs, hdone, (report_of_blocks hrun hdone).1.trans harrived⟩

end Updown.RecvFile
