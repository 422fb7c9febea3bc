import Updown.Engine.RecvContent
import Updown.Engine.SendPackets

set_option autoImplicit false

/-! # Runs of a receiving transfer

Building blocks for results that say what a transfer *can* do. `Supply` says that the environment
can deliver every source packet of a block; `exists_decoded` then leads from any state between
blocks to one where that block is in hand, `exists_written` on to one where it is written and
marked, and `exists_written_list` and `exists_queued_list` do the same for a list of blocks.
-/

namespace Updown.RecvFile

open Transition

variable {C : Crates} {p : RecvParams} {P : RecvFile C.raptorq → RecvEvent → Prop}

/-- The writer's part of the state and the channel are the same. -/
structure SameWriting {Q : RaptorQ} (s s' : RecvFile Q) : Prop where
  channel : s'.channel = s.channel
  file : s'.file = s.file
  resume : s'.resume = s.resume
  blocksWritten : s'.blocksWritten = s.blocksWritten
  writer : s'.writer = s.writer
  delivered : s'.log.delivered = s.log.delivered

theorem SameWriting.trans {Q : RaptorQ} {s t u : RecvFile Q} (h : s.SameWriting t)
    (h' : t.SameWriting u) : s.SameWriting u :=
  ⟨h'.channel.trans h.channel, h'.file.trans h.file, h'.resume.trans h.resume,
    h'.blocksWritten.trans h.blocksWritten, h'.writer.trans h.writer,
    h'.delivered.trans h.delivered⟩

/-- The environment can deliver every source packet of block `id`, whose data is `data`. -/
def Supply (C : Crates) (p : RecvParams) (P : RecvFile C.raptorq → RecvEvent → Prop) (id : ℕ)
    (data : Bytes) : Prop :=
  ∃ ds : List (Bytes × C.raptorq.Packet),
    (∀ d ∈ ds, p.opens C d.1 = some (id, C.raptorq.serialize d.2) ∧
      C.raptorq.IsPacketOf data d.2 ∧ ∀ s now, P s (.datagram now d.1)) ∧
    ∀ be ∈ C.raptorq.blockEncoders data SYMBOL_SIZE, ∀ q ∈ C.raptorq.sourcePackets be,
      q ∈ ds.map Prod.snd

/-- Datagrams for all packets of a list can be collected. -/
theorem exists_pairs {α β : Type*} {R : α → β → Prop} {qs : List β}
    (h : ∀ q ∈ qs, ∃ d, R d q) :
    ∃ ds : List (α × β), (∀ d ∈ ds, R d.1 d.2) ∧ ds.map Prod.snd = qs := by
  induction qs with
  | nil => exact ⟨[], by simp, rfl⟩
  | cons q qs ih =>
      obtain ⟨d, hd⟩ := h q (by simp)
      obtain ⟨ds, hds, hmap⟩ := ih fun q' hq' => h q' (by simp [hq'])
      exact ⟨(d, q) :: ds, by simpa [hd] using hds, by rw [List.map_cons, hmap]⟩

/-- A block is supplied if every source packet of it is. -/
theorem supply_of_source {id : ℕ} {data : Bytes}
    (h : ∀ be ∈ C.raptorq.blockEncoders data SYMBOL_SIZE, ∀ q ∈ C.raptorq.sourcePackets be,
      ∃ d, p.opens C d = some (id, C.raptorq.serialize q) ∧ ∀ s now, P s (.datagram now d)) :
    Supply C p P id data := by
  have hpairs : ∀ q ∈ (C.raptorq.blockEncoders data SYMBOL_SIZE).flatMap C.raptorq.sourcePackets,
      ∃ d, p.opens C d = some (id, C.raptorq.serialize q) ∧ C.raptorq.IsPacketOf data q ∧
        ∀ s now, P s (.datagram now d) := by
    intro q hq
    obtain ⟨be, hbe, hq⟩ := List.mem_flatMap.mp hq
    obtain ⟨d, hopens, hP⟩ := h be hbe q hq
    exact ⟨d, hopens, ⟨be, hbe, Or.inl hq⟩, hP⟩
  obtain ⟨ds, hds, hmap⟩ := exists_pairs hpairs
  refine ⟨ds, hds, fun be hbe q hq => ?_⟩
  rw [hmap]
  exact List.mem_flatMap.mpr ⟨be, hbe, hq⟩

/-- Whoever has the key can make a datagram the receiver opens, for any packet and block id. -/
theorem exists_datagram (hC : C.Correct) (p : RecvParams) {id : ℕ} (hid : id < 2 ^ 32)
    {data : Bytes} {q : C.raptorq.Packet} (hq : C.raptorq.IsPacketOf data q) :
    ∃ d, p.opens C d = some (id, C.raptorq.serialize q) := by
  obtain ⟨d, hd⟩ := UdpSender.exists_carries hC p.sharedKey_length p.sessionId id hq
  exact ⟨d, hd.authentic hC hid rfl⟩

/-- A peer that has the key supplies any data. -/
theorem supply_of_peer (hC : C.Correct) {id : ℕ} (hid : id < 2 ^ 32) {data : Bytes}
    (hP : ∀ q d, C.raptorq.IsPacketOf data q → p.opens C d = some (id, C.raptorq.serialize q) →
      ∀ s now, P s (.datagram now d)) : Supply C p P id data := by
  refine supply_of_source fun be hbe q hq => ?_
  have hpacket : C.raptorq.IsPacketOf data q := ⟨be, hbe, Or.inl hq⟩
  obtain ⟨d, hd⟩ := exists_datagram hC p hid hpacket
  exact ⟨d, hd, hP q d hpacket hd⟩

/-- An environment that does not hold up the two tasks. -/
structure Permits (P : RecvFile C.raptorq → RecvEvent → Prop) : Prop where
  send : ∀ s, P s .send
  take : ∀ s save, P s (.take save)

/-- What a packet of a block that is still open does to a running receive task. -/
inductive Fed (s : RecvFile C.raptorq) (id len : ℕ) (fed : List C.raptorq.Packet)
    (q : C.raptorq.Packet) (s' : RecvFile C.raptorq) : Prop
  | more (htask : s'.task = .running)
      (hout : (C.raptorq.decode (C.raptorq.feed (C.raptorq.decoderNew len SYMBOL_SIZE) fed) q).2
        = none)
      (hcompleted : s'.receiver.completedBlocks = s.receiver.completedBlocks)
      (hfed : (s'.receiver.decoderFor id len).FedWith len (fed ++ [q]))
      (hothers : ∀ j ≠ id, s'.receiver.pendingBlocks j = s.receiver.pendingBlocks j)
  | decoded (block : ReceivedBlock) (hid : block.blockId = id) (htask : s'.task = .sending block)
      (hout : (C.raptorq.decode (C.raptorq.feed (C.raptorq.decoderNew len SYMBOL_SIZE) fed) q).2
        = some block.data)
      (hcompleted : s'.receiver.completedBlocks = s.receiver.completedBlocks ++ [id])
      (hpending : s'.receiver.pendingBlocks id = none)
      (hothers : ∀ j ≠ id, s'.receiver.pendingBlocks j = s.receiver.pendingBlocks j)

theorem sameWriting_afterReceive {Q : RaptorQ} (s : RecvFile Q) (data : Bytes)
    (r : UdpReceiver Q) (res : PacketResult) : s.SameWriting (s.afterReceive data r res) :=
  ⟨rfl, rfl, rfl, rfl, rfl, rfl⟩

/-- **One packet of an open block.** -/
theorem exists_fed {s : RecvFile C.raptorq} (hC : C.Correct) (hb : s.Bookkeeping p)
    (htask : s.task = .running) (hopen : ¬ s.receiver.allReceived) {id len : ℕ} {data : Bytes}
    {q : C.raptorq.Packet} {fed : List C.raptorq.Packet}
    (hdata : p.opens C data = some (id, C.raptorq.serialize q))
    (hnew : id ∉ s.receiver.completedBlocks) (hlen : p.decoderLen id = .ok len)
    (hsplit : C.raptorq.noSourceBlocks len SYMBOL_SIZE = false)
    (hfed : (s.receiver.decoderFor id len).FedWith len fed) (now : Clock) :
    ∃ s', RecvFile.step C p s (.datagram now data) = some s' ∧ s.SameWriting s' ∧
      s'.log.arrived = s.log.arrived ++ [data] ∧ Fed s id len fed q s' := by
  obtain ⟨-, heffect⟩ := s.receiver.receive_effect C now data
  refine ⟨_, step_datagram now data htask hopen, sameWriting_afterReceive _ _ _ _, rfl, ?_⟩
  rw [← hb.config.authentic_eq] at hdata
  rw [← hb.config.actualBlockLen_eq] at hlen
  have hsame : ∀ {id' plain'}, authentic C.aead s.receiver.sessionId s.receiver.crypto data
      = some (id', plain') → id' = id ∧ C.raptorq.deserialize plain' = q := by
    intro id' plain' h
    obtain ⟨rfl, rfl⟩ := Prod.mk.inj (Option.some.inj (h.symm.trans hdata))
    exact ⟨rfl, hC.raptorq.deserialize_serialize q⟩
  generalize (s.receiver.receive C now data).1 = r at heffect ⊢
  generalize (s.receiver.receive C now data).2 = res at heffect ⊢
  cases heffect with
  | ignored hauth => exact absurd (hauth _ _ hdata) hnew
  | faulted hauth _ hunopenable =>
      obtain ⟨rfl, -⟩ := hsame hauth
      exact absurd hunopenable (UdpReceiver.not_unopenable hlen hsplit _)
  | absorbed hauth _ hlen' hadd hpending hcomp =>
      obtain ⟨rfl, hq⟩ := hsame hauth
      obtain rfl := Except.ok.inj (hlen'.symm.trans hlen)
      rw [hq] at hadd
      obtain ⟨hout, hfed'⟩ := hfed.of_absorbed hadd
      refine .more rfl hout hcomp ?_ fun j hj => ?_
      · simpa [UdpReceiver.decoderFor, hpending] using hfed'
      · rw [afterReceive_receiver, hpending, Function.update_of_ne hj]
  | @decoded len' plain block hauth _ hlen' hadd hpending hcomp =>
      obtain ⟨hid, hq⟩ := hsame hauth
      rw [hid] at hlen' hadd hcomp hpending
      obtain rfl := Except.ok.inj (hlen'.symm.trans hlen)
      rw [hq] at hadd
      refine .decoded block hid rfl (hfed.of_decoded hadd) hcomp ?_ fun j hj => ?_
      · rw [afterReceive_receiver, hpending, Function.update_self]
      · rw [afterReceive_receiver, hpending, Function.update_of_ne hj]

/-- A block has been decoded since the state `s`, and is in hand. -/
structure Decoded {Q : RaptorQ} (s s' : RecvFile Q) (id : ℕ) (block : ReceivedBlock) : Prop where
  same : s.SameWriting s'
  task : s'.task = .sending block
  blockId : block.blockId = id
  completed : s'.receiver.completedBlocks = s.receiver.completedBlocks ++ [id]
  pending : s'.receiver.pendingBlocks id = none
  others : ∀ j ≠ id, s'.receiver.pendingBlocks j = s.receiver.pendingBlocks j

/-- Feeding packets until the block is decoded: the list `ds` contains enough of them. -/
theorem exists_decoded_of_list (hC : C.Correct) {id len : ℕ} {data : Bytes}
    (hlen : p.decoderLen id = .ok len) (hdata : data.length = len)
    (hsplit : C.raptorq.noSourceBlocks len SYMBOL_SIZE = false)
    {ds : List (Bytes × C.raptorq.Packet)} :
    ∀ {s : RecvFile C.raptorq} {fed : List C.raptorq.Packet}, s.Bookkeeping p →
      s.task = .running → ¬ s.receiver.allReceived → id ∉ s.receiver.completedBlocks →
      (s.receiver.decoderFor id len).FedWith len fed →
      (∀ q ∈ fed, C.raptorq.IsPacketOf data q) →
      (∀ d ∈ ds, p.opens C d.1 = some (id, C.raptorq.serialize d.2) ∧
        C.raptorq.IsPacketOf data d.2 ∧ ∀ s now, P s (.datagram now d.1)) →
      (∃ pre q post, ds.map Prod.snd = pre ++ q :: post ∧
        (C.raptorq.decode (C.raptorq.feed (C.raptorq.decoderNew len SYMBOL_SIZE) (fed ++ pre)) q).2
          = some data) →
      ∃ s' block, Reaches (RecvFile.step C p) P s s' ∧ Decoded s s' id block ∧
        block.data = data := by
  induction ds with
  | nil =>
      rintro s fed - - - - - - - ⟨pre, q, post, heq, -⟩
      simp at heq
  | cons d ds ih =>
      rintro s fed hb htask hopen hnew hfed hpackets hds ⟨pre, q, post, heq, hout⟩
      obtain ⟨hopens, hpacket, hP⟩ := hds d (by simp)
      obtain ⟨s₁, hstep, hsame, -, hfed₁⟩ :=
        exists_fed hC hb htask hopen hopens hnew hlen hsplit hfed ⟨0, 0⟩
      have hreach : Reaches (RecvFile.step C p) P s s₁ := Reaches.single (hP s _) hstep
      cases hfed₁ with
      | more htask₁ hnone hcomp hfed₁ hothers =>
          -- the packet did not complete the block, so the one that does is still to come
          obtain ⟨pre', rfl⟩ : ∃ pre', pre = d.2 :: pre' := by
            cases pre with
            | nil =>
                simp only [List.map_cons, List.nil_append, List.cons.injEq] at heq
                rw [List.append_nil, ← heq.1, hnone] at hout
                cases hout
            | cons q' pre' =>
                simp only [List.map_cons, List.cons_append, List.cons.injEq] at heq
                exact ⟨pre', by rw [heq.1]⟩
          have hopen₁ : ¬ s₁.receiver.allReceived := by
            rw [(hb.step hstep).allReceived_iff, hcomp, ← hb.allReceived_iff]
            exact hopen
          obtain ⟨s', block, hreach', hdec, hblock⟩ := ih (hb.step hstep) htask₁ hopen₁
            (by rwa [hcomp]) hfed₁
            (List.forall_mem_append.mpr ⟨hpackets, List.forall_mem_singleton.mpr hpacket⟩)
            (fun d' hd' => hds d' (by simp [hd']))
            ⟨pre', q, post, by simpa using heq, by rwa [List.append_assoc]⟩
          refine ⟨s', block, hreach.trans hreach', ?_, hblock⟩
          exact ⟨hsame.trans hdec.same, hdec.task, hdec.blockId, by rw [hdec.completed, hcomp],
            hdec.pending, fun j hj => (hdec.others j hj).trans (hothers j hj)⟩
      | decoded block hid htask₁ hout₁ hcomp hpending hothers =>
          refine ⟨s₁, block, hreach, ⟨hsame, htask₁, hid, hcomp, hpending, hothers⟩, ?_⟩
          exact hC.raptorq.decode_sound hpackets hpacket (hdata ▸ hout₁)

/-- Between blocks: the receive task waits for datagrams and no decoder has been started. -/
structure Idle {Q : RaptorQ} (s : RecvFile Q) : Prop where
  task : s.task = .running
  pending : ∀ id, s.receiver.pendingBlocks id = none

/-- **A block that is supplied can be decoded.** -/
theorem exists_decoded (hC : C.Correct) (hfits : p.Fits) {s : RecvFile C.raptorq}
    (hb : s.Bookkeeping p) (hidle : s.Idle) {id : ℕ} {data : Bytes} (hid : id < p.totalBlocks)
    (hnew : id ∉ s.receiver.completedBlocks)
    (hroom : s.receiver.completedBlocks.length < p.totalBlocks)
    (hdata : data.length = p.blockLen id) (hsmall : data.length < 2 ^ 32)
    (hsupply : Supply C p P id data) :
    ∃ s' block, Reaches (RecvFile.step C p) P s s' ∧ Decoded s s' id block ∧
      block.data = data := by
  obtain ⟨ds, hds, hall⟩ := hsupply
  have hne : data ≠ [] := by
    have := hfits.blockLen_pos hid
    intro h
    simp [h] at hdata
    omega
  have hpackets : ∀ q ∈ ds.map Prod.snd, C.raptorq.IsPacketOf data q := by
    intro q hq
    obtain ⟨d, hd, rfl⟩ := List.mem_map.mp hq
    exact (hds d hd).2.1
  obtain ⟨pre, q, post, hsplit, hout⟩ := hC.raptorq.decode_complete hne hsmall hpackets hall
  have hopen : ¬ s.receiver.allReceived := by
    rw [hb.allReceived_iff]
    omega
  have hfed : (s.receiver.decoderFor id (p.blockLen id)).FedWith (p.blockLen id) [] := by
    rw [UdpReceiver.decoderFor, hidle.pending id]
    exact FecDecoder.fedWith_new _
  have hblocks : C.raptorq.noSourceBlocks (p.blockLen id) SYMBOL_SIZE = false :=
    hC.raptorq.noSourceBlocks_of_pos (hfits.blockLen_pos hid) (hdata ▸ hsmall)
  refine exists_decoded_of_list hC (hfits.decoderLen hid) hdata hblocks hb hidle.task hopen hnew hfed
    (by simp) hds ⟨pre, q, post, hsplit, ?_⟩
  rwa [List.nil_append, ← hdata]

theorem Decoded.pending_none {Q : RaptorQ} {s s' : RecvFile Q} {id : ℕ} {block : ReceivedBlock}
    (h : Decoded s s' id block) (hidle : s.Idle) (j : ℕ) :
    s'.receiver.pendingBlocks j = none := by
  by_cases hj : j = id
  · rw [hj, h.pending]
  · rw [h.others j hj, hidle.pending j]

/-! ## Onto the channel and into the file -/

/-- A block has been decoded and put on the channel since the state `s`. -/
structure Queued {Q : RaptorQ} (s s' : RecvFile Q) (id : ℕ) (block : ReceivedBlock) : Prop where
  idle : s'.Idle
  channel : s'.channel = s.channel ++ [block]
  blockId : block.blockId = id
  completed : s'.receiver.completedBlocks = s.receiver.completedBlocks ++ [id]
  resume : s'.resume = s.resume
  blocksWritten : s'.blocksWritten = s.blocksWritten
  writer : s'.writer = s.writer

/-- **A block that is supplied can be put on the channel**, if there is room. -/
theorem exists_queued (hC : C.Correct) (hfits : p.Fits) (hP : Permits P)
    {s : RecvFile C.raptorq} (hb : s.Bookkeeping p) (hidle : s.Idle)
    (hopen : s.writer.channelOpen = true) (hchannel : s.channel.length < CHANNEL_CAPACITY) {id : ℕ}
    {data : Bytes} (hid : id < p.totalBlocks) (hnew : id ∉ s.receiver.completedBlocks)
    (hroom : s.receiver.completedBlocks.length < p.totalBlocks)
    (hdata : data.length = p.blockLen id) (hsmall : data.length < 2 ^ 32)
    (hsupply : Supply C p P id data) :
    ∃ s' block, Reaches (RecvFile.step C p) P s s' ∧ Queued s s' id block ∧ block.data = data := by
  obtain ⟨s₁, block, hreach, hdec, hblock⟩ :=
    exists_decoded hC hfits hb hidle hid hnew hroom hdata hsmall hsupply
  have hstep : RecvFile.step C p s₁ .send = some (s₁.pushBlock block) :=
    step_send hdec.task (by rw [hdec.same.writer, hopen]) (by rw [hdec.same.channel]; exact hchannel)
  refine ⟨_, block, hreach.snoc (hP.send s₁) hstep, ?_, hblock⟩
  exact ⟨⟨rfl, hdec.pending_none hidle⟩, by rw [pushBlock, hdec.same.channel], hdec.blockId,
    hdec.completed, hdec.same.resume, hdec.same.blocksWritten, hdec.same.writer⟩

/-- The bitmap is one for the blocks of the transfer. -/
structure Bitmap (p : RecvParams) (resume : ResumeState) : Prop where
  wellFormed : resume.WellFormed
  totalBlocks_eq : resume.totalBlocks = p.totalBlocks

theorem Recorded.bitmap {Q : RaptorQ} {s : RecvFile Q} (h : s.Recorded p) : Bitmap p s.resume :=
  ⟨h.wellFormed, h.totalBlocks_eq⟩

theorem Bitmap.lt_length {resume : ResumeState} (h : Bitmap p resume) {id : ℕ}
    (hid : id < p.totalBlocks) : id < resume.completedBlocks.length := by
  rwa [h.wellFormed.bitmap_length, h.totalBlocks_eq]

theorem Bitmap.mark {resume resume' : ResumeState} (h : Bitmap p resume) {id : ℕ} {hash : Hash}
    (hmark : resume.markComplete id hash = .ok resume') : Bitmap p resume' := by
  obtain ⟨-, -, htotal, -, -⟩ := ResumeState.markComplete_frame hmark
  exact ⟨h.wellFormed.mark hmark, htotal.trans h.totalBlocks_eq⟩

/-- **The writer takes a block in range and of the right length**: it skips it, or writes and marks
it. -/
theorem TakeCases.ok {save : SaveOutcome} {s s' : RecvFile C.raptorq} {block : ReceivedBlock}
    (htake : TakeCases C p save s block s') (hfits : p.Fits)
    (hid : block.blockId < p.totalBlocks)
    (hrecord : s.resume.isComplete block.blockId = false → s.CanRecord block.blockId)
    (hlen : block.data.length = p.blockLen block.blockId) :
    (s.resume.isComplete block.blockId = true ∧ s' = s) ∨
      ∃ resume chunk, s.resume.isComplete block.blockId = false ∧
        s.resume.markComplete block.blockId (C.blake3 chunk) = .ok resume ∧
        s' = (s.write (block.blockId * p.blockSize) chunk).recordBlock p save block resume := by
  have hrange := hfits.writeRange hid
  cases htake with
  | skipped hdone => exact Or.inl ⟨hdone, rfl⟩
  | rangeFault fault _ hrange' =>
      rw [hrange] at hrange'
      cases hrange'
  | sliceFault offset len _ hrange' hshort =>
      rw [hrange] at hrange'
      obtain ⟨-, rfl⟩ := Prod.mk.inj (Except.ok.inj hrange')
      omega
  | markFault offset len fault hnew _ _ hmark =>
      exact absurd hmark ((hrecord hnew).markBlock_ne_error _ _)
  | wrote offset len resume hnew hrange' _ hmark =>
      rw [hrange] at hrange'
      obtain ⟨rfl, rfl⟩ := Prod.mk.inj (Except.ok.inj hrange')
      exact Or.inr ⟨resume, _, hnew, hmark, rfl⟩

/-- Where the writer goes when `written` blocks are written. -/
def writerAfter (p : RecvParams) (written : ℕ) : WriterTask :=
  if p.totalBlocks ≤ written then .awaiting else .looping

/-- The blocks `ids` have been received and written since the state `s`, and marked where the bitmap
has an entry for them. -/
structure Written {Q : RaptorQ} (p : RecvParams) (s s' : RecvFile Q) (ids : List ℕ) : Prop where
  idle : s'.Idle
  channel : s'.channel = []
  completed : s'.receiver.completedBlocks = s.receiver.completedBlocks ++ ids
  isComplete : ∀ j, s'.resume.isComplete j
    = (decide (j ∈ ids ∧ j < s.resume.completedBlocks.length) || s.resume.isComplete j)
  totalBlocks : s'.resume.totalBlocks = s.resume.totalBlocks
  bitmap_length : s'.resume.completedBlocks.length = s.resume.completedBlocks.length
  hashes_length : s'.resume.blockHashes.length = s.resume.blockHashes.length
  blocksWritten : s'.blocksWritten = s.blocksWritten + ids.length
  writer : s'.writer = if ids = [] then s.writer else writerAfter p s'.blocksWritten

theorem Written.bitmap {Q : RaptorQ} {s s' : RecvFile Q} {ids : List ℕ} (h : Written p s s' ids)
    (hmap : Bitmap p s.resume) : Bitmap p s'.resume where
  wellFormed := by
    have hwf := hmap.wellFormed
    refine ⟨?_, ?_, ?_⟩
    · rw [h.totalBlocks]
      exact hwf.total_lt
    · rw [h.bitmap_length, h.totalBlocks, hwf.bitmap_length]
    · rw [h.hashes_length, h.totalBlocks, hwf.hashes_length]
  totalBlocks_eq := h.totalBlocks.trans hmap.totalBlocks_eq

/-- **A block that is supplied and can be recorded can be received, written and marked.** -/
theorem exists_written (hC : C.Correct) (hfits : p.Fits) (hP : Permits P)
    {s : RecvFile C.raptorq} (hb : s.Bookkeeping p) {id : ℕ} (hrecord : s.CanRecord id)
    (hidle : s.Idle) (hwriter : s.writer = .looping) (hchannel : s.channel = []) {data : Bytes}
    (hid : id < p.totalBlocks) (hnew : id ∉ s.receiver.completedBlocks)
    (hunmarked : s.resume.isComplete id = false)
    (hroom : s.receiver.completedBlocks.length < p.totalBlocks)
    (hdata : data.length = p.blockLen id) (hsmall : data.length < 2 ^ 32)
    (hsupply : Supply C p P id data) :
    ∃ s', Reaches (RecvFile.step C p) P s s' ∧ Written p s s' [id] := by
  obtain ⟨s₁, block, hreach, hq, rfl⟩ := exists_queued hC hfits hP hb hidle
    (by rw [hwriter]; rfl) (by rw [hchannel]; decide) hid hnew hroom hdata hsmall hsupply
  obtain rfl := hq.blockId
  have hch₁ : s₁.channel = [block] := by rw [hq.channel, hchannel, List.nil_append]
  -- the writer takes the block off the channel
  have hstep : RecvFile.step C p s₁ (.take .written)
      = some (({ s₁ with channel := [] } : RecvFile C.raptorq).takeBlock C p .written block) :=
    step_take .written (hq.writer.trans hwriter) hch₁
  have hresume : ({ s₁ with channel := [] } : RecvFile C.raptorq).resume = s.resume := hq.resume
  have hrecord₁ : ({ s₁ with channel := [] } : RecvFile C.raptorq).CanRecord block.blockId :=
    ⟨by rw [hresume]; exact hrecord.hash, by
      show s₁.blocksWritten + 1 < 2 ^ 32
      rw [hq.blocksWritten]
      exact hrecord.count⟩
  have hcases := takeBlock_cases (p := p) SaveOutcome.written
    ({ s₁ with channel := [] } : RecvFile C.raptorq) block
  obtain ⟨hdone, -⟩ | ⟨resume, chunk, -, hmark, htake⟩ :=
    hcases.ok hfits hid (fun _ => hrecord₁) hdata
  · rw [hresume, hunmarked] at hdone
    cases hdone
  rw [htake] at hstep
  rw [hresume] at hmark
  obtain ⟨-, -, htotal, hbits, hhashes⟩ := ResumeState.markComplete_frame hmark
  refine ⟨_, hreach.snoc (hP.take s₁ _) hstep, ⟨hq.idle.task, hq.idle.pending⟩, rfl, hq.completed,
    fun j => ?_, htotal, hbits, hhashes, ?_, rfl⟩
  · simpa only [recordBlock_resume, List.mem_singleton] using
      ResumeState.isComplete_markComplete_iff hmark j
  · show s₁.blocksWritten + 1 = _
    rw [hq.blocksWritten]
    rfl

/-- What the environment supplies for a list of blocks: data of the right length. -/
structure Supplied (C : Crates) (p : RecvParams) (P : RecvFile C.raptorq → RecvEvent → Prop)
    (data : ℕ → Bytes) (ids : List ℕ) : Prop where
  nodup : ids.Nodup
  lt : ∀ id ∈ ids, id < p.totalBlocks
  length : ∀ id ∈ ids, (data id).length = p.blockLen id
  small : ∀ id ∈ ids, (data id).length < 2 ^ 32
  supply : ∀ id ∈ ids, Supply C p P id (data id)

theorem Supplied.of_cons {data : ℕ → Bytes} {id : ℕ} {ids : List ℕ}
    (h : Supplied C p P data (id :: ids)) : Supplied C p P data ids :=
  ⟨(List.nodup_cons.mp h.nodup).2, fun j hj => h.lt j (by simp [hj]),
    fun j hj => h.length j (by simp [hj]), fun j hj => h.small j (by simp [hj]),
    fun j hj => h.supply j (by simp [hj])⟩

/-- The blocks of a source, in blocks of less than 4 GiB. -/
theorem supplied_of_for {S : Bytes} (hS : p.For S) (hblock : p.blockSize < 2 ^ 32) {ids : List ℕ}
    (hnodup : ids.Nodup) (hlt : ∀ id ∈ ids, id < p.totalBlocks)
    (hsupply : ∀ id ∈ ids, Supply C p P id (Blocks.block p.blockSize S id)) :
    Supplied C p P (Blocks.block p.blockSize S) ids where
  nodup := hnodup
  lt := hlt
  length := fun id hid => (hS.blockLen (hlt id hid)).symm
  small := by
    intro id _
    rw [Blocks.length_block]
    omega
  supply := hsupply

/-- **Any supplied blocks that are not marked can be written**, one after another, as long as the
writer has not counted enough blocks; one block is always written. -/
theorem exists_written_list (hC : C.Correct) (hfits : p.Fits) (hP : Permits P) {data : ℕ → Bytes}
    {ids : List ℕ} :
    ∀ {s : RecvFile C.raptorq}, s.Bookkeeping p → s.Idle →
      s.writer = .looping → s.channel = [] → Supplied C p P data ids →
      (∀ id ∈ ids, id ∉ s.receiver.completedBlocks ∧ s.resume.isComplete id = false ∧
        (id < s.resume.completedBlocks.length → id < s.resume.blockHashes.length)) →
      s.receiver.completedBlocks.length + ids.length ≤ p.totalBlocks →
      s.blocksWritten + ids.length < 2 ^ 32 →
      (s.blocksWritten + ids.length ≤ p.totalBlocks ∨ ids.length ≤ 1) →
      ∃ s', Reaches (RecvFile.step C p) P s s' ∧ Written p s s' ids := by
  induction ids with
  | nil =>
      intro s hb hidle hwriter hchannel _ _ _ _ _
      exact ⟨s, Reaches.refl s, hidle, hchannel, by simp, by simp, rfl, rfl, rfl, rfl, by simp⟩
  | cons id ids ih =>
      intro s hb hidle hwriter hchannel hsup hnew hroom hcount hstop
      rw [List.length_cons] at hroom hcount hstop
      obtain ⟨hunseen, hunmarked, hhash⟩ := hnew id (by simp)
      obtain ⟨s₁, hreach, hw⟩ := exists_written hC hfits hP hb ⟨hhash, by omega⟩ hidle hwriter
        hchannel (hsup.lt id (by simp)) hunseen hunmarked (by omega) (hsup.length id (by simp))
        (hsup.small id (by simp)) (hsup.supply id (by simp))
      -- the books hold after the first block, and the others are as they were
      have hb₁ : s₁.Bookkeeping p := hreach.invariant hb fun _ _ _ h _ hs => h.step hs
      have hwritten : s₁.blocksWritten = s.blocksWritten + 1 := hw.blocksWritten
      have hw₁ : s₁.writer = writerAfter p s₁.blocksWritten := hw.writer
      by_cases hids : ids = []
      · subst hids
        exact ⟨s₁, hreach, hw⟩
      · have hpos : 0 < ids.length := List.length_pos_iff.mpr hids
        -- blocks are left to count, so the writer goes on
        have hloop : s₁.writer = .looping := by
          rw [hw₁, writerAfter, if_neg (by omega)]
        have hnew₁ : ∀ j ∈ ids, j ∉ s₁.receiver.completedBlocks ∧
            s₁.resume.isComplete j = false ∧
            (j < s₁.resume.completedBlocks.length → j < s₁.resume.blockHashes.length) := by
          intro j hj
          have hne : j ≠ id := by
            rintro rfl
            exact (List.nodup_cons.mp hsup.nodup).1 hj
          obtain ⟨hseen, hmarked, hhash'⟩ := hnew j (by simp [hj])
          rw [hw.completed, hw.isComplete, hw.bitmap_length, hw.hashes_length]
          exact ⟨by simp [hne, hseen], by simp [hne, hmarked], hhash'⟩
        have hroom₁ : s₁.receiver.completedBlocks.length + ids.length ≤ p.totalBlocks := by
          rw [hw.completed, List.length_append, List.length_singleton]
          omega
        obtain ⟨s', hreach', hw'⟩ := ih hb₁ hw.idle hloop hw.channel hsup.of_cons
          hnew₁ hroom₁ (by omega) (Or.inl (by omega))
        refine ⟨s', hreach.trans hreach', hw'.idle, hw'.channel, ?_, fun j => ?_,
          hw'.totalBlocks.trans hw.totalBlocks, hw'.bitmap_length.trans hw.bitmap_length,
          hw'.hashes_length.trans hw.hashes_length, ?_, ?_⟩
        · rw [hw'.completed, hw.completed, List.append_assoc, List.singleton_append]
        · rw [hw'.isComplete, hw.isComplete, hw.bitmap_length, Bool.eq_iff_iff]
          simp only [Bool.or_eq_true, decide_eq_true_eq, List.mem_cons]
          tauto
        · rw [hw'.blocksWritten, hwritten, List.length_cons]
          omega
        · rw [hw'.writer, if_neg hids, if_neg (List.cons_ne_nil _ _)]

/-- **Any supplied blocks can be put on the channel**, as long as there is room and the writer has
not returned. -/
theorem exists_queued_list (hC : C.Correct) (hfits : p.Fits) (hP : Permits P) {data : ℕ → Bytes}
    {ids : List ℕ} :
    ∀ {s : RecvFile C.raptorq}, s.Bookkeeping p → s.Idle → s.writer.channelOpen = true →
      s.channel.length + ids.length ≤ CHANNEL_CAPACITY → Supplied C p P data ids →
      (∀ id ∈ ids, id ∉ s.receiver.completedBlocks) →
      s.receiver.completedBlocks.length + ids.length ≤ p.totalBlocks →
      ∃ s', Reaches (RecvFile.step C p) P s s' ∧ s'.Idle ∧
        s'.channel.length = s.channel.length + ids.length ∧
        s'.receiver.completedBlocks = s.receiver.completedBlocks ++ ids ∧
        s'.blocksWritten = s.blocksWritten ∧ s'.writer = s.writer := by
  induction ids with
  | nil =>
      intro s _ hidle _ _ _ _ _
      exact ⟨s, Reaches.refl s, hidle, rfl, by simp, rfl, rfl⟩
  | cons id ids ih =>
      intro s hb hidle hopen hcap hsup hnew hroom
      rw [List.length_cons] at hroom hcap
      obtain ⟨s₁, block, hreach, hq, -⟩ := exists_queued hC hfits hP hb hidle hopen (by omega)
        (hsup.lt id (by simp)) (hnew id (by simp)) (by omega) (hsup.length id (by simp))
        (hsup.small id (by simp)) (hsup.supply id (by simp))
      -- one block more on the channel, and room for the rest
      have hb₁ : s₁.Bookkeeping p := hreach.invariant hb fun _ _ _ h _ hs => h.step hs
      have hlen : s₁.channel.length = s.channel.length + 1 := by
        rw [hq.channel, List.length_append, List.length_singleton]
      have hnew₁ : ∀ j ∈ ids, j ∉ s₁.receiver.completedBlocks := by
        intro j hj
        have hne : j ≠ id := by
          rintro rfl
          exact (List.nodup_cons.mp hsup.nodup).1 hj
        rw [hq.completed]
        simp [hne, hnew j (by simp [hj])]
      have hroom₁ : s₁.receiver.completedBlocks.length + ids.length ≤ p.totalBlocks := by
        rw [hq.completed, List.length_append, List.length_singleton]
        omega
      obtain ⟨s', hreach', h1, h2, h3, h4, h5⟩ := ih hb₁ hq.idle (by rw [hq.writer, hopen])
        (by omega) hsup.of_cons hnew₁ hroom₁
      refine ⟨s', hreach.trans hreach', h1, by rw [h2, hlen, List.length_cons]; omega, ?_,
        h4.trans hq.blocksWritten, h5.trans hq.writer⟩
      rw [h3, hq.completed, List.append_assoc, List.singleton_append]

/-! ## To the end of a transfer -/

/-- An environment that lets the two tasks end. -/
structure PermitsEnd (P : RecvFile C.raptorq → RecvEvent → Prop) : Prop where
  exitAll : ∀ s, P s .exitAll
  channelEnd : ∀ s, P s .channelEnd
  finish : ∀ s save, P s (.finish save)

/-- How `receive_loop` ends when no more datagrams come. -/
def exitOf {Q : RaptorQ} (s : RecvFile Q) : LoopExit :=
  if s.receiver.allReceived then .allReceived else .idleTimeout

/-- **A transfer with nothing on the channel can end**, as the file and the bitmap are now. -/
theorem exists_finished (hP : PermitsEnd P) {s : RecvFile C.raptorq} (htask : s.task = .running)
    (hchannel : s.channel = []) (hwriter : s.writer = .looping ∨ s.writer = .awaiting)
    (hidle : s.receiver.allReceived ∨ P s .idleTimeout) :
    ∃ s', Reaches (RecvFile.step C p) P s s' ∧ s'.writer.finished = true ∧
      s'.task = .exited s.exitOf ∧ s'.resume = s.resume ∧ s'.file = s.file ∧ s'.log = s.log := by
  -- the receive task leaves its loop
  obtain ⟨s₁, hreach₁, hs₁⟩ : ∃ s₁, Reaches (RecvFile.step C p) P s s₁ ∧
      s₁ = { s with task := .exited s.exitOf } := by
    by_cases hall : s.receiver.allReceived
    · refine ⟨_, Reaches.single (hP.exitAll s) (step_exitAll htask hall), ?_⟩
      rw [exitOf, if_pos hall]
    · refine ⟨_, Reaches.single (hidle.resolve_left hall) (step_idleTimeout htask hall), ?_⟩
      rw [exitOf, if_neg hall]
  -- the writer leaves its own
  obtain ⟨s₂, hreach₂, hs₂⟩ : ∃ s₂, Reaches (RecvFile.step C p) P s₁ s₂ ∧
      s₂ = { s₁ with writer := .awaiting } := by
    rcases hwriter with hw | hw
    · refine ⟨_, Reaches.single (hP.channelEnd s₁) (step_channelEnd ?_ ?_ ?_), rfl⟩
      · rw [hs₁, ← hw]
      · rw [hs₁, ← hchannel]
      · rw [hs₁]
        rfl
    · refine ⟨s₁, Reaches.refl s₁, ?_⟩
      rw [hs₁, ← hw]
  have htask₂ : s₂.task = .exited s.exitOf := by rw [hs₂, hs₁]
  have hfinish : RecvFile.step C p s₂ (.finish .written) = some (s₂.finishTransfer C .written) :=
    step_finish .written (by rw [hs₂]) htask₂
  refine ⟨_, (hreach₁.trans hreach₂).snoc (hP.finish s₂ _) hfinish, rfl, ?_, ?_, ?_, ?_⟩
    <;> simp only [finishTransfer, hs₂, hs₁]

/-! ## From the start of a transfer -/

theorem idle_start (Q : RaptorQ) (rng : ℕ → Vector UInt8 4) (now : ℕ) (disk : Disk) :
    (start Q p rng now disk).Idle :=
  ⟨rfl, fun _ => rfl⟩

/-- **Every block the resume state leaves open can be written**, if it is supplied. -/
theorem exists_all_written (hC : C.Correct) {S : Bytes} (hS : p.For S)
    (hblock : p.blockSize < 2 ^ 32) (hP : Permits P) (rng : ℕ → Vector UInt8 4) (now : ℕ)
    {disk : Disk} (hdisk : disk.Sound)
    (hsupply : ∀ id < p.totalBlocks, (start C.raptorq p rng now disk).resume.isComplete id = false →
      Supply C p P id (Blocks.block p.blockSize S id)) :
    ∃ s, Reaches (RecvFile.step C p) P (start C.raptorq p rng now disk) s ∧
      Written p (start C.raptorq p rng now disk) s
        (start C.raptorq p rng now disk).resume.incompleteBlocks := by
  set s₀ := start C.raptorq p rng now disk
  have hrec : s₀.Recorded p := recorded_start _ _ _ hdisk
  have hids : ∀ id ∈ s₀.resume.incompleteBlocks,
      id < p.totalBlocks ∧ s₀.resume.isComplete id = false := by
    intro id hid
    rw [← hrec.totalBlocks_eq]
    exact hrec.wellFormed.mem_incompleteBlocks.mp hid
  have hcount : s₀.blocksWritten + s₀.resume.incompleteBlocks.length = p.totalBlocks := by
    rw [hrec.blocksWritten_eq, hrec.wellFormed.length_incompleteBlocks, hrec.totalBlocks_eq]
  have hsup : Supplied C p P (Blocks.block p.blockSize S) s₀.resume.incompleteBlocks :=
    supplied_of_for hS hblock hrec.wellFormed.nodup_incompleteBlocks
      (fun id hid => (hids id hid).1) fun id hid => hsupply id (hids id hid).1 (hids id hid).2
  have hbound := p.totalBlocks_lt
  refine exists_written_list hC hS.fits hP (bookkeeping_start _ _ _ _) (idle_start _ _ _ _) rfl rfl
    hsup (fun id hid => ?_) (show 0 + _ ≤ _ by omega) (by omega) (Or.inl hcount.le)
  obtain ⟨hlt, hnew⟩ := hids id hid
  exact ⟨List.not_mem_nil, hnew, (hrec.canRecord hlt hnew).hash⟩

/-- The writer goes on after its last block, or waits. -/
theorem Written.writer_cases {Q : RaptorQ} {s s' : RecvFile Q} {ids : List ℕ}
    (h : Written p s s' ids) (hwriter : s.writer = .looping) :
    s'.writer = .looping ∨ s'.writer = .awaiting := by
  rw [h.writer]
  split
  · exact Or.inl hwriter
  · unfold writerAfter
    split
    · exact Or.inr rfl
    · exact Or.inl rfl

/-- **A transfer can end complete**, whatever its resume state marks, when the blocks that are not
marked are supplied. -/
theorem exists_complete (hC : C.Correct) {S : Bytes} (hS : p.For S) (hblock : p.blockSize < 2 ^ 32)
    (hP : Permits P) (hend : PermitsEnd P) (hidle : ∀ s, P s .idleTimeout)
    (rng : ℕ → Vector UInt8 4) (now : ℕ) {disk : Disk} (hdisk : disk.Sound)
    (hsupply : ∀ id < p.totalBlocks, (start C.raptorq p rng now disk).resume.isComplete id = false →
      Supply C p P id (Blocks.block p.blockSize S id)) :
    ∃ s, Reaches (RecvFile.step C p) P (start C.raptorq p rng now disk) s ∧
      s.writer.finished = true ∧ s.resume.isTransferComplete = true := by
  obtain ⟨s₁, hreach₁, hw⟩ := exists_all_written hC hS hblock hP rng now hdisk hsupply
  have hrec : (start C.raptorq p rng now disk).Recorded p := recorded_start _ _ _ hdisk
  have hmap : Bitmap p s₁.resume := hw.bitmap hrec.bitmap
  have hcomplete : s₁.resume.isTransferComplete = true := by
    rw [hmap.wellFormed.isTransferComplete_iff, hmap.totalBlocks_eq]
    intro id hid
    rw [hw.isComplete, Bool.or_eq_true, decide_eq_true_iff, hrec.wellFormed.mem_incompleteBlocks,
      hrec.totalBlocks_eq]
    cases (start C.raptorq p rng now disk).resume.isComplete id with
    | true => exact Or.inr rfl
    | false => exact Or.inl ⟨⟨hid, rfl⟩, hrec.bitmap.lt_length hid⟩
  obtain ⟨s₂, hreach₂, hdone, -, hresume, -, -⟩ := exists_finished hend hw.idle.task hw.channel
    (hw.writer_cases rfl) (Or.inr (hidle s₁))
  exact ⟨s₂, hreach₁.trans hreach₂, hdone, hresume ▸ hcomplete⟩

end Updown.RecvFile
