import Updown.Engine.RecvInvariants
import Updown.Fec.Adaptive
import Updown.Transport.RateReaction
import Updown.Transport.Timeouts

set_option autoImplicit false

/-! # The receiver's books

The receiver (`transport/receiver.rs`) keeps one table of decoders and one of expected arrivals for
all blocks, and three controllers. `Books` ties both tables to what has arrived: every block is
decoded from its own packets, in their order, as if it had a receiver of its own. `Controllers` says
what the controllers have been fed: the decoded blocks, and nothing of what was dropped.
-/

namespace Updown

namespace FecDecoder

variable {Q : RaptorQ}

/-- A decoder on its own: it takes packets until it returns the block. -/
def drive (d : FecDecoder Q) : List Q.Packet → FecDecoder Q × Option (Bytes × DecodeStats)
  | [] => (d, none)
  | q :: qs =>
      match d.addPacket q with
      | (d', none) => d'.drive qs
      | (d', some out) => (d', some out)

theorem drive_snoc_of_none (qs : List Q.Packet) (q : Q.Packet) {d' : FecDecoder Q} :
    ∀ {d : FecDecoder Q}, d.drive qs = (d', none) → (d.drive (qs ++ [q])).2 = (d'.addPacket q).2 ∧
      ((d'.addPacket q).2 = none → d.drive (qs ++ [q]) = ((d'.addPacket q).1, none)) := by
  induction qs with
  | nil =>
      intro d h
      obtain ⟨rfl, -⟩ := Prod.mk.inj h
      rw [List.nil_append, drive]
      cases hadd : d.addPacket q with
      | mk e out => cases out <;> simp [drive]
  | cons q₀ qs ih =>
      intro d h
      rw [drive] at h
      rw [List.cons_append, drive]
      cases hadd : d.addPacket q₀ with
      | mk e out =>
          rw [hadd] at h
          cases out with
          | none => exact ih h
          | some out => cases h

/-- What comes after the packet that completes the block does not count. -/
theorem drive_append_of_some (qs rest : List Q.Packet) {out : Bytes × DecodeStats} :
    ∀ {d : FecDecoder Q}, (d.drive qs).2 = some out → (d.drive (qs ++ rest)).2 = some out := by
  induction qs with
  | nil => exact fun h => by cases h
  | cons q qs ih =>
      intro d h
      rw [drive] at h
      rw [List.cons_append, drive]
      cases hadd : d.addPacket q with
      | mk e res =>
          rw [hadd] at h
          cases res with
          | none => exact ih h
          | some res => exact h

/-- Every packet is counted, until the block is complete. -/
theorem packetsFed_drive (qs : List Q.Packet) {d' : FecDecoder Q} :
    ∀ {d : FecDecoder Q}, d.complete = false → d.drive qs = (d', none) →
      d'.packetsFed = d.packetsFed + qs.length ∧ d'.complete = false := by
  induction qs with
  | nil =>
      intro d hopen h
      obtain ⟨rfl, -⟩ := Prod.mk.inj h
      exact ⟨rfl, hopen⟩
  | cons q qs ih =>
      intro d hopen h
      rw [drive, addPacket, if_neg (by simp [hopen])] at h
      cases hdec : Q.decode d.decoder q with
      | mk dec out =>
          rw [hdec] at h
          cases out with
          | none =>
              obtain ⟨hfed, hopen'⟩ := ih
                (d := { d with decoder := dec, packetsFed := d.packetsFed + 1 }) hopen h
              refine ⟨hfed.trans ?_, hopen'⟩
              rw [List.length_cons]
              show d.packetsFed + 1 + qs.length = _
              omega
          | some data => cases h

theorem packetsNeeded_of_addPacket {d : FecDecoder Q} {q : Q.Packet} {data : Bytes}
    {st : DecodeStats} (h : (d.addPacket q).2 = some (data, st)) :
    st.packetsNeeded = d.packetsFed + 1 := by
  rw [addPacket] at h
  split at h
  · cases h
  · split at h
    · obtain ⟨-, rfl⟩ := Prod.mk.inj (Option.some.inj h)
      rfl
    · cases h

end FecDecoder

/-- The packets of a block among the datagrams that have arrived, in their order. -/
def RecvParams.packetsOf (C : Crates) (p : RecvParams) (id : ℕ) (arrived : List Bytes) :
    List C.raptorq.Packet :=
  arrived.filterMap fun data =>
    match p.opens C data with
    | some (blockId, plain) =>
        if blockId = id then some (C.raptorq.deserialize plain) else none
    | none => none

section

variable {C : Crates} {p : RecvParams} {id : ℕ} {arrived : List Bytes} {data : Bytes}

theorem packetsOf_append (rest : List Bytes) : p.packetsOf C id (arrived ++ rest)
    = p.packetsOf C id arrived ++ p.packetsOf C id rest := List.filterMap_append

theorem packetsOf_snoc {plain : Bytes} (h : p.opens C data = some (id, plain)) :
    p.packetsOf C id (arrived ++ [data])
      = p.packetsOf C id arrived ++ [C.raptorq.deserialize plain] := by
  simp [RecvParams.packetsOf, h]

theorem packetsOf_snoc_of_other (h : ∀ plain, p.opens C data ≠ some (id, plain)) :
    p.packetsOf C id (arrived ++ [data]) = p.packetsOf C id arrived := by
  cases hopen : p.opens C data with
  | none => simp [RecvParams.packetsOf, hopen]
  | some pr =>
      obtain ⟨id', plain⟩ := pr
      have hne : id' ≠ id := fun heq => h plain (heq ▸ hopen)
      simp [RecvParams.packetsOf, hopen, hne]

end

/-- The block decoded by the last packet, if any. -/
def PacketResult.blocks : PacketResult → List ReceivedBlock
  | .ok (some block) => [block]
  | _ => []

namespace UdpReceiver

/-! ## One datagram, in full -/

section

variable {C : Crates}

/-- The datagram is counted, and may have left a delay sample. -/
def counted {Q : RaptorQ} (r : UdpReceiver Q) (len : ℕ) (rateCalc : ReceiverRateCalculator ℚ) :
    UdpReceiver Q :=
  { r.countPacket len with rateCalc := rateCalc }

/-- A packet of block `id` has been fed to its decoder, which leaves `entry` in the table. -/
def fed {Q : RaptorQ} (r : UdpReceiver Q) (now : Clock) (len : ℕ)
    (rateCalc : ReceiverRateCalculator ℚ) (id : ℕ) (entry : Option (PendingBlock Q)) :
    UdpReceiver Q :=
  ((r.counted len rateCalc).expectBlock now id).setPending id entry

/-- The entry of block `id` once its decoder has taken another packet. -/
def nextEntry {Q : RaptorQ} (r : UdpReceiver Q) (now : Clock) (id len : ℕ)
    (decoder : FecDecoder Q) : PendingBlock Q :=
  { r.pendingFor now id len with
    decoder := decoder
    packetsReceived := (r.pendingFor now id len).packetsReceived + 1 }

section

variable {Q : RaptorQ} (r : UdpReceiver Q) (now : Clock) (len : ℕ)
  (rateCalc : ReceiverRateCalculator ℚ) (id : ℕ) (entry : Option (PendingBlock Q))

@[simp] theorem counted_pendingBlocks :
    (r.counted len rateCalc).pendingBlocks = r.pendingBlocks := rfl

@[simp] theorem counted_completedBlocks :
    (r.counted len rateCalc).completedBlocks = r.completedBlocks := rfl

@[simp] theorem fed_pendingBlocks : (r.fed now len rateCalc id entry).pendingBlocks
    = Function.update r.pendingBlocks id entry := rfl

@[simp] theorem fed_completedBlocks :
    (r.fed now len rateCalc id entry).completedBlocks = r.completedBlocks := rfl

@[simp] theorem fed_blockExpectTimes : (r.fed now len rateCalc id entry).blockExpectTimes
    = Function.update r.blockExpectTimes id (some ((r.blockExpectTimes id).getD now.instant)) := rfl

end

/-- The rate calculator as it was, or with one more delay sample. -/
def Sampled (c c' : ReceiverRateCalculator ℚ) : Prop :=
  c' = c ∨ ∃ timestampUs owdUs, c' = c.recordOwd timestampUs owdUs

theorem sampled_recordOwd {Q : RaptorQ} (r : UdpReceiver Q) (now : Clock) (header : PacketHeader) :
    Sampled r.rateCalc (r.recordOwd now header).rateCalc := by
  unfold recordOwd
  dsimp only
  split
  · exact Or.inr ⟨_, _, rfl⟩
  · exact Or.inl rfl

theorem feedBlock_rateCalc {Q : RaptorQ} (r : UdpReceiver Q) (now : Clock) (id : ℕ)
    (packet : Q.Packet) : (r.feedBlock now id packet).1.rateCalc = r.rateCalc := by
  unfold feedBlock
  split
  · rfl
  · split
    · rfl
    · dsimp only
      split <;> rfl

theorem sampled_processPacket (r : UdpReceiver C.raptorq) (now : Clock) (data : Bytes) :
    Sampled r.rateCalc (r.processPacket C now data).1.rateCalc := by
  unfold processPacket
  split
  · exact Or.inl rfl
  · next header payload _ =>
      have hsampled := r.sampled_recordOwd now header
      dsimp only
      split
      · exact hsampled
      · split
        · exact hsampled
        · rw [feedBlock_rateCalc]
          exact hsampled
      · exact hsampled

/-- The receiver after one datagram, and what `receive_loop` goes on with. `Effect` is the part of
it that transfers depend on. -/
inductive Received (C : Crates) (r : UdpReceiver C.raptorq) (now : Clock) (data : Bytes) :
    UdpReceiver C.raptorq × PacketResult → Prop
  | ignored {rateCalc : ReceiverRateCalculator ℚ} {res : PacketResult}
      (hauth : ∀ id plain, authentic C.aead r.sessionId r.crypto data = some (id, plain) →
        id ∈ r.completedBlocks)
      (hres : res = .ok none ∨ ∃ e, res = .err e) (hrate : Sampled r.rateCalc rateCalc) :
      Received C r now data (r.counted data.length rateCalc, res)
  | faulted {rateCalc : ReceiverRateCalculator ℚ} {id : ℕ} {fault : Fault}
      (hrate : Sampled r.rateCalc rateCalc) :
      Received C r now data
        ((r.counted data.length rateCalc).expectBlock now id, .panic fault)
  | absorbed {rateCalc : ReceiverRateCalculator ℚ} {id len : ℕ} {plain : Bytes}
      {decoder : FecDecoder C.raptorq}
      (hauth : authentic C.aead r.sessionId r.crypto data = some (id, plain))
      (hnew : id ∉ r.completedBlocks) (hlen : r.actualBlockLen id = .ok len)
      (hadd : (r.decoderFor id len).addPacket (C.raptorq.deserialize plain) = (decoder, none))
      (hrate : Sampled r.rateCalc rateCalc) :
      Received C r now data
        (r.fed now data.length rateCalc id (some (r.nextEntry now id len decoder)), .ok none)
  | decoded (block : ReceivedBlock) {rateCalc : ReceiverRateCalculator ℚ} {len : ℕ} {plain : Bytes}
      (hauth : authentic C.aead r.sessionId r.crypto data = some (block.blockId, plain))
      (hnew : block.blockId ∉ r.completedBlocks) (hlen : r.actualBlockLen block.blockId = .ok len)
      (hadd : ((r.decoderFor block.blockId len).addPacket (C.raptorq.deserialize plain)).2
        = some (block.data, block.decodeStats))
      (hcount : block.packetsReceived
        = (r.pendingFor now block.blockId len).packetsReceived + 1)
      (hrate : Sampled r.rateCalc rateCalc) :
      Received C r now data
        ((r.fed now data.length rateCalc block.blockId none).blockDecoded C now block,
          .ok (some block))

/-- **One datagram, in one statement.** -/
theorem receive_cases (r : UdpReceiver C.raptorq) (now : Clock) (data : Bytes) :
    Received C r now data (r.receive C now data) := by
  unfold receive
  cases hauth : authentic C.aead r.sessionId r.crypto data with
  | none =>
      obtain ⟨rateCalc, res, hproc, hres⟩ :=
        processPacket_of_not_authentic (r := r.countPacket data.length) now hauth
      have hrate := sampled_processPacket (r.countPacket data.length) now data
      rw [hproc] at hrate ⊢
      rcases hres with rfl | ⟨e, rfl⟩
      · exact .ignored (by simp [hauth]) (Or.inl rfl) hrate
      · exact .ignored (by simp [hauth]) (Or.inr ⟨e, rfl⟩) hrate
  | some pr =>
      obtain ⟨id, plain⟩ := pr
      obtain ⟨rateCalc, hproc⟩ :=
        processPacket_of_authentic (r := r.countPacket data.length) now hauth
      have hcounted : ({ r.countPacket data.length with rateCalc := rateCalc } :
          UdpReceiver C.raptorq) = r.counted data.length rateCalc := rfl
      have hrate := sampled_processPacket (r.countPacket data.length) now data
      rw [hproc, hcounted, feedBlock_rateCalc] at hrate
      rw [hproc, hcounted, feedBlock]
      -- what follows is `feedBlock`: a block that is complete is not fed again
      by_cases hmem : id ∈ r.completedBlocks
      · rw [if_pos (show id ∈ (r.counted data.length rateCalc).completedBlocks from hmem)]
        refine .ignored (fun id' plain' h' => ?_) (Or.inl rfl) hrate
        obtain ⟨rfl, -⟩ := Prod.mk.inj (Option.some.inj (hauth.symm.trans h'))
        exact hmem
      · rw [if_neg (show id ∉ (r.counted data.length rateCalc).completedBlocks from hmem),
          show (r.counted data.length rateCalc).openBlock now id = r.openBlock now id from rfl]
        cases hentry : r.openBlock now id with
        | error fault => exact .faulted hrate
        | ok pending =>
            obtain ⟨len, hlen, rfl⟩ := openBlock_eq_ok hentry
            dsimp only
            rw [r.decoder_pendingFor]
            cases hadd : (r.decoderFor id len).addPacket (C.raptorq.deserialize plain) with
            | mk decoder out =>
                cases out with
                | none => exact .absorbed hauth hmem hlen hadd hrate
                | some out =>
                    exact .decoded
                      { blockId := id, data := out.1,
                        packetsReceived := (r.pendingFor now id len).packetsReceived + 1,
                        elapsed := now.instant - (r.pendingFor now id len).firstPacketTime,
                        decodeStats := out.2 } hauth hmem hlen (congrArg Prod.snd hadd) rfl
                      hrate

end

/-! ## The tables -/

/-- The tables hold what the packets of each block give, one block at a time: `arrived` are the
datagrams so far, `decoded` the blocks that were decoded, in this order. -/
structure Books (C : Crates) (p : RecvParams) (arrived : List Bytes) (blocks : List ReceivedBlock)
    (r : UdpReceiver C.raptorq) : Prop where
  config : r.Configured p
  completed : r.completedBlocks = blocks.map (·.blockId)
  /-- A block that is not complete has been fed all its packets. -/
  unfinished : ∀ id len, id ∉ r.completedBlocks → p.decoderLen id = .ok len →
    (FecDecoder.new C.raptorq len SYMBOL_SIZE).drive (p.packetsOf C id arrived)
      = (r.decoderFor id len, none)
  /-- A complete block is what its packets decode to. -/
  finished : ∀ block ∈ blocks, ∃ len, p.decoderLen block.blockId = .ok len ∧
    ((FecDecoder.new C.raptorq len SYMBOL_SIZE).drive (p.packetsOf C block.blockId arrived)).2
      = some (block.data, block.decodeStats)
  received : ∀ block ∈ blocks, block.packetsReceived = block.decodeStats.packetsNeeded
  pending : ∀ id, (r.pendingBlocks id).isSome ↔
    id ∉ r.completedBlocks ∧ p.packetsOf C id arrived ≠ []
  packets : ∀ id entry, r.pendingBlocks id = some entry →
    entry.packetsReceived = (p.packetsOf C id arrived).length
  expected : ∀ id, (r.blockExpectTimes id).isSome = (r.pendingBlocks id).isSome

theorem books_new (C : Crates) (p : RecvParams) (rng : ℕ → Vector UInt8 4) (now : ℕ) :
    Books C p [] [] (new C.raptorq p.sessionId (.fromKey p.sharedKey rng) p.blockSize p.fileSize
      p.totalBlocks p.targetRateMbps now) where
  config := ⟨rfl, rfl, rfl, rfl, rfl⟩
  completed := rfl
  unfinished := fun _ _ _ _ => rfl
  finished := by intro block hblock; cases hblock
  received := by intro block hblock; cases hblock
  pending := fun id => by simp [new, RecvParams.packetsOf]
  packets := by intro id entry hentry; cases hentry
  expected := fun _ => rfl

section

variable {C : Crates} {p : RecvParams} {arrived : List Bytes} {blocks : List ReceivedBlock}
  {r : UdpReceiver C.raptorq} {now : Clock} {data : Bytes}

/-- The count in the entry of an open block is the number of its packets. -/
theorem Books.packetsReceived (h : Books C p arrived blocks r) {id len : ℕ}
    (hopen : id ∉ r.completedBlocks) :
    (r.pendingFor now id len).packetsReceived = (p.packetsOf C id arrived).length := by
  unfold pendingFor
  cases hpending : r.pendingBlocks id with
  | some entry => exact h.packets id entry hpending
  | none =>
      have hnone : p.packetsOf C id arrived = [] := by
        by_contra hne
        have := (h.pending id).mpr ⟨hopen, hne⟩
        rw [hpending] at this
        cases this
      rw [hnone]
      rfl

/-- What a complete block decodes to does not change any more. -/
theorem Books.finished_append (h : Books C p arrived blocks r) (rest : List Bytes) :
    ∀ block ∈ blocks, ∃ len, p.decoderLen block.blockId = .ok len ∧
      ((FecDecoder.new C.raptorq len SYMBOL_SIZE).drive
        (p.packetsOf C block.blockId (arrived ++ rest))).2 =
          some (block.data, block.decodeStats) := by
  intro block hblock
  obtain ⟨len, hlen, hout⟩ := h.finished block hblock
  refine ⟨len, hlen, ?_⟩
  rw [packetsOf_append]
  exact FecDecoder.drive_append_of_some _ _ hout

/-- A datagram that is dropped or refused leaves the tables. -/
theorem Books.ignored (h : Books C p arrived blocks r) (rateCalc : ReceiverRateCalculator ℚ)
    (hauth : ∀ id plain, p.opens C data = some (id, plain) → id ∈ r.completedBlocks) :
    Books C p (arrived ++ [data]) blocks (r.counted data.length rateCalc) := by
  have hsame : ∀ id, id ∉ r.completedBlocks →
      p.packetsOf C id (arrived ++ [data]) = p.packetsOf C id arrived :=
    fun id hid => packetsOf_snoc_of_other fun plain hopen => hid (hauth id plain hopen)
  refine ⟨⟨h.config.1, h.config.2, h.config.3, h.config.4, h.config.5⟩, h.completed, ?_,
    h.finished_append [data], h.received, ?_, ?_, h.expected⟩
  · intro id len hid hlen
    rw [hsame id hid]
    exact h.unfinished id len hid hlen
  · intro id
    rw [counted_pendingBlocks, counted_completedBlocks, h.pending]
    exact and_congr_right fun hid => by rw [hsame id hid]
  · intro id entry hentry
    have hid : id ∉ r.completedBlocks :=
      ((h.pending id).mp (by rw [show r.pendingBlocks id = some entry from hentry]; rfl)).1
    rw [hsame id hid]
    exact h.packets id entry hentry

/-- A packet is fed to the decoder of its block and to no other. -/
theorem Books.absorbed (h : Books C p arrived blocks r) (rateCalc : ReceiverRateCalculator ℚ)
    {id len : ℕ} {plain : Bytes} {decoder : FecDecoder C.raptorq}
    (hauth : p.opens C data = some (id, plain)) (hnew : id ∉ r.completedBlocks)
    (hlen : p.decoderLen id = .ok len)
    (hadd : (r.decoderFor id len).addPacket (C.raptorq.deserialize plain) = (decoder, none)) :
    Books C p (arrived ++ [data]) blocks
      (r.fed now data.length rateCalc id (some (r.nextEntry now id len decoder))) := by
  -- only the packets of this block become more
  have hother : ∀ id', id' ≠ id →
      p.packetsOf C id' (arrived ++ [data]) = p.packetsOf C id' arrived := fun id' hne =>
    packetsOf_snoc_of_other fun plain' hopen =>
      hne (Prod.mk.inj (Option.some.inj (hopen.symm.trans hauth))).1
  have hmine : p.packetsOf C id (arrived ++ [data])
      = p.packetsOf C id arrived ++ [C.raptorq.deserialize plain] := packetsOf_snoc hauth
  refine ⟨⟨h.config.1, h.config.2, h.config.3, h.config.4, h.config.5⟩, h.completed, ?_,
    h.finished_append [data], h.received, ?_, ?_, ?_⟩
  · intro id' len' hid' hlen'
    by_cases heq : id' = id
    · subst heq
      obtain rfl : len = len' := Except.ok.inj (hlen.symm.trans hlen')
      -- its decoder has been driven by one packet more, and not decoded
      obtain ⟨-, hnone⟩ := FecDecoder.drive_snoc_of_none _ (C.raptorq.deserialize plain)
        (h.unfinished id' len hnew hlen)
      rw [hmine, hnone (by rw [hadd]), hadd, decoderFor, fed_pendingBlocks, Function.update_self]
      rfl
    · rw [hother id' heq, h.unfinished id' len' hid' hlen', decoderFor, decoderFor,
        fed_pendingBlocks, Function.update_of_ne heq]
  · intro id'
    rw [fed_pendingBlocks, fed_completedBlocks]
    by_cases heq : id' = id
    · subst heq
      simp [hmine, hnew]
    · rw [hother id' heq, Function.update_of_ne heq]
      exact h.pending id'
  · intro id' entry hentry
    rw [fed_pendingBlocks] at hentry
    by_cases heq : id' = id
    · subst heq
      rw [Function.update_self] at hentry
      obtain rfl := Option.some.inj hentry
      rw [hmine, List.length_append, List.length_singleton, ← h.packetsReceived hnew]
      rfl
    · rw [Function.update_of_ne heq] at hentry
      rw [hother id' heq]
      exact h.packets id' entry hentry
  · intro id'
    rw [fed_pendingBlocks, fed_blockExpectTimes]
    by_cases heq : id' = id
    · subst heq
      rw [Function.update_self, Function.update_self]
      rfl
    · rw [Function.update_of_ne heq, Function.update_of_ne heq]
      exact h.expected id'

/-- The packet that completes a block takes it off both tables. -/
theorem Books.complete (h : Books C p arrived blocks r) (rateCalc : ReceiverRateCalculator ℚ)
    {block : ReceivedBlock} {len : ℕ} {plain : Bytes}
    (hauth : p.opens C data = some (block.blockId, plain))
    (hnew : block.blockId ∉ r.completedBlocks) (hlen : p.decoderLen block.blockId = .ok len)
    (hadd : ((r.decoderFor block.blockId len).addPacket (C.raptorq.deserialize plain)).2
      = some (block.data, block.decodeStats))
    (hcount : block.packetsReceived = (r.pendingFor now block.blockId len).packetsReceived + 1) :
    Books C p (arrived ++ [data]) (blocks ++ [block])
      ((r.fed now data.length rateCalc block.blockId none).blockDecoded C now block) := by
  -- the datagram is one of this block: the packets of the others stay as they are
  have hother : ∀ id, id ≠ block.blockId →
      p.packetsOf C id (arrived ++ [data]) = p.packetsOf C id arrived := fun id hne =>
    packetsOf_snoc_of_other fun plain' hopen =>
      hne (Prod.mk.inj (Option.some.inj (hopen.symm.trans hauth))).1
  have hdrive := h.unfinished block.blockId len hnew hlen
  have hcompleted : ((r.fed now data.length rateCalc block.blockId none).blockDecoded C now
      block).completedBlocks = r.completedBlocks ++ [block.blockId] := rfl
  have hpending : ((r.fed now data.length rateCalc block.blockId none).blockDecoded C now
      block).pendingBlocks = Function.update r.pendingBlocks block.blockId none := rfl
  have hexpected : ((r.fed now data.length rateCalc block.blockId none).blockDecoded C now
      block).blockExpectTimes = Function.update (Function.update r.blockExpectTimes block.blockId
        (some ((r.blockExpectTimes block.blockId).getD now.instant))) block.blockId none := rfl
  refine ⟨⟨h.config.1, h.config.2, h.config.3, h.config.4, h.config.5⟩, ?_, ?_, ?_, ?_, ?_, ?_, ?_⟩
  · rw [hcompleted, h.completed, List.map_append, List.map_singleton]
  -- a block that is still unfinished is another one
  · intro id len' hid hlen'
    rw [hcompleted, List.mem_append, not_or, List.mem_singleton] at hid
    rw [hother id hid.2, h.unfinished id len' hid.1 hlen', decoderFor, decoderFor, hpending,
      Function.update_of_ne hid.2]
  · intro block' hblock'
    rcases List.mem_append.mp hblock' with hold | hlast
    · exact h.finished_append [data] block' hold
    · obtain rfl := List.mem_singleton.mp hlast
      refine ⟨len, hlen, ?_⟩
      rw [packetsOf_snoc hauth, (FecDecoder.drive_snoc_of_none _ _ hdrive).1, hadd]
  · intro block' hblock'
    rcases List.mem_append.mp hblock' with hold | hlast
    · exact h.received block' hold
    · obtain rfl := List.mem_singleton.mp hlast
      obtain ⟨hfed, -⟩ := FecDecoder.packetsFed_drive _ rfl hdrive
      -- the packet that completes the block is counted as well
      rw [hcount, h.packetsReceived hnew, FecDecoder.packetsNeeded_of_addPacket hadd, hfed]
      exact congrArg (· + 1) (Nat.zero_add _).symm
  · intro id
    rw [hpending, hcompleted]
    by_cases heq : id = block.blockId
    · subst heq
      simp
    · rw [hother id heq, Function.update_of_ne heq, h.pending id, List.mem_append,
        List.mem_singleton, or_iff_left heq]
  · intro id entry hentry
    rw [hpending] at hentry
    by_cases heq : id = block.blockId
    · rw [heq, Function.update_self] at hentry
      cases hentry
    · rw [Function.update_of_ne heq] at hentry
      rw [hother id heq]
      exact h.packets id entry hentry
  · intro id
    rw [hexpected, hpending]
    by_cases heq : id = block.blockId
    · rw [heq, Function.update_self, Function.update_self]
      rfl
    · rw [Function.update_of_ne heq, Function.update_of_ne heq, Function.update_of_ne heq]
      exact h.expected id

/-- **Every datagram keeps the books**, whatever it is. -/
theorem Books.receive (h : Books C p arrived blocks r)
    (hok : ∀ fault, (r.receive C now data).2 ≠ .panic fault) :
    Books C p (arrived ++ [data]) (blocks ++ (r.receive C now data).2.blocks)
      (r.receive C now data).1 := by
  have hauthEq := h.config.authentic_eq C data
  cases hcases : r.receive C now data with
  | mk r' res =>
      have hreceived := receive_cases (C := C) r now data
      rw [hcases] at hreceived hok
      cases hreceived with
      | ignored hauth hres hrate =>
          rw [hauthEq] at hauth
          rcases hres with rfl | ⟨e, rfl⟩
          · exact (List.append_nil blocks).symm ▸ h.ignored _ hauth
          · exact (List.append_nil blocks).symm ▸ h.ignored _ hauth
      | faulted hrate => exact absurd rfl (hok _)
      | absorbed hauth hnew hlen hadd hrate =>
          rw [hauthEq] at hauth
          rw [h.config.actualBlockLen_eq] at hlen
          exact (List.append_nil blocks).symm ▸ h.absorbed _ hauth hnew hlen hadd
      | decoded block hauth hnew hlen hadd hcount hrate =>
          rw [hauthEq] at hauth
          rw [h.config.actualBlockLen_eq] at hlen
          exact h.complete _ hauth hnew hlen hadd hcount

end

/-! ## The controllers -/

/-- What the controllers have been fed: the statistics and the arrival of each decoded block, and
the delay samples of the packets. -/
structure Controllers (C : Crates) (p : RecvParams) (now : ℕ) (arrived : List Bytes)
    (blocks : List ReceivedBlock) (r : UdpReceiver C.raptorq) : Prop where
  adaptiveFec : r.adaptiveFec = AdaptiveFec.new.run (blocks.map (·.decodeStats))
  timeoutPredictor : ∃ arrivals : List TimeoutPredictor.Arrival,
    arrivals.map (fun a => (a.blockId, a.blockBytes))
      = blocks.map (fun block => (block.blockId, block.data.length)) ∧
    r.timeoutPredictor = (TimeoutPredictor.new p.targetRateMbps p.blockSize).run arrivals
  rateCalc : ∃ calls, Transition.runAll (ReceiverRateCalculator.call C.float)
    (.new now p.targetRateMbps) calls = some r.rateCalc
  totalPackets : r.totalPacketsReceived = arrived.length
  totalBytes : r.totalBytesReceived = (arrived.map List.length).sum

theorem controllers_new (C : Crates) (p : RecvParams) (rng : ℕ → Vector UInt8 4) (now : ℕ) :
    Controllers C p now [] [] (new C.raptorq p.sessionId (.fromKey p.sharedKey rng) p.blockSize
      p.fileSize p.totalBlocks p.targetRateMbps now) where
  adaptiveFec := rfl
  timeoutPredictor := ⟨[], rfl, rfl⟩
  rateCalc := ⟨[], rfl⟩
  totalPackets := rfl
  totalBytes := rfl

section

variable {C : Crates} {p : RecvParams} {start : ℕ} {arrived : List Bytes}
  {blocks : List ReceivedBlock} {r : UdpReceiver C.raptorq} {now : Clock} {data : Bytes}

/-- A calculator that comes from calls still does with one more delay sample … -/
theorem Controllers.sampled (h : Controllers C p start arrived blocks r)
    {rateCalc : ReceiverRateCalculator ℚ} (hrate : Sampled r.rateCalc rateCalc) :
    ∃ calls, Transition.runAll (ReceiverRateCalculator.call C.float)
      (.new start p.targetRateMbps) calls = some rateCalc := by
  obtain ⟨calls, hcalls⟩ := h.rateCalc
  rcases hrate with rfl | ⟨timestampUs, owdUs, rfl⟩
  · exact ⟨calls, hcalls⟩
  · refine ⟨calls ++ [.recordOwd timestampUs owdUs], ?_⟩
    rw [Transition.runAll_append, hcalls]
    rfl

/-- A datagram that completes no block is counted and leaves the other controllers. -/
theorem Controllers.uncompleted (h : Controllers C p start arrived blocks r)
    {r' : UdpReceiver C.raptorq} (hfec : r'.adaptiveFec = r.adaptiveFec)
    (htimeout : r'.timeoutPredictor = r.timeoutPredictor) (hrate : Sampled r.rateCalc r'.rateCalc)
    (hpackets : r'.totalPacketsReceived = r.totalPacketsReceived + 1)
    (hbytes : r'.totalBytesReceived = r.totalBytesReceived + data.length) :
    Controllers C p start (arrived ++ [data]) (blocks ++ []) r' := by
  rw [List.append_nil]
  refine ⟨hfec ▸ h.adaptiveFec, htimeout ▸ h.timeoutPredictor, h.sampled hrate, ?_, ?_⟩
  · rw [hpackets, h.totalPackets, List.length_append, List.length_singleton]
  · rw [hbytes, h.totalBytes, List.map_append, List.sum_append, List.map_singleton,
      List.sum_singleton]

/-- **Every datagram feeds the controllers** with the block it completes, and with nothing else. -/
theorem Controllers.receive (h : Controllers C p start arrived blocks r) :
    Controllers C p start (arrived ++ [data]) (blocks ++ (r.receive C now data).2.blocks)
      (r.receive C now data).1 := by
  cases hcases : r.receive C now data with
  | mk r' res =>
      have hreceived := receive_cases (C := C) r now data
      rw [hcases] at hreceived
      cases hreceived with
      | ignored hauth hres hrate =>
          rcases hres with rfl | ⟨e, rfl⟩
          · exact h.uncompleted rfl rfl hrate rfl rfl
          · exact h.uncompleted rfl rfl hrate rfl rfl
      | faulted hrate => exact h.uncompleted rfl rfl hrate rfl rfl
      | absorbed hauth hnew hlen hadd hrate => exact h.uncompleted rfl rfl hrate rfl rfl
      | @decoded block rateCalc len plain hauth hnew hlen hadd hcount hrate =>
          obtain ⟨calls, hcalls⟩ := h.sampled hrate
          obtain ⟨arrivals, hids, hpredictor⟩ := h.timeoutPredictor
          set expected := (r.blockExpectTimes block.blockId).getD now.instant
          -- the packet that completes the block has put the time of the first one in the table
          have htimeout : ((r.fed now data.length rateCalc block.blockId none).blockDecoded C now
              block).timeoutPredictor = (r.timeoutPredictor.record
                ⟨now.instant, block.blockId, expected, block.data.length⟩).1 := by
            unfold blockDecoded
            dsimp only
            rw [fed_blockExpectTimes, Function.update_self]
            rfl
          refine ⟨?_, ⟨arrivals ++ [⟨now.instant, block.blockId, expected, block.data.length⟩], ?_,
            ?_⟩, ⟨calls ++ [.computeRate now.instant (r.adaptiveFec.update
              block.decodeStats).lossEstimate], ?_⟩, ?_, ?_⟩
          · show r.adaptiveFec.update block.decodeStats = _
            rw [h.adaptiveFec, PacketResult.blocks, List.map_append, AdaptiveFec.run_append]
            rfl
          · rw [PacketResult.blocks, List.map_append, List.map_append, hids]
            rfl
          · rw [htimeout, hpredictor, TimeoutPredictor.run_append]
            rfl
          · rw [Transition.runAll_append, hcalls]
            rfl
          · show r.totalPacketsReceived + 1 = _
            rw [h.totalPackets, List.length_append, List.length_singleton]
          · show r.totalBytesReceived + data.length = _
            rw [h.totalBytes, List.map_append, List.sum_append, List.map_singleton,
              List.sum_singleton]

end

end UdpReceiver

end Updown
