import Updown.Engine.Layout
import Updown.Engine.RecvSteps

set_option autoImplicit false

/-! # Invariants of the receive task

Two invariants of `RecvFile.step`. `Bookkeeping` holds whatever arrives: it ties
`completed_blocks`, the block in hand, the channel and the blocks put on it together.
`Provenance K` says what decoders and blocks are made of when every packet that authenticates
satisfies `K`; the transfers of an honest sender, of a sender with wild block ids and of any peer
at all are three choices of `K`.
-/

namespace Updown

/-- Decryption uses the key only. -/
theorem CryptoContext.decrypt_congr {A : Aead} {c c' : CryptoContext} (h : c.key = c'.key)
    (data aad : Bytes) : c.decrypt A data aad = c'.decrypt A data aad := by
  simp only [CryptoContext.decrypt, h]

theorem authentic_congr {A : Aead} {c c' : CryptoContext} (h : c.key = c'.key) (session : UInt32)
    (data : Bytes) : authentic A session c data = authentic A session c' data := by
  simp only [authentic, CryptoContext.decrypt_congr h]

/-- Block id and plaintext of a datagram that the receiver of the transfer accepts. -/
def RecvParams.opens (C : Crates) (p : RecvParams) (data : Bytes) : Option (ℕ × Bytes) :=
  authentic C.aead p.sessionId (.fromKey p.sharedKey fun _ => #v[0, 0, 0, 0]) data

/-- The receiver works on the parameters of the transfer. -/
structure UdpReceiver.Configured {Q : RaptorQ} (p : RecvParams) (r : UdpReceiver Q) : Prop where
  sessionId : r.sessionId = p.sessionId
  key : r.crypto.key = p.sharedKey
  blockDataLen : r.blockDataLen = p.blockSize
  fileSize : r.fileSize = p.fileSize
  totalBlocks : r.totalBlocks = p.totalBlocks

namespace UdpReceiver.Configured

variable {Q : RaptorQ} {p : RecvParams} {r r' : UdpReceiver Q}

theorem authentic_eq (h : r.Configured p) (C : Crates) (data : Bytes) :
    authentic C.aead r.sessionId r.crypto data = p.opens C data := by
  rw [h.sessionId]
  exact authentic_congr h.key p.sessionId data

theorem actualBlockLen_eq (h : r.Configured p) (id : ℕ) :
    r.actualBlockLen id = p.decoderLen id := by
  rw [UdpReceiver.actualBlockLen, h.blockDataLen, h.fileSize, h.totalBlocks]
  rfl

theorem of_sameConfig (h : r.Configured p) (hs : r.SameConfig r') : r'.Configured p :=
  ⟨hs.sessionId.trans h.sessionId, by rw [hs.crypto, h.key], hs.blockDataLen.trans h.blockDataLen,
    hs.fileSize.trans h.fileSize, hs.totalBlocks.trans h.totalBlocks⟩

end UdpReceiver.Configured

/-- The block the receive task holds in `block_tx.send(block).await`. -/
def RecvTask.inHand : RecvTask → List ReceivedBlock
  | .sending block => [block]
  | _ => []

namespace RecvFile

variable {C : Crates} {p : RecvParams}

/-- Blocks that have left `process_packet`. -/
def decodedBlocks {Q : RaptorQ} (s : RecvFile Q) : List ReceivedBlock :=
  s.log.delivered ++ s.task.inHand

/-! ## Bookkeeping -/

/-- The books of the receive task. `lost` is the block that could not be sent because the writer
had returned; `taken` are the blocks the writer has taken. -/
structure Bookkeeping {Q : RaptorQ} (p : RecvParams) (s : RecvFile Q) : Prop where
  config : s.receiver.Configured p
  nodup : s.receiver.completedBlocks.Nodup
  length_le : s.receiver.completedBlocks.length ≤ p.totalBlocks
  pending : ∀ id ∈ s.receiver.completedBlocks, s.receiver.pendingBlocks id = none
  completed : ∃ lost, s.receiver.completedBlocks = s.decodedBlocks.map (·.blockId) ++ lost ∧
    (lost = [] ∨ s.task = .exited .channelClosed)
  exitAll : s.task = .exited .allReceived → s.receiver.allReceived
  taken : ∃ taken, s.log.delivered = taken ++ s.channel

theorem bookkeeping_start (Q : RaptorQ) (rng : ℕ → Vector UInt8 4) (now : ℕ) (disk : Disk) :
    (start Q p rng now disk).Bookkeeping p where
  config := ⟨rfl, rfl, rfl, rfl, rfl⟩
  nodup := List.nodup_nil
  length_le := Nat.zero_le _
  pending := by intro id hid; cases hid
  completed := ⟨[], rfl, Or.inl rfl⟩
  exitAll := by intro h; cases h
  taken := ⟨[], rfl⟩

/-- The receiver has not decoded all blocks: there is room for one more id. -/
theorem Bookkeeping.length_lt {Q : RaptorQ} {s : RecvFile Q} (h : s.Bookkeeping p)
    (hopen : ¬ s.receiver.allReceived) : s.receiver.completedBlocks.length < p.totalBlocks := by
  have hle := h.length_le
  have hlt := p.totalBlocks_lt
  rw [UdpReceiver.allReceived, h.config.totalBlocks] at hopen
  rw [Nat.mod_eq_of_lt (by omega)] at hopen
  omega

/-- The exit condition of `receive_loop`: as many blocks as the transfer has. -/
theorem Bookkeeping.allReceived_iff {Q : RaptorQ} {s : RecvFile Q} (h : s.Bookkeeping p) :
    s.receiver.allReceived ↔ s.receiver.completedBlocks.length = p.totalBlocks := by
  have hle := h.length_le
  have hlt := p.totalBlocks_lt
  rw [UdpReceiver.allReceived, h.config.totalBlocks, Nat.mod_eq_of_lt (by omega)]
  omega

/-- `n` different ids below `n` are all of them. -/
theorem mem_of_nodup_of_length {l : List ℕ} {n : ℕ} (hnodup : l.Nodup) (hlt : ∀ id ∈ l, id < n)
    (hlen : l.length = n) {id : ℕ} (hid : id < n) : id ∈ l := by
  have hsub : l.toFinset ⊆ Finset.range n := by
    intro x hx
    exact Finset.mem_range.mpr (hlt x (List.mem_toFinset.mp hx))
  have hcard : (Finset.range n).card ≤ l.toFinset.card := by
    rw [Finset.card_range, List.toFinset_card_of_nodup hnodup, hlen]
  have heq := Finset.eq_of_subset_of_card_le hsub hcard
  exact List.mem_toFinset.mp (heq ▸ Finset.mem_range.mpr hid)

/-- **When the receive task leaves by its "all blocks received" exit, every id has been put on
the channel**, if only ids in range were decoded. -/
theorem Bookkeeping.mem_delivered {Q : RaptorQ} {s : RecvFile Q} (h : s.Bookkeeping p)
    (htask : s.task = .exited .allReceived)
    (hids : ∀ block ∈ s.decodedBlocks, block.blockId < p.totalBlocks) {id : ℕ}
    (hid : id < p.totalBlocks) : ∃ block ∈ s.log.delivered, block.blockId = id := by
  have heq : s.receiver.completedBlocks = s.log.delivered.map (·.blockId) := by
    obtain ⟨lost, heq, hlost⟩ := h.completed
    obtain rfl := hlost.resolve_right (by simp [htask])
    simpa [decodedBlocks, htask, RecvTask.inHand] using heq
  have hlen := h.allReceived_iff.mp (h.exitAll htask)
  have hmem := mem_of_nodup_of_length h.nodup (n := p.totalBlocks) ?_ hlen hid
  · rw [heq] at hmem
    obtain ⟨block, hblock, rfl⟩ := List.mem_map.mp hmem
    exact ⟨block, hblock, rfl⟩
  · intro id' hid'
    rw [heq] at hid'
    obtain ⟨block, hblock, rfl⟩ := List.mem_map.mp hid'
    exact hids block (List.mem_append_left _ hblock)

/-- Block ids are put on the channel at most once. -/
theorem Bookkeeping.nodup_delivered {Q : RaptorQ} {s : RecvFile Q} (h : s.Bookkeeping p) :
    (s.log.delivered.map (·.blockId)).Nodup := by
  obtain ⟨lost, heq, -⟩ := h.completed
  have hnodup := h.nodup
  rw [heq, decodedBlocks, List.map_append, List.append_assoc] at hnodup
  exact hnodup.of_append_left

/-- The part of the state the writer leaves alone. -/
structure SameReceiving {Q : RaptorQ} (s s' : RecvFile Q) : Prop where
  receiver : s'.receiver = s.receiver
  task : s'.task = s.task
  delivered : s'.log.delivered = s.log.delivered
  arrived : s'.log.arrived = s.log.arrived

theorem SameReceiving.refl {Q : RaptorQ} (s : RecvFile Q) : s.SameReceiving s :=
  ⟨rfl, rfl, rfl, rfl⟩

/-- Handling a block changes nothing of the receive task, nor the channel. -/
theorem TakeCases.frame {save : SaveOutcome} {s s' : RecvFile C.raptorq} {block : ReceivedBlock}
    (h : TakeCases C p save s block s') : s.SameReceiving s' ∧ s'.channel = s.channel := by
  cases h <;> exact ⟨⟨rfl, rfl, rfl, rfl⟩, rfl⟩

theorem FailCases.frame {n : ℕ} {s s' : RecvFile C.raptorq} {block : ReceivedBlock}
    (h : FailCases p n s block s') : s.SameReceiving s' ∧ s'.channel = s.channel := by
  cases h <;> exact ⟨⟨rfl, rfl, rfl, rfl⟩, rfl⟩

/-- The books survive a step that leaves the receive task alone. -/
theorem Bookkeeping.of_sameReceiving {Q : RaptorQ} {s s' : RecvFile Q} (h : s.Bookkeeping p)
    (hs : s.SameReceiving s') (hchannel : ∃ front, s.channel = front ++ s'.channel) :
    s'.Bookkeeping p := by
  have hdec : s'.decodedBlocks = s.decodedBlocks := by
    simp only [decodedBlocks, hs.task, hs.delivered]
  obtain ⟨taken, htaken⟩ := h.taken
  obtain ⟨front, hfront⟩ := hchannel
  refine ⟨hs.receiver ▸ h.config, hs.receiver ▸ h.nodup, hs.receiver ▸ h.length_le,
    hs.receiver ▸ h.pending, ?_, ?_, taken ++ front, ?_⟩
  · rw [hs.receiver, hdec, hs.task]
    exact h.completed
  · rw [hs.receiver, hs.task]
    exact h.exitAll
  · rw [hs.delivered, htaken, hfront, List.append_assoc]

/-- While the receive task runs, every completed block has been delivered. -/
theorem Bookkeeping.completed_eq {Q : RaptorQ} {s : RecvFile Q} (h : s.Bookkeeping p)
    (htask : s.task ≠ .exited .channelClosed) :
    s.receiver.completedBlocks = s.decodedBlocks.map (·.blockId) := by
  obtain ⟨lost, heq, hlost⟩ := h.completed
  obtain rfl := hlost.resolve_right htask
  rw [heq, List.append_nil]

/-- A datagram that completes no block keeps the books: no decoder is started for a block that is
complete. -/
theorem Bookkeeping.undecoded {s : RecvFile C.raptorq} (h : s.Bookkeeping p) {data : Bytes}
    {r : UdpReceiver C.raptorq} {res : PacketResult} (htask : s.task = .running)
    (hconf : r.Configured p) (hcomp : r.completedBlocks = s.receiver.completedBlocks)
    (hpending : ∀ id ∈ s.receiver.completedBlocks,
      r.pendingBlocks id = s.receiver.pendingBlocks id)
    (hres : ∀ block, res ≠ .ok (some block)) : (s.afterReceive data r res).Bookkeeping p := by
  have hcompleted : s.receiver.completedBlocks = s.decodedBlocks.map (·.blockId) :=
    h.completed_eq (by simp [htask])
  have hdec : (s.afterReceive data r res).decodedBlocks = s.decodedBlocks := by
    cases res with
    | ok out =>
        cases out with
        | none => simp [afterReceive, decodedBlocks, RecvTask.inHand, htask]
        | some block => exact absurd rfl (hres block)
    | err e => simp [afterReceive, decodedBlocks, RecvTask.inHand, htask]
    | panic fault => simp [afterReceive, decodedBlocks, RecvTask.inHand, htask]
  have hexit : (s.afterReceive data r res).task ≠ .exited .allReceived := by
    cases res with
    | ok out => cases out <;> exact fun h => by cases h
    | err e => exact fun h => by cases h
    | panic fault => exact fun h => by cases h
  refine ⟨hconf, ?_, ?_, ?_, ⟨[], ?_, Or.inl rfl⟩, fun htask' => absurd htask' hexit, h.taken⟩
  · exact hcomp ▸ h.nodup
  · exact hcomp ▸ h.length_le
  · intro id hid
    have hmem : id ∈ s.receiver.completedBlocks := hcomp ▸ hid
    exact (hpending id hmem).trans (h.pending id hmem)
  · rw [afterReceive_receiver, hcomp, hdec, hcompleted, List.append_nil]

/-- A datagram keeps the books. -/
theorem Bookkeeping.datagram {s : RecvFile C.raptorq} (h : s.Bookkeeping p) {data : Bytes}
    {r : UdpReceiver C.raptorq} {res : PacketResult} (htask : s.task = .running)
    (hopen : ¬ s.receiver.allReceived) (hconfig : s.receiver.SameConfig r)
    (heffect : s.receiver.Effect C data r res) : (s.afterReceive data r res).Bookkeeping p := by
  have hconf := h.config.of_sameConfig hconfig
  cases heffect with
  | ignored hauth hpending hcomp hres =>
      refine h.undecoded htask hconf hcomp (fun id _ => by rw [hpending]) fun block => ?_
      rcases hres with rfl | ⟨e, rfl⟩ <;> simp
  | faulted hauth hnew hlen hpending hcomp =>
      exact h.undecoded htask hconf hcomp (fun id _ => by rw [hpending]) (by simp)
  | @absorbed id len plain entry hauth hnew hlen hadd hpending hcomp =>
      refine h.undecoded htask hconf hcomp (fun id' hmem => ?_) (by simp)
      have hne : id' ≠ id := fun heq => hnew (heq ▸ hmem)
      rw [hpending, Function.update_of_ne hne]
  | @decoded len plain block hauth hnew hlen hadd hpending hcomp =>
      have hlt := h.length_lt hopen
      have hcompleted : s.receiver.completedBlocks = s.log.delivered.map (·.blockId) := by
        simpa [decodedBlocks, htask, RecvTask.inHand] using h.completed_eq (by simp [htask])
      refine ⟨hconf, ?_, ?_, ?_, ⟨[], ?_, Or.inl rfl⟩, ?_, h.taken⟩
      · rw [afterReceive_receiver, hcomp]
        exact List.Nodup.append h.nodup (List.nodup_singleton _) (by simpa using hnew)
      · rw [afterReceive_receiver, hcomp, List.length_append]
        exact hlt
      · intro id' hid'
        rw [afterReceive_receiver, hpending]
        by_cases heq : id' = block.blockId
        · rw [heq, Function.update_self]
        · rw [Function.update_of_ne heq]
          rw [afterReceive_receiver, hcomp] at hid'
          exact h.pending id' (by simpa [heq] using hid')
      · simp [afterReceive, decodedBlocks, RecvTask.inHand, hcomp, hcompleted]
      · simp [afterReceive]

/-- **Every step keeps the books.** -/
theorem Bookkeeping.step {s s' : RecvFile C.raptorq} {e : RecvEvent} (h : s.Bookkeeping p)
    (hstep : RecvFile.step C p s e = some s') : s'.Bookkeeping p := by
  cases step_cases hstep with
  | datagram now data r res htask hopen hconfig heffect =>
      exact h.datagram htask hopen hconfig heffect
  | recvError => exact h
  | idleTimeout htask hopen =>
      have heq := h.completed_eq (by simp [htask])
      refine ⟨h.config, h.nodup, h.length_le, h.pending, ⟨[], ?_, Or.inl rfl⟩, by simp, h.taken⟩
      simpa [decodedBlocks, htask, RecvTask.inHand] using heq
  | exitAll htask hall =>
      have heq := h.completed_eq (by simp [htask])
      refine ⟨h.config, h.nodup, h.length_le, h.pending, ⟨[], ?_, Or.inl rfl⟩, fun _ => hall,
        h.taken⟩
      simpa [decodedBlocks, htask, RecvTask.inHand] using heq
  | send block htask hopen hroom =>
      have heq := h.completed_eq (by simp [htask])
      obtain ⟨taken, htaken⟩ := h.taken
      refine ⟨h.config, h.nodup, h.length_le, h.pending, ⟨[], ?_, Or.inl rfl⟩, by simp [pushBlock],
        taken, ?_⟩
      · simpa [pushBlock, decodedBlocks, htask, RecvTask.inHand] using heq
      · simp [pushBlock, htaken]
  | sendFailed block htask hclosed =>
      have heq := h.completed_eq (by simp [htask])
      refine ⟨h.config, h.nodup, h.length_le, h.pending, ⟨[block.blockId], ?_, Or.inr rfl⟩,
        by simp, h.taken⟩
      simpa [decodedBlocks, htask, RecvTask.inHand] using heq
  | take save block rest s' hwriter hchannel htake =>
      obtain ⟨hsame, hch⟩ := htake.frame
      exact h.of_sameReceiving ⟨hsame.receiver, hsame.task, hsame.delivered, hsame.arrived⟩
        ⟨[block], by rw [hch, hchannel]; rfl⟩
  | writeFails n block rest s' hwriter hchannel hnew hfail =>
      obtain ⟨hsame, hch⟩ := hfail.frame
      exact h.of_sameReceiving ⟨hsame.receiver, hsame.task, hsame.delivered, hsame.arrived⟩
        ⟨[block], by rw [hch, hchannel]; rfl⟩
  | channelEnd => exact h.of_sameReceiving ⟨rfl, rfl, rfl, rfl⟩ ⟨[], rfl⟩
  | finish save why => exact h.of_sameReceiving ⟨rfl, rfl, rfl, rfl⟩ ⟨[], rfl⟩
  | joinFails => exact h.of_sameReceiving ⟨rfl, rfl, rfl, rfl⟩ ⟨[], rfl⟩
  | ioFails => exact h.of_sameReceiving ⟨rfl, rfl, rfl, rfl⟩ ⟨[], rfl⟩

/-- **The books hold in every reachable state**, whatever arrives. -/
theorem bookkeeping_of_reaches {P : RecvFile C.raptorq → RecvEvent → Prop}
    {rng : ℕ → Vector UInt8 4} {now : ℕ} {disk : Disk} {s : RecvFile C.raptorq}
    (h : Transition.Reaches (RecvFile.step C p) P (start C.raptorq p rng now disk) s) :
    s.Bookkeeping p :=
  h.invariant (bookkeeping_start _ _ _ _) fun _ _ _ hb _ hs => hb.step hs

/-! ## Provenance -/

/-- The environments in which every packet that authenticates for block `id` satisfies `K id`. -/
def Arrivals (C : Crates) (p : RecvParams) (K : ℕ → C.raptorq.Packet → Prop)
    (_ : RecvFile C.raptorq) (e : RecvEvent) : Prop :=
  ∀ now data, e = .datagram now data → ∀ id plain, p.opens C data = some (id, plain) →
    K id (C.raptorq.deserialize plain)

/-- `data` came out of the decoder of block `id`, which was fed packets satisfying `K id` only. -/
def DecodedFrom (C : Crates) (p : RecvParams) (K : ℕ → C.raptorq.Packet → Prop) (id : ℕ)
    (data : Bytes) : Prop :=
  ∃ len ps q, p.decoderLen id = .ok len ∧ (∀ q' ∈ ps, K id q') ∧ K id q ∧
    (C.raptorq.decode (C.raptorq.feed (C.raptorq.decoderNew len SYMBOL_SIZE) ps) q).2 = some data

/-- Where decoders and blocks come from. -/
structure Provenance (C : Crates) (p : RecvParams) (K : ℕ → C.raptorq.Packet → Prop)
    (s : RecvFile C.raptorq) : Prop where
  pending : ∀ id entry, s.receiver.pendingBlocks id = some entry →
    ∃ len ps, p.decoderLen id = .ok len ∧ entry.decoder.FedWith len ps ∧ ∀ q ∈ ps, K id q
  blocks : ∀ block ∈ s.decodedBlocks, DecodedFrom C p K block.blockId block.data

variable {K : ℕ → C.raptorq.Packet → Prop}

theorem provenance_start (rng : ℕ → Vector UInt8 4) (now : ℕ) (disk : Disk) :
    Provenance C p K (start C.raptorq p rng now disk) where
  pending := by intro id entry h; cases h
  blocks := by intro block h; cases h

/-- The decoder a packet of block `id` is fed to, with its history. -/
theorem Provenance.decoderFor {s : RecvFile C.raptorq} (h : Provenance C p K s) {id len : ℕ}
    (hlen : p.decoderLen id = .ok len) :
    ∃ ps, (s.receiver.decoderFor id len).FedWith len ps ∧ ∀ q ∈ ps, K id q := by
  unfold UdpReceiver.decoderFor
  cases hpend : s.receiver.pendingBlocks id with
  | none => exact ⟨[], FecDecoder.fedWith_new len, by simp⟩
  | some entry =>
      obtain ⟨len', ps, hlen', hfed, hps⟩ := h.pending id entry hpend
      obtain rfl : len' = len := Except.ok.inj (hlen'.symm.trans hlen)
      exact ⟨ps, hfed, hps⟩

/-- A datagram whose packet satisfies `K` keeps decoders and blocks made of such packets. -/
theorem Provenance.datagram {s : RecvFile C.raptorq} (h : Provenance C p K s)
    (hb : s.Bookkeeping p) {data : Bytes} {r : UdpReceiver C.raptorq} {res : PacketResult}
    (hK : ∀ id plain, p.opens C data = some (id, plain) → K id (C.raptorq.deserialize plain))
    (heffect : s.receiver.Effect C data r res) : Provenance C p K (s.afterReceive data r res) := by
  have hdelivered : ∀ block ∈ s.log.delivered, DecodedFrom C p K block.blockId block.data :=
    fun block hblock => h.blocks block (by simp [decodedBlocks, hblock])
  cases heffect with
  | ignored hauth hpending hcomp hres =>
      refine ⟨?_, ?_⟩
      · rw [afterReceive_receiver, hpending]
        exact h.pending
      · rcases hres with rfl | ⟨e, rfl⟩ <;>
          simpa [decodedBlocks, afterReceive, RecvTask.inHand] using hdelivered
  | faulted hauth hnew hlen hpending hcomp =>
      refine ⟨?_, ?_⟩
      · rw [afterReceive_receiver, hpending]
        exact h.pending
      · simpa [decodedBlocks, afterReceive, RecvTask.inHand] using hdelivered
  -- the decoder of the block gets one packet more, the others none
  | @absorbed id len plain entry hauth hnew hlen hadd hpending hcomp =>
      rw [hb.config.authentic_eq] at hauth
      rw [hb.config.actualBlockLen_eq] at hlen
      obtain ⟨ps, hfed, hps⟩ := h.decoderFor hlen
      refine ⟨?_, ?_⟩
      · intro id' entry' hentry'
        rw [afterReceive_receiver, hpending] at hentry'
        by_cases heq : id' = id
        · subst heq
          rw [Function.update_self] at hentry'
          obtain rfl := Option.some.inj hentry'
          refine ⟨len, _, hlen, (hfed.of_absorbed hadd).2, ?_⟩
          exact List.forall_mem_append.mpr ⟨hps, List.forall_mem_singleton.mpr (hK _ _ hauth)⟩
        · rw [Function.update_of_ne heq] at hentry'
          exact h.pending id' entry' hentry'
      · simpa [decodedBlocks, afterReceive, RecvTask.inHand] using hdelivered
  -- the block is in hand now, and no longer pending
  | @decoded len plain block hauth hnew hlen hadd hpending hcomp =>
      rw [hb.config.authentic_eq] at hauth
      rw [hb.config.actualBlockLen_eq] at hlen
      obtain ⟨ps, hfed, hps⟩ := h.decoderFor hlen
      refine ⟨?_, ?_⟩
      · intro id' entry' hentry'
        rw [afterReceive_receiver, hpending] at hentry'
        by_cases heq : id' = block.blockId
        · rw [heq, Function.update_self] at hentry'
          cases hentry'
        · rw [Function.update_of_ne heq] at hentry'
          exact h.pending id' entry' hentry'
      · intro block' hblock'
        simp only [decodedBlocks, afterReceive, RecvTask.inHand, List.mem_append,
          List.mem_singleton] at hblock'
        rcases hblock' with hblock' | rfl
        · exact hdelivered block' hblock'
        · exact ⟨len, ps, _, hlen, hps, hK _ _ hauth, hfed.of_decoded hadd⟩

/-- **Every step keeps the provenance**, as long as arriving packets satisfy `K`. -/
theorem Provenance.step {s s' : RecvFile C.raptorq} {e : RecvEvent} (h : Provenance C p K s)
    (hb : s.Bookkeeping p) (hK : Arrivals C p K s e) (hstep : RecvFile.step C p s e = some s') :
    Provenance C p K s' := by
  have hframe : ∀ t : RecvFile C.raptorq, t.receiver.pendingBlocks = s.receiver.pendingBlocks →
      (∀ block ∈ t.decodedBlocks, block ∈ s.decodedBlocks) → Provenance C p K t :=
    fun t hp hd => ⟨hp ▸ h.pending, fun block hblock => h.blocks block (hd block hblock)⟩
  have hsame : ∀ t : RecvFile C.raptorq, s.SameReceiving t → Provenance C p K t :=
    fun t ht => hframe t (by rw [ht.receiver]) (by simp [decodedBlocks, ht.task, ht.delivered])
  cases step_cases hstep with
  | datagram now data r res htask hopen hconfig heffect =>
      exact h.datagram hb (hK now data rfl) heffect
  | recvError => exact h
  | idleTimeout => exact hframe _ rfl (by simp +contextual [decodedBlocks, RecvTask.inHand])
  | exitAll => exact hframe _ rfl (by simp +contextual [decodedBlocks, RecvTask.inHand])
  | send block htask =>
      exact hframe _ rfl (by simp [decodedBlocks, pushBlock, RecvTask.inHand, htask])
  | sendFailed => exact hframe _ rfl (by simp +contextual [decodedBlocks, RecvTask.inHand])
  | take save block rest s' hwriter hchannel htake =>
      obtain ⟨ht, -⟩ := htake.frame
      exact hsame _ ⟨ht.receiver, ht.task, ht.delivered, ht.arrived⟩
  | writeFails n block rest s' hwriter hchannel hnew hfail =>
      obtain ⟨ht, -⟩ := hfail.frame
      exact hsame _ ⟨ht.receiver, ht.task, ht.delivered, ht.arrived⟩
  | channelEnd => exact hsame _ ⟨rfl, rfl, rfl, rfl⟩
  | finish => exact hsame _ ⟨rfl, rfl, rfl, rfl⟩
  | joinFails => exact hsame _ ⟨rfl, rfl, rfl, rfl⟩
  | ioFails => exact hsame _ ⟨rfl, rfl, rfl, rfl⟩

/-- **Provenance in every reachable state.** -/
theorem provenance_of_reaches {rng : ℕ → Vector UInt8 4} {now : ℕ} {disk : Disk}
    {P : RecvFile C.raptorq → RecvEvent → Prop} {s : RecvFile C.raptorq}
    (hP : ∀ s e, P s e → Arrivals C p K s e)
    (h : Transition.Reaches (RecvFile.step C p) P (start C.raptorq p rng now disk) s) :
    Provenance C p K s :=
  h.invariant_along (provenance_start _ _ _) fun u e _ hu hp he hs =>
    hp.step (bookkeeping_of_reaches hu) (hP u e he) hs

/-- A decoded block has the length its decoder was set up with. -/
theorem DecodedFrom.length (hC : C.Correct) {id : ℕ} {data : Bytes}
    (h : DecodedFrom C p K id data) : p.decoderLen id = .ok data.length := by
  obtain ⟨len, ps, q, hlen, -, -, hout⟩ := h
  rw [hlen, hC.raptorq.decode_length hout]

/-- Some packet that satisfies `K` has arrived for a decoded block. -/
theorem DecodedFrom.exists_packet {id : ℕ} {data : Bytes} (h : DecodedFrom C p K id data) :
    ∃ q, K id q := by
  obtain ⟨len, ps, q, -, -, hq, -⟩ := h
  exact ⟨q, hq⟩

/-- **Packets of a block of the right length decode to that block.** -/
theorem DecodedFrom.eq (hC : C.Correct) {id : ℕ} {data out : Bytes}
    (h : DecodedFrom C p K id out) (hlen : p.decoderLen id = .ok data.length)
    (hK : ∀ q, K id q → C.raptorq.IsPacketOf data q) : out = data := by
  obtain ⟨len, ps, q, hlen', hps, hq, hout⟩ := h
  obtain rfl : len = data.length := Except.ok.inj (hlen'.symm.trans hlen)
  exact hC.raptorq.decode_sound (fun q' hq' => hK q' (hps q' hq')) (hK q hq) hout

end RecvFile

end Updown
