import Updown.Transport.Sender

set_option autoImplicit false

/-! # The UDP receiver

`UdpReceiver::process_packet` and the body of `receive_loop` (`transport/receiver.rs`): parse and
authenticate a datagram, feed its symbol to the decoder of its block, and do the bookkeeping of a
decoded block. `Effect` says once what one datagram can do to the receiver; the results about
whole transfers use it and never unfold `processPacket`.
-/

namespace Updown

/-- A block being received and decoded. -/
structure PendingBlock (Q : RaptorQ) where
  decoder : FecDecoder Q
  packetsReceived : ℕ
  firstPacketTime : ℕ

/-- Result of receiving a complete block. -/
structure ReceivedBlock where
  blockId : ℕ
  data : Bytes
  packetsReceived : ℕ
  elapsed : ℕ
  decodeStats : DecodeStats
  deriving DecidableEq

/-- UDP receiver with FEC reconstruction, adaptive FEC and receiver-driven rate control. -/
structure UdpReceiver (Q : RaptorQ) where
  sessionId : UInt32
  crypto : CryptoContext
  pendingBlocks : ℕ → Option (PendingBlock Q)
  completedBlocks : List ℕ
  blockDataLen : ℕ
  fileSize : ℕ
  totalBlocks : ℕ
  adaptiveFec : AdaptiveFec
  rateCalc : ReceiverRateCalculator ℚ
  timeoutPredictor : TimeoutPredictor
  blockExpectTimes : ℕ → Option ℕ
  totalPacketsReceived : ℕ
  totalBytesReceived : ℕ

/-- What `process_packet` returns, or the fault it stops with. -/
inductive PacketResult where
  | ok (block : Option ReceivedBlock)
  | err (msg : String)
  | panic (fault : Fault)

/-- Header and payload of a datagram of the session, or why it is rejected. -/
def parsePacket (session : UInt32) (data : Bytes) : Except String (PacketHeader × Bytes) :=
  if data.length < 2 then .error "packet too short"
  else
    let headerLen := LittleEndian.decode (data.take 2)
    if data.length < 2 + headerLen then .error "packet too short for header"
    else
      match PacketHeader.deserialize ((data.drop 2).take headerLen) with
      | none => .error "bincode error"
      | some header =>
          if header.magic ≠ MAGIC then .error "bad magic"
          else if header.sessionId ≠ session then .error "wrong session"
          else .ok (header, data.drop (2 + headerLen))

/-- Block id and plaintext of a datagram that is a data packet of the session and
authenticates. -/
def authentic (A : Aead) (session : UInt32) (crypto : CryptoContext) (data : Bytes) :
    Option (ℕ × Bytes) :=
  match parsePacket session data with
  | .error _ => none
  | .ok (header, payload) =>
      if header.packetType = .data then
        match crypto.decrypt A payload
            (packetAad header.sessionId header.blockId header.symbolId) with
        | .error _ => none
        | .ok plain => some (header.blockId.toNat, plain)
      else none

/-- The size of a block as the receiver computes it: the last block may be smaller. -/
def decoderLen (blockDataLen fileSize totalBlocks blockId : ℕ) : Except Fault ℕ := do
  let last ← checkedSub .totalBlocksUnderflow totalBlocks 1
  if blockId = last then
    let offset ← checkedMul blockId blockDataLen
    checkedSub .fileSizeUnderflow fileSize offset
  else
    pure blockDataLen

namespace UdpReceiver

variable {Q : RaptorQ}

def new (Q : RaptorQ) (sessionId : UInt32) (crypto : CryptoContext)
    (blockDataLen fileSize totalBlocks targetRateMbps now : ℕ) : UdpReceiver Q :=
  { sessionId := sessionId, crypto := crypto, pendingBlocks := fun _ => none,
    completedBlocks := [], blockDataLen := blockDataLen, fileSize := fileSize,
    totalBlocks := totalBlocks, adaptiveFec := .new, rateCalc := .new now targetRateMbps,
    timeoutPredictor := .new targetRateMbps blockDataLen, blockExpectTimes := fun _ => none,
    totalPacketsReceived := 0, totalBytesReceived := 0 }

/-- The length the decoder of a block is set up with. -/
def actualBlockLen (r : UdpReceiver Q) (blockId : ℕ) : Except Fault ℕ :=
  decoderLen r.blockDataLen r.fileSize r.totalBlocks blockId

/-- Record the one-way delay of a packet that carries a timestamp. -/
def recordOwd (r : UdpReceiver Q) (now : Clock) (header : PacketHeader) : UdpReceiver Q :=
  let sent := header.timestampUs.toNat
  if 0 < sent ∧ sent < now.wallUs then
    { r with rateCalc := r.rateCalc.recordOwd now.wallUs ((now.wallUs - sent : ℕ) : ℚ) }
  else r

/-- Record when the first packet of a block arrives. -/
def expectBlock (r : UdpReceiver Q) (now : Clock) (blockId : ℕ) : UdpReceiver Q :=
  let expected := (r.blockExpectTimes blockId).getD now.instant
  { r with blockExpectTimes := Function.update r.blockExpectTimes blockId (some expected) }

def setPending (r : UdpReceiver Q) (blockId : ℕ) (entry : Option (PendingBlock Q)) :
    UdpReceiver Q :=
  { r with pendingBlocks := Function.update r.pendingBlocks blockId entry }

/-- The entry of a block in `pending_blocks`; a new one is set up for `len` bytes. -/
def pendingFor (r : UdpReceiver Q) (now : Clock) (blockId len : ℕ) : PendingBlock Q :=
  (r.pendingBlocks blockId).getD
    { decoder := .new Q len SYMBOL_SIZE, packetsReceived := 0, firstPacketTime := now.instant }

/-- The entry a packet of a block is fed to. A block has an entry only once its decoder could be set
up; `Decoder::new` divides by the number of source blocks of the data. -/
def openBlock (r : UdpReceiver Q) (now : Clock) (blockId : ℕ) : Except Fault (PendingBlock Q) := do
  let len ← r.actualBlockLen blockId
  if r.pendingBlocks blockId = none ∧ Q.noSourceBlocks len SYMBOL_SIZE then .error .divideByZero
  else pure (r.pendingFor now blockId len)

/-- Feed a packet to the decoder of its block. -/
def feedBlock (r : UdpReceiver Q) (now : Clock) (blockId : ℕ) (packet : Q.Packet) :
    UdpReceiver Q × PacketResult :=
  if blockId ∈ r.completedBlocks then (r, .ok none)
  else
    match r.openBlock now blockId with
    | .error fault => (r.expectBlock now blockId, .panic fault)
    | .ok pending =>
        let received := pending.packetsReceived + 1
        match pending.decoder.addPacket packet with
        | (decoder, none) =>
            ((r.expectBlock now blockId).setPending blockId
              (some { pending with decoder := decoder, packetsReceived := received }), .ok none)
        | (_, some (data, stats)) =>
            ((r.expectBlock now blockId).setPending blockId none, .ok (some
              { blockId := blockId, data := data, packetsReceived := received,
                elapsed := now.instant - pending.firstPacketTime, decodeStats := stats }))

def processPacket (C : Crates) (r : UdpReceiver C.raptorq) (now : Clock) (data : Bytes) :
    UdpReceiver C.raptorq × PacketResult :=
  match parsePacket r.sessionId data with
  | .error e => (r, .err e)
  | .ok (header, payload) =>
      let r := r.recordOwd now header
      match header.packetType with
      | .done => (r, .ok none)
      | .data =>
          match r.crypto.decrypt C.aead payload
              (packetAad header.sessionId header.blockId header.symbolId) with
          | .error e => (r, .err e)
          | .ok plain =>
              r.feedBlock now header.blockId.toNat (C.raptorq.deserialize plain)
      | _ => (r, .ok none)

/-- The bookkeeping of `receive_loop` for a decoded block. -/
def blockDecoded (C : Crates) (r : UdpReceiver Q) (now : Clock) (block : ReceivedBlock) :
    UdpReceiver Q :=
  let adaptiveFec := r.adaptiveFec.update block.decodeStats
  { r with
    adaptiveFec := adaptiveFec
    blockExpectTimes := Function.update r.blockExpectTimes block.blockId none
    timeoutPredictor :=
      match r.blockExpectTimes block.blockId with
      | some expectTime =>
          (r.timeoutPredictor.recordArrival now.instant block.blockId expectTime
            block.data.length).1
      | none => r.timeoutPredictor
    rateCalc := r.rateCalc.computeRate C.float now.instant adaptiveFec.lossEstimate
    completedBlocks := r.completedBlocks ++ [block.blockId] }

def countPacket (r : UdpReceiver Q) (len : ℕ) : UdpReceiver Q :=
  { r with
    totalPacketsReceived := r.totalPacketsReceived + 1
    totalBytesReceived := r.totalBytesReceived + len }

/-- The body of `receive_loop` for one datagram, up to handing the block to the channel. -/
def receive (C : Crates) (r : UdpReceiver C.raptorq) (now : Clock) (data : Bytes) :
    UdpReceiver C.raptorq × PacketResult :=
  match (r.countPacket data.length).processPacket C now data with
  | (r, .ok (some block)) => (r.blockDecoded C now block, .ok (some block))
  | (r, res) => (r, res)

/-- The exit condition at the head of `receive_loop`. -/
def allReceived (r : UdpReceiver Q) : Prop := r.totalBlocks ≤ r.completedBlocks.length % 2 ^ 32

instance (r : UdpReceiver Q) : Decidable r.allReceived := inferInstanceAs (Decidable (_ ≤ _))

/-! ## What a datagram can do to the receiver -/

/-- The parameters of the transfer are the same. -/
structure SameConfig (r r' : UdpReceiver Q) : Prop where
  sessionId : r'.sessionId = r.sessionId
  crypto : r'.crypto = r.crypto
  blockDataLen : r'.blockDataLen = r.blockDataLen
  fileSize : r'.fileSize = r.fileSize
  totalBlocks : r'.totalBlocks = r.totalBlocks

theorem SameConfig.actualBlockLen {r r' : UdpReceiver Q} (h : SameConfig r r') (id : ℕ) :
    r'.actualBlockLen id = r.actualBlockLen id := by
  simp only [UdpReceiver.actualBlockLen, h.blockDataLen, h.fileSize, h.totalBlocks]

/-- The decoder a packet of block `id` is fed to; a new one is set up for `len` bytes. -/
def decoderFor (r : UdpReceiver Q) (id len : ℕ) : FecDecoder Q :=
  match r.pendingBlocks id with
  | some pending => pending.decoder
  | none => .new Q len SYMBOL_SIZE

theorem decoderFor_congr {r r' : UdpReceiver Q} {id : ℕ}
    (h : r'.pendingBlocks id = r.pendingBlocks id) {len : ℕ} :
    r'.decoderFor id len = r.decoderFor id len := by
  simp only [decoderFor, h]

/-- The block cannot be set up: its length cannot be computed, or is split into no source block. -/
def Unopenable (r : UdpReceiver Q) (id : ℕ) (fault : Fault) : Prop :=
  r.actualBlockLen id = .error fault ∨
    ∃ len, r.actualBlockLen id = .ok len ∧ r.pendingBlocks id = none ∧
      Q.noSourceBlocks len SYMBOL_SIZE = true ∧ fault = .divideByZero

/-- What one datagram can do to decoders and completed blocks. -/
inductive Effect (C : Crates) (r : UdpReceiver C.raptorq) (data : Bytes)
    (r' : UdpReceiver C.raptorq) : PacketResult → Prop
  /-- Not authentic, or of a block that is already complete. -/
  | ignored {res : PacketResult}
      (hauth : ∀ id plain, authentic C.aead r.sessionId r.crypto data = some (id, plain) →
        id ∈ r.completedBlocks)
      (hpending : r'.pendingBlocks = r.pendingBlocks)
      (hcompleted : r'.completedBlocks = r.completedBlocks)
      (hres : res = .ok none ∨ ∃ e, res = .err e) : Effect C r data r' res
  /-- The block cannot be set up. -/
  | faulted {id : ℕ} {plain : Bytes} {fault : Fault}
      (hauth : authentic C.aead r.sessionId r.crypto data = some (id, plain))
      (hnew : id ∉ r.completedBlocks)
      (hunopenable : r.Unopenable id fault)
      (hpending : r'.pendingBlocks = r.pendingBlocks)
      (hcompleted : r'.completedBlocks = r.completedBlocks) :
      Effect C r data r' (.panic fault)
  /-- Fed to the decoder, which needs more. -/
  | absorbed {id len : ℕ} {plain : Bytes} {entry : PendingBlock C.raptorq}
      (hauth : authentic C.aead r.sessionId r.crypto data = some (id, plain))
      (hnew : id ∉ r.completedBlocks)
      (hlen : r.actualBlockLen id = .ok len)
      (hadd : (r.decoderFor id len).addPacket (C.raptorq.deserialize plain)
        = (entry.decoder, none))
      (hpending : r'.pendingBlocks = Function.update r.pendingBlocks id (some entry))
      (hcompleted : r'.completedBlocks = r.completedBlocks)
      (hopenable : ∀ fault, ¬ r.Unopenable id fault) :
      Effect C r data r' (.ok none)
  /-- The block is decoded. -/
  | decoded {len : ℕ} {plain : Bytes} {block : ReceivedBlock}
      (hauth : authentic C.aead r.sessionId r.crypto data = some (block.blockId, plain))
      (hnew : block.blockId ∉ r.completedBlocks)
      (hlen : r.actualBlockLen block.blockId = .ok len)
      (hadd : ((r.decoderFor block.blockId len).addPacket (C.raptorq.deserialize plain)).2
        = some (block.data, block.decodeStats))
      (hpending : r'.pendingBlocks = Function.update r.pendingBlocks block.blockId none)
      (hcompleted : r'.completedBlocks = r.completedBlocks ++ [block.blockId])
      (hopenable : ∀ fault, ¬ r.Unopenable block.blockId fault) :
      Effect C r data r' (.ok (some block))

theorem recordOwd_eq (r : UdpReceiver Q) (now : Clock) (header : PacketHeader) :
    ∃ rateCalc, r.recordOwd now header = { r with rateCalc := rateCalc } := by
  by_cases h : 0 < header.timestampUs.toNat ∧ header.timestampUs.toNat < now.wallUs
  · exact ⟨_, if_pos h⟩
  · exact ⟨r.rateCalc, if_neg h⟩

/-- A datagram that does not authenticate is dropped or reported; it can only leave a delay
sample. -/
theorem processPacket_of_not_authentic {C : Crates} {r : UdpReceiver C.raptorq} {data : Bytes}
    (now : Clock) (h : authentic C.aead r.sessionId r.crypto data = none) :
    ∃ rateCalc res, r.processPacket C now data = ({ r with rateCalc := rateCalc }, res) ∧
      (res = .ok none ∨ ∃ e, res = .err e) := by
  unfold authentic at h
  unfold processPacket
  split
  · next e _ => exact ⟨r.rateCalc, _, rfl, Or.inr ⟨e, rfl⟩⟩
  · next header payload hparse =>
      obtain ⟨rateCalc, hr⟩ := r.recordOwd_eq now header
      simp only [hparse] at h
      rw [hr]
      cases hty : header.packetType with
      | done => exact ⟨rateCalc, _, rfl, Or.inl rfl⟩
      | blockAck => exact ⟨rateCalc, _, rfl, Or.inl rfl⟩
      | rateFeedback => exact ⟨rateCalc, _, rfl, Or.inl rfl⟩
      | data =>
          rw [if_pos hty] at h
          cases hdec : r.crypto.decrypt C.aead payload
              (packetAad header.sessionId header.blockId header.symbolId) with
          | error e => exact ⟨rateCalc, _, by simp only [hdec], Or.inr ⟨e, rfl⟩⟩
          | ok plain => simp [hdec] at h

/-- An authentic datagram is fed to the decoder of its block. -/
theorem processPacket_of_authentic {C : Crates} {r : UdpReceiver C.raptorq} {data : Bytes}
    (now : Clock) {id : ℕ} {plain : Bytes}
    (h : authentic C.aead r.sessionId r.crypto data = some (id, plain)) :
    ∃ rateCalc, r.processPacket C now data =
      ({ r with rateCalc := rateCalc } : UdpReceiver C.raptorq).feedBlock now id
        (C.raptorq.deserialize plain) := by
  unfold authentic at h
  unfold processPacket
  split at h
  · cases h
  · next header payload hparse =>
      obtain ⟨rateCalc, hr⟩ := r.recordOwd_eq now header
      split at h
      · next hty =>
          split at h
          · cases h
          · next hdec =>
              obtain ⟨rfl, rfl⟩ := Prod.mk.inj (Option.some.inj h)
              refine ⟨rateCalc, ?_⟩
              simp only [hr, hty, hdec]
      · cases h

theorem decoder_pendingFor (r : UdpReceiver Q) (now : Clock) (id len : ℕ) :
    (r.pendingFor now id len).decoder = r.decoderFor id len := by
  unfold pendingFor decoderFor
  cases r.pendingBlocks id <;> rfl

theorem Unopenable.unique {r : UdpReceiver Q} {id : ℕ} {fault fault' : Fault}
    (h : r.Unopenable id fault) (h' : r.Unopenable id fault') : fault = fault' := by
  rcases h with h | ⟨len, h, -, -, rfl⟩ <;> rcases h' with h' | ⟨len', h', -, -, rfl⟩
  · exact Except.error.inj (h.symm.trans h')
  · cases h.symm.trans h'
  · cases h.symm.trans h'
  · rfl

/-- A block whose length is split into source blocks can be set up. -/
theorem not_unopenable {r : UdpReceiver Q} {id len : ℕ} (hlen : r.actualBlockLen id = .ok len)
    (hsplit : Q.noSourceBlocks len SYMBOL_SIZE = false) (fault : Fault) :
    ¬ r.Unopenable id fault := by
  rintro (herror | ⟨len', hlen', -, hnone, -⟩)
  · rw [hlen] at herror
    cases herror
  · obtain rfl := Except.ok.inj (hlen.symm.trans hlen')
    rw [hsplit] at hnone
    cases hnone

theorem openBlock_eq_error_iff {r : UdpReceiver Q} {now : Clock} {id : ℕ} {fault : Fault} :
    r.openBlock now id = .error fault ↔ r.Unopenable id fault := by
  unfold openBlock Unopenable
  cases hlen : r.actualBlockLen id with
  | error fault' => simp [bind, Except.bind]
  | ok len =>
      simp only [bind, Except.bind, reduceCtorEq, false_or]
      constructor
      · intro h
        split at h
        · next hset => exact ⟨len, rfl, hset.1, hset.2, (Except.error.inj h).symm⟩
        · cases h
      · rintro ⟨len', hlen', hnone, hsplit, rfl⟩
        obtain rfl := Except.ok.inj hlen'
        exact if_pos ⟨hnone, hsplit⟩

theorem openBlock_eq_ok {r : UdpReceiver Q} {now : Clock} {id : ℕ} {pending : PendingBlock Q}
    (h : r.openBlock now id = .ok pending) :
    ∃ len, r.actualBlockLen id = .ok len ∧ pending = r.pendingFor now id len := by
  obtain ⟨len, hlen, h⟩ := bind_eq_ok h
  split at h
  · cases h
  · exact ⟨len, hlen, (Except.ok.inj h).symm⟩

/-- **The effect of one datagram**, in one statement. -/
theorem receive_effect (C : Crates) (r : UdpReceiver C.raptorq) (now : Clock) (data : Bytes) :
    SameConfig r (r.receive C now data).1 ∧
      Effect C r data (r.receive C now data).1 (r.receive C now data).2 := by
  unfold receive
  cases hauth : authentic C.aead r.sessionId r.crypto data with
  | none =>
      obtain ⟨rateCalc, res, hproc, hres⟩ :=
        processPacket_of_not_authentic (r := r.countPacket data.length) now hauth
      rw [hproc]
      rcases hres with rfl | ⟨e, rfl⟩
      · exact ⟨⟨rfl, rfl, rfl, rfl, rfl⟩, .ignored (by simp [hauth]) rfl rfl (Or.inl rfl)⟩
      · exact ⟨⟨rfl, rfl, rfl, rfl, rfl⟩, .ignored (by simp [hauth]) rfl rfl (Or.inr ⟨e, rfl⟩)⟩
  | some pr =>
      obtain ⟨id, plain⟩ := pr
      obtain ⟨rateCalc, hproc⟩ :=
        processPacket_of_authentic (r := r.countPacket data.length) now hauth
      rw [hproc]
      -- the delay sample changes nothing the decoders depend on
      set r₁ : UdpReceiver C.raptorq :=
        { r.countPacket data.length with rateCalc := rateCalc } with hr₁
      unfold feedBlock
      -- packets of a block that is complete are dropped
      by_cases hmem : id ∈ r.completedBlocks
      · rw [if_pos (show id ∈ r₁.completedBlocks from hmem)]
        refine ⟨⟨rfl, rfl, rfl, rfl, rfl⟩, .ignored ?_ rfl rfl (Or.inl rfl)⟩
        intro id' plain' h'
        obtain ⟨rfl, -⟩ := Prod.mk.inj (Option.some.inj (hauth.symm.trans h'))
        exact hmem
      · rw [if_neg (show id ∉ r₁.completedBlocks from hmem)]
        cases hentry : r₁.openBlock now id with
        | error fault =>
            have hunopenable : r.Unopenable id fault := openBlock_eq_error_iff.mp hentry
            exact ⟨⟨rfl, rfl, rfl, rfl, rfl⟩, .faulted hauth hmem hunopenable rfl rfl⟩
        | ok pending =>
            have hopenable : ∀ fault, ¬ r.Unopenable id fault := by
              intro fault h
              rw [openBlock_eq_error_iff.mpr (show r₁.Unopenable id fault from h)] at hentry
              cases hentry
            obtain ⟨len, hlen, rfl⟩ := openBlock_eq_ok hentry
            have hdec : (r₁.pendingFor now id len).decoder = r.decoderFor id len :=
              decoder_pendingFor r₁ now id len
            dsimp only
            rw [hdec]
            cases hadd : (r.decoderFor id len).addPacket (C.raptorq.deserialize plain) with
            | mk decoder out =>
                cases out with
                | none =>
                    exact ⟨⟨rfl, rfl, rfl, rfl, rfl⟩, .absorbed hauth hmem hlen hadd rfl rfl
                      hopenable⟩
                | some res =>
                    exact ⟨⟨rfl, rfl, rfl, rfl, rfl⟩,
                      .decoded hauth hmem hlen (by rw [hadd]) rfl rfl hopenable⟩

end UdpReceiver

end Updown
