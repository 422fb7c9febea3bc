import Updown.Protocol.Wire

set_option autoImplicit false

/-! # Forward error correction

`FecEncoder`, `FecDecoder` and `AdaptiveFec` (`fec/mod.rs`) over a RaptorQ codec that is a
parameter: the `raptorq` crate is not part of the repository. `RaptorQ.Correct` states what the
code relies on. The `f32` quantities are exact rationals.
-/

namespace Updown

/-- The part of the `raptorq` crate the code calls. An encoder or decoder is configured by
`ObjectTransmissionInformation::with_defaults(len, symbol_size)`. -/
structure RaptorQ where
  Packet : Type
  BlockEncoder : Type
  Decoder : Type
  serialize : Packet → Bytes
  deserialize : Bytes → Packet
  /-- `Encoder::with_defaults(data, symbol_size).get_block_encoders()`. -/
  blockEncoders : Bytes → ℕ → List BlockEncoder
  sourcePackets : BlockEncoder → List Packet
  repairPackets : BlockEncoder → ℕ → ℕ → List Packet
  /-- Whether data of the given length is split into no source block at all. -/
  noSourceBlocks : ℕ → ℕ → Bool
  /-- The decoder `Decoder::new` returns for data of the given length. Setting it up divides by the
  number of source blocks, and panics when there is none. -/
  decoderNew : ℕ → ℕ → Decoder
  decode : Decoder → Packet → Decoder × Option Bytes

namespace RaptorQ

variable (Q : RaptorQ)

/-- `p` is a source or repair packet of `data`. -/
def IsPacketOf (data : Bytes) (p : Q.Packet) : Prop :=
  ∃ be ∈ Q.blockEncoders data SYMBOL_SIZE,
    p ∈ Q.sourcePackets be ∨ ∃ start n, p ∈ Q.repairPackets be start n

/-- The decoder after the packets `ps`. -/
def feed (d : Q.Decoder) (ps : List Q.Packet) : Q.Decoder :=
  ps.foldl (fun d p => (Q.decode d p).1) d

/-- The documented behaviour of the codec. A decoder configured with the length of `data` and
given packets of `data` returns nothing but `data`, and returns it by the time it has seen every
source packet, for data below 4 GiB (the codec takes more); a decoder returns data of the length it
was configured with; packets survive serialization, which is a four-byte payload id and at most a
symbol. No data has no source block, and data below 4 GiB has some. -/
structure Correct : Prop where
  deserialize_serialize : ∀ p, Q.deserialize (Q.serialize p) = p
  serialize_length : ∀ {data p}, Q.IsPacketOf data p → (Q.serialize p).length ≤ 4 + SYMBOL_SIZE
  decode_sound : ∀ {data ps p out},
    (∀ q ∈ ps, Q.IsPacketOf data q) → Q.IsPacketOf data p →
    (Q.decode (Q.feed (Q.decoderNew data.length SYMBOL_SIZE) ps) p).2 = some out → out = data
  decode_complete : ∀ {data ps}, data ≠ [] → data.length < 2 ^ 32 →
    (∀ q ∈ ps, Q.IsPacketOf data q) →
    (∀ be ∈ Q.blockEncoders data SYMBOL_SIZE, ∀ q ∈ Q.sourcePackets be, q ∈ ps) →
    ∃ pre p post, ps = pre ++ p :: post ∧
      (Q.decode (Q.feed (Q.decoderNew data.length SYMBOL_SIZE) pre) p).2 = some data
  decode_length : ∀ {n ps p out},
    (Q.decode (Q.feed (Q.decoderNew n SYMBOL_SIZE) ps) p).2 = some out → out.length = n
  noSourceBlocks_zero : Q.noSourceBlocks 0 SYMBOL_SIZE = true
  noSourceBlocks_of_pos : ∀ {n}, 0 < n → n < 2 ^ 32 → Q.noSourceBlocks n SYMBOL_SIZE = false

@[simp] theorem feed_nil (d : Q.Decoder) : Q.feed d [] = d := rfl

theorem feed_snoc (d : Q.Decoder) (ps : List Q.Packet) (p : Q.Packet) :
    Q.feed d (ps ++ [p]) = (Q.decode (Q.feed d ps) p).1 := by
  simp [feed]

/-- A decoder set up for `len` bytes has returned nothing for the packets `ps`. -/
def Undecoded (len : ℕ) (ps : List Q.Packet) : Prop :=
  ∀ pre q post, ps = pre ++ q :: post →
    (Q.decode (Q.feed (Q.decoderNew len SYMBOL_SIZE) pre) q).2 = none

theorem undecoded_nil (len : ℕ) : Q.Undecoded len [] := by
  intro pre q post h
  simp at h

variable {Q} in
theorem Undecoded.snoc {len : ℕ} {ps : List Q.Packet} (h : Q.Undecoded len ps) {q : Q.Packet}
    (hq : (Q.decode (Q.feed (Q.decoderNew len SYMBOL_SIZE) ps) q).2 = none) :
    Q.Undecoded len (ps ++ [q]) := by
  intro pre q' post hsplit
  rcases List.eq_nil_or_concat post with rfl | ⟨post', last, rfl⟩
  · obtain ⟨rfl, hlast⟩ := List.append_inj' hsplit rfl
    obtain rfl := List.singleton_inj.mp hlast
    exact hq
  · refine h pre q' post' ?_
    rw [List.concat_eq_append, ← List.cons_append, ← List.append_assoc] at hsplit
    exact (List.append_inj' hsplit rfl).1

end RaptorQ

/-! ## The encoder -/

/-- FEC encoder: takes a data block and produces source and repair symbols. -/
structure FecEncoder where
  symbolSize : ℕ
  repairRatio : ℚ
  minRepairRatio : ℚ

/-- Stats returned after encoding a block. -/
structure EncodeStats where
  sourceSymbols : ℕ
  repairSymbols : ℕ
  totalSymbols : ℕ
  repairRatioUsed : ℚ

namespace FecEncoder

def new (repairRatio : ℚ) : FecEncoder :=
  { symbolSize := SYMBOL_SIZE, repairRatio := repairRatio, minRepairRatio := 2 / 100 }

/-- The repair packets made for a source block of `numSource` symbols. -/
def numRepair (e : FecEncoder) (numSource : ℕ) : ℕ := ⌈numSource * e.repairRatio⌉.toNat

/-- Encode a block, returning symbols and stats. -/
def encode (Q : RaptorQ) (e : FecEncoder) (data : Bytes) : List Q.Packet × EncodeStats :=
  let encoders := Q.blockEncoders data e.symbolSize
  let packets := encoders.flatMap fun be =>
    let source := Q.sourcePackets be
    source ++ Q.repairPackets be 0 (e.numRepair source.length)
  let totalSource := (encoders.map fun be => (Q.sourcePackets be).length).sum
  let totalRepair :=
    (encoders.map fun be => e.numRepair (Q.sourcePackets be).length).sum
  (packets,
    { sourceSymbols := totalSource, repairSymbols := totalRepair,
      totalSymbols := totalSource + totalRepair, repairRatioUsed := e.repairRatio })

/-- Every packet the encoder makes of a block is a packet of that block. -/
theorem isPacketOf_encode {Q : RaptorQ} {e : FecEncoder} (he : e.symbolSize = SYMBOL_SIZE)
    {data : Bytes} {p : Q.Packet} (hp : p ∈ (e.encode Q data).1) : Q.IsPacketOf data p := by
  simp only [encode, he, List.mem_flatMap, List.mem_append] at hp
  obtain ⟨be, hbe, hsource | hrepair⟩ := hp
  · exact ⟨be, hbe, Or.inl hsource⟩
  · exact ⟨be, hbe, Or.inr ⟨_, _, hrepair⟩⟩

/-- The encoder emits every source packet of the block. -/
theorem mem_encode_of_source {Q : RaptorQ} {e : FecEncoder} (he : e.symbolSize = SYMBOL_SIZE)
    {data : Bytes} {be : Q.BlockEncoder} (hbe : be ∈ Q.blockEncoders data SYMBOL_SIZE)
    {p : Q.Packet} (hp : p ∈ Q.sourcePackets be) : p ∈ (e.encode Q data).1 := by
  simp only [encode, he, List.mem_flatMap, List.mem_append]
  exact ⟨be, hbe, Or.inl hp⟩

end FecEncoder

/-! ## The decoder -/

/-- Stats from decoding a block. -/
structure DecodeStats where
  sourceSymbols : ℕ
  packetsNeeded : ℕ
  excessSymbols : ℕ
  estimatedLoss : ℚ
  deriving DecidableEq

/-- FEC decoder with decode statistics. -/
structure FecDecoder (Q : RaptorQ) where
  decoder : Q.Decoder
  complete : Bool
  sourceSymbols : ℕ
  packetsFed : ℕ

namespace FecDecoder

variable {Q : RaptorQ}

def new (Q : RaptorQ) (dataLen symbolSize : ℕ) : FecDecoder Q :=
  { decoder := Q.decoderNew dataLen symbolSize
    complete := false
    sourceSymbols := (dataLen + symbolSize - 1) / symbolSize
    packetsFed := 0 }

/-- The statistics of a block decoded after `packetsFed` packets. -/
def stats (sourceSymbols packetsFed : ℕ) : DecodeStats :=
  { sourceSymbols := sourceSymbols
    packetsNeeded := packetsFed
    excessSymbols := packetsFed - sourceSymbols
    estimatedLoss := if 0 < packetsFed then 1 - (sourceSymbols : ℚ) / packetsFed else 0 }

/-- Feed a received encoding packet; the data and statistics if reconstruction succeeded. -/
def addPacket (d : FecDecoder Q) (p : Q.Packet) :
    FecDecoder Q × Option (Bytes × DecodeStats) :=
  if d.complete then (d, none)
  else
    match Q.decode d.decoder p with
    | (dec, some data) =>
        ({ d with decoder := dec, complete := true, packetsFed := d.packetsFed + 1 },
          some (data, stats d.sourceSymbols (d.packetsFed + 1)))
    | (dec, none) => ({ d with decoder := dec, packetsFed := d.packetsFed + 1 }, none)

/-- The decoder `d` was set up for `len` bytes and has been fed `ps` without completing. -/
structure FedWith (d : FecDecoder Q) (len : ℕ) (ps : List Q.Packet) : Prop where
  decoder_eq : d.decoder = Q.feed (Q.decoderNew len SYMBOL_SIZE) ps
  incomplete : d.complete = false

theorem fedWith_new (len : ℕ) : (new Q len SYMBOL_SIZE).FedWith len [] := ⟨rfl, rfl⟩

/-- What one packet does to a decoder in use: it goes on, or returns what the codec returns. -/
theorem FedWith.addPacket {d : FecDecoder Q} {len : ℕ} {ps : List Q.Packet}
    (h : d.FedWith len ps) (p : Q.Packet) :
    ((Q.decode (Q.feed (Q.decoderNew len SYMBOL_SIZE) ps) p).2 = none ∧
      (d.addPacket p).2 = none ∧ (d.addPacket p).1.FedWith len (ps ++ [p])) ∨
    ∃ data st, (Q.decode (Q.feed (Q.decoderNew len SYMBOL_SIZE) ps) p).2 = some data ∧
      (d.addPacket p).2 = some (data, st) := by
  have hd : Q.decode d.decoder p = Q.decode (Q.feed (Q.decoderNew len SYMBOL_SIZE) ps) p := by
    rw [h.decoder_eq]
  cases hr : Q.decode d.decoder p with
  | mk dec out =>
      rw [← hd, hr]
      cases out with
      | none =>
          refine Or.inl ⟨rfl, ?_, ?_, ?_⟩
          · simp [FecDecoder.addPacket, h.incomplete, hr]
          · simp [FecDecoder.addPacket, h.incomplete, hr, Q.feed_snoc, ← hd]
          · simp [FecDecoder.addPacket, h.incomplete, hr]
      | some data =>
          refine Or.inr ⟨data, stats d.sourceSymbols (d.packetsFed + 1), rfl, ?_⟩
          simp [FecDecoder.addPacket, h.incomplete, hr]

section

variable {d d' : FecDecoder Q} {len : ℕ} {ps : List Q.Packet} {p : Q.Packet}

/-- A packet after which the decoder needs more … -/
theorem FedWith.of_absorbed (h : d.FedWith len ps) (hadd : d.addPacket p = (d', none)) :
    (Q.decode (Q.feed (Q.decoderNew len SYMBOL_SIZE) ps) p).2 = none ∧
      d'.FedWith len (ps ++ [p]) := by
  rcases h.addPacket p with ⟨hout, -, hfed⟩ | ⟨data, st, -, hsome⟩
  · rw [hadd] at hfed
    exact ⟨hout, hfed⟩
  · rw [hadd] at hsome
    cases hsome

/-- … and one that completes the block. -/
theorem FedWith.of_decoded (h : d.FedWith len ps) {data : Bytes} {st : DecodeStats}
    (hadd : (d.addPacket p).2 = some (data, st)) :
    (Q.decode (Q.feed (Q.decoderNew len SYMBOL_SIZE) ps) p).2 = some data := by
  rcases h.addPacket p with ⟨-, hnone, -⟩ | ⟨data', st', hout, hsome⟩
  · rw [hadd] at hnone
    cases hnone
  · rw [hadd] at hsome
    obtain ⟨rfl, -⟩ := Prod.mk.inj (Option.some.inj hsome)
    exact hout

end

end FecDecoder

/-! ## Adaptive redundancy -/

/-- Adaptive FEC controller: adjusts the repair ratio based on measured loss. -/
structure AdaptiveFec where
  lossEstimate : ℚ
  alpha : ℚ
  minRatio : ℚ
  maxRatio : ℚ
  safetyMargin : ℚ
  blocksObserved : ℕ

namespace AdaptiveFec

def new : AdaptiveFec :=
  { lossEstimate := 0, alpha := 3 / 10, minRatio := 2 / 100, maxRatio := 50 / 100,
    safetyMargin := 13 / 10, blocksObserved := 0 }

/-- The current recommended repair ratio. -/
def recommendedRatio (a : AdaptiveFec) : ℚ :=
  min (max (a.lossEstimate * a.safetyMargin) a.minRatio) a.maxRatio

/-- Update with the decode stats of a completed block. The count of blocks is a `u32`. -/
def update (a : AdaptiveFec) (stats : DecodeStats) : AdaptiveFec :=
  let measured := max stats.estimatedLoss 0
  let observed := (a.blocksObserved + 1) % 2 ^ 32
  { a with
    blocksObserved := observed
    lossEstimate :=
      if observed = 1 then measured
      else a.alpha * measured + (1 - a.alpha) * a.lossEstimate }

end AdaptiveFec

end Updown
