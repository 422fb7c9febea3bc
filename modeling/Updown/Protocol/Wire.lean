import Updown.Lib.LittleEndian

set_option autoImplicit false

/-! # The wire format

Packet headers of the UDP data channel, with the fixed-width little-endian layout `bincode`
gives them, and the messages of the QUIC control channel (`protocol/wire.rs`). The numbers that
headers and requests carry are machine words; everywhere else in the development a `u32`, `u64` or
`usize` is a natural number and the places where the code truncates are written out.
-/

namespace Updown

/-- A string of bytes (`Vec<u8>`, `&[u8]`). -/
abbrev Bytes := List UInt8

/-- A BLAKE3 hash (`[u8; 32]`). -/
abbrev Hash := List UInt8

/-- Default block size for file chunking (4 MiB). -/
def DEFAULT_BLOCK_SIZE : ℕ := 4 * 1024 * 1024

/-- Default symbol size for RaptorQ encoding. -/
def SYMBOL_SIZE : ℕ := 900

/-- Magic bytes for packet identification ("UPDN"). -/
def MAGIC : Vector UInt8 4 := #v[0x55, 0x50, 0x44, 0x4E]

/-- Packet types on the data channel. -/
inductive PacketType where
  | data
  | blockAck
  | rateFeedback
  | done
  deriving DecidableEq, Repr

/-- Header of every UDP packet on the data channel. -/
structure PacketHeader where
  magic : Vector UInt8 4
  packetType : PacketType
  sessionId : UInt32
  blockId : UInt32
  symbolId : UInt32
  timestampUs : UInt64
  seqNum : UInt32
  deriving DecidableEq

/-! ## `bincode` of a header -/

/-- The variant index `bincode` writes for a packet type: its position, not its discriminant. -/
def PacketType.index : PacketType → ℕ
  | .data => 0
  | .blockAck => 1
  | .rateFeedback => 2
  | .done => 3

def PacketType.ofIndex : ℕ → Option PacketType
  | 0 => some .data
  | 1 => some .blockAck
  | 2 => some .rateFeedback
  | 3 => some .done
  | _ => none

/-- `bincode::serialize(&header)`. -/
def PacketHeader.serialize (h : PacketHeader) : Bytes :=
  h.magic.toList ++ (LittleEndian.encode 4 h.packetType.index
    ++ (LittleEndian.encode 4 h.sessionId.toNat ++ (LittleEndian.encode 4 h.blockId.toNat
    ++ (LittleEndian.encode 4 h.symbolId.toNat ++ (LittleEndian.encode 8 h.timestampUs.toNat
    ++ LittleEndian.encode 4 h.seqNum.toNat)))))

/-- `bincode::deserialize`: the fields in order; bytes after the last field are ignored. -/
def PacketHeader.deserialize : Bytes → Option PacketHeader
  | m₀ :: m₁ :: m₂ :: m₃ :: bs => do
      let (ty, bs) ← LittleEndian.read 4 bs
      let ty ← PacketType.ofIndex ty
      let (session, bs) ← LittleEndian.read 4 bs
      let (block, bs) ← LittleEndian.read 4 bs
      let (symbol, bs) ← LittleEndian.read 4 bs
      let (time, bs) ← LittleEndian.read 8 bs
      let (seq, _) ← LittleEndian.read 4 bs
      pure
        { magic := #v[m₀, m₁, m₂, m₃], packetType := ty, sessionId := UInt32.ofNat session,
          blockId := UInt32.ofNat block, symbolId := UInt32.ofNat symbol,
          timestampUs := UInt64.ofNat time, seqNum := UInt32.ofNat seq }
  | _ => none

theorem PacketType.ofIndex_index (t : PacketType) : PacketType.ofIndex t.index = some t := by
  cases t <;> rfl

theorem PacketType.index_lt (t : PacketType) : t.index < 256 ^ 4 := by
  cases t <;> decide

@[simp] theorem PacketHeader.length_serialize (h : PacketHeader) : h.serialize.length = 32 := by
  simp [serialize]

/-- **A header is read back from its serialization**, whatever follows it. -/
theorem PacketHeader.deserialize_serialize (h : PacketHeader) (bs : Bytes) :
    PacketHeader.deserialize (h.serialize ++ bs) = some h := by
  have h4 : (256 : ℕ) ^ 4 = 2 ^ 32 := by norm_num
  have h8 : (256 : ℕ) ^ 8 = 2 ^ 64 := by norm_num
  have hu32 : ∀ w : UInt32, w.toNat < 256 ^ 4 := fun w => h4 ▸ w.toNat_lt
  have hu64 : ∀ w : UInt64, w.toNat < 256 ^ 8 := fun w => h8 ▸ w.toNat_lt
  obtain ⟨m, ty, session, block, symbol, time, seq⟩ := h
  obtain ⟨⟨l⟩, hl⟩ := m
  match l, hl with
  | [m₀, m₁, m₂, m₃], hl =>
      simp only [serialize, Vector.toList_mk, List.cons_append, List.nil_append,
        List.append_assoc, deserialize, LittleEndian.read_encode_append (hu32 _),
        LittleEndian.read_encode_append (hu64 _), LittleEndian.read_encode_append ty.index_lt,
        PacketType.ofIndex_index, Option.bind_eq_bind, Option.bind_some, Option.pure_def,
        UInt32.ofNat_toNat, UInt64.ofNat_toNat]

/-! ## Control messages -/

/-- Entry in a multi-file manifest. -/
structure FileEntry where
  relativePath : String
  fileSize : ℕ
  blake3Hash : Hash
  deriving DecidableEq

/-- Messages sent on the QUIC control channel. -/
inductive ControlMessage where
  | transferRequest (sessionId : UInt32) (filename : String) (fileSize : UInt64)
      (blockSize totalBlocks : UInt32) (blake3Hash : Hash) (dataPort : UInt16)
  | transferAccept (sessionId : UInt32) (dataPort : UInt16)
  | transferReject (sessionId : UInt32) (reason : String)
  | keyExchange (sessionId : UInt32) (publicKey : Bytes)
  | transferComplete (sessionId : UInt32) (success : Bool) (bytesTransferred durationMs : ℕ)
  | blockRetransmitRequest (sessionId : UInt32) (blockIds : List ℕ)
  | multiFileManifest (sessionId : UInt32) (files : List FileEntry)
  | deltaSyncHashes (sessionId : UInt32) (fileIndex : ℕ) (blockHashes : List Hash)
  | deltaSyncPlan (sessionId : UInt32) (fileIndex : ℕ) (blocksToSend : List ℕ)
  deriving DecidableEq

end Updown
