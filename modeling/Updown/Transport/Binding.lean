import Updown.Lib.Decimal
import Updown.Transport.Rejection

set_option autoImplicit false

/-! # The associated data binds the position

Session, block and symbol of a packet are its position. The associated data writes them in decimal
(`packetAad`), and the numbers can be read from it (`aadNumbers_packetAad`), so it determines the
position. Sender and receiver write it from the same header. With an AEAD that opens a text only
under the associated data it was sealed under, a data packet whose header is moved to another
position is rejected, and leaves the receiver as it was (`position_bound`).
-/

namespace Updown

/-! ## The text determines the position -/

/-- The numbers in the associated data of a packet. -/
def aadNumbers (aad : Bytes) : List ℕ := Decimal.read '-' (Ascii.decode aad)

/-- The associated data is the ASCII text of the three numbers. -/
theorem packetAad_eq (sessionId blockId symbolId : UInt32) :
    packetAad sessionId blockId symbolId =
      Ascii.encode (Decimal.join '-' [sessionId.toNat, blockId.toNat, symbolId.toNat]) := by
  have htext : (toString sessionId.toNat ++ "-" ++ toString blockId.toNat ++ "-"
      ++ toString symbolId.toNat).toList =
        Decimal.join '-' [sessionId.toNat, blockId.toNat, symbolId.toNat] := by
    have hsep : "-".toList = ['-'] := rfl
    simp only [String.toList_append, Nat.toString_eq_repr, Nat.toList_repr, hsep, Decimal.join,
      List.map_cons, List.map_nil, List.intercalate_cons_cons, List.intercalate_singleton,
      List.append_assoc]
  have hascii : Ascii.IsAscii
      (Decimal.join '-' [sessionId.toNat, blockId.toNat, symbolId.toNat]) :=
    Decimal.isAscii_join (by decide) _
  rw [← htext] at hascii
  rw [packetAad, Ascii.toList_toUTF8 hascii, htext]

theorem aadNumbers_packetAad (sessionId blockId symbolId : UInt32) :
    aadNumbers (packetAad sessionId blockId symbolId) =
      [sessionId.toNat, blockId.toNat, symbolId.toNat] := by
  rw [aadNumbers, packetAad_eq]
  exact Decimal.read_decode_encode (by decide) (by decide) (List.cons_ne_nil _ _)

namespace PacketHeader

/-- Session, block and symbol. -/
def position (h : PacketHeader) : UInt32 × UInt32 × UInt32 := (h.sessionId, h.blockId, h.symbolId)

/-- The associated data of a packet with this header. -/
def aad (h : PacketHeader) : Bytes := packetAad h.sessionId h.blockId h.symbolId

/-- The header with another position. -/
def moveTo (h : PacketHeader) (position : UInt32 × UInt32 × UInt32) : PacketHeader :=
  { h with sessionId := position.1, blockId := position.2.1, symbolId := position.2.2 }

end PacketHeader

/-- **The associated data determines the position.** -/
theorem packetAad_inj {sessionId blockId symbolId sessionId' blockId' symbolId' : UInt32}
    (h : packetAad sessionId blockId symbolId = packetAad sessionId' blockId' symbolId') :
    sessionId = sessionId' ∧ blockId = blockId' ∧ symbolId = symbolId' := by
  have hnumbers := congrArg aadNumbers h
  rw [aadNumbers_packetAad, aadNumbers_packetAad] at hnumbers
  simpa [UInt32.toNat_inj] using hnumbers

theorem PacketHeader.aad_inj {h h' : PacketHeader} (haad : h.aad = h'.aad) :
    h.position = h'.position := by
  obtain ⟨hsession, hblock, hsymbol⟩ := packetAad_inj haad
  rw [position, position, hsession, hblock, hsymbol]

/-! ## What the AEAD promises -/

/-- The associated data of all packets. -/
def packetAads : Set Bytes := Set.range PacketHeader.aad

/-- Among the given associated data, a sealed text opens only under its own. -/
def Aead.BindsAad (A : Aead) (aads : Set Bytes) : Prop :=
  ∀ k n p c t, ∀ a ∈ aads, A.sealInPlaceSeparateTag k n a p = some (c, t) →
    ∀ a' ∈ aads, ∀ p', A.openInPlace k n a' (c ++ t) = some p' → a' = a

/-- Whoever has the key fails to decrypt under other associated data. -/
theorem CryptoContext.decrypt_of_aad_ne {A : Aead} {aads : Set Bytes} (hA : A.BindsAad aads)
    {c d : CryptoContext} (hk : d.key = c.key) {p a a' out : Bytes} (ha : a ∈ aads)
    (ha' : a' ∈ aads) (hne : a' ≠ a) (h : (c.encrypt A p a).2 = .ok out) :
    ∃ e, d.decrypt A out a' = .error e := by
  obtain ⟨cipher, tag, hs, rfl⟩ := encrypt_ok h
  have hn := nextNonce_fst_length c
  have hopen : A.openInPlace c.key c.nextNonce.1 a' (cipher ++ tag) = none := by
    cases ho : A.openInPlace c.key c.nextNonce.1 a' (cipher ++ tag) with
    | none => rfl
    | some p' => exact absurd (hA _ _ _ _ _ a ha hs a' ha' p' ho) hne
  rw [decrypt]
  split
  · exact ⟨_, rfl⟩
  · rw [List.append_assoc, List.take_left' hn, List.drop_left' hn, hk, hopen]
    exact ⟨_, rfl⟩

/-! ## An AEAD that binds -/

namespace PlainCrates

/-- The numbers of the associated data, four bytes each. -/
def positionBytes (aad : Bytes) : Bytes :=
  ((aadNumbers aad).flatMap (LittleEndian.encode 4) ++ List.replicate 12 0).take 12

/-- A tag that shows the position, and a checksum of key, nonce and text. -/
def positionTag (key nonce aad text : Bytes) : Bytes :=
  positionBytes aad ++ LittleEndian.encode 4 (checksum (key ++ nonce ++ text))

def positionAead : Aead where
  sealInPlaceSeparateTag key nonce aad text := some (text, positionTag key nonce aad text)
  openInPlace key nonce aad cipher :=
    let text := cipher.take (cipher.length - TAG_LEN)
    if cipher.drop (cipher.length - TAG_LEN) = positionTag key nonce aad text then some text
    else none

theorem positionBytes_aad (h : PacketHeader) :
    positionBytes h.aad = LittleEndian.encode 4 h.sessionId.toNat ++
      (LittleEndian.encode 4 h.blockId.toNat ++ LittleEndian.encode 4 h.symbolId.toNat) := by
  have hlen : (LittleEndian.encode 4 h.sessionId.toNat ++
      (LittleEndian.encode 4 h.blockId.toNat ++ LittleEndian.encode 4 h.symbolId.toNat)).length
        = 12 := by simp
  rw [positionBytes, PacketHeader.aad, aadNumbers_packetAad, List.flatMap_cons, List.flatMap_cons,
    List.flatMap_cons, List.flatMap_nil, List.append_nil, List.take_left' hlen]

theorem encode_inj {v w : UInt32}
    (h : LittleEndian.encode 4 v.toNat = LittleEndian.encode 4 w.toNat) : v = w := by
  have hdecode := congrArg LittleEndian.decode h
  rw [LittleEndian.decode_encode_of_lt v.toNat_lt, LittleEndian.decode_encode_of_lt w.toNat_lt]
    at hdecode
  exact UInt32.toNat_inj.mp hdecode

theorem position_of_positionBytes {h h' : PacketHeader}
    (heq : positionBytes h.aad = positionBytes h'.aad) : h.aad = h'.aad := by
  rw [positionBytes_aad, positionBytes_aad] at heq
  obtain ⟨hsession, hrest⟩ := List.append_inj heq (by simp)
  obtain ⟨hblock, hsymbol⟩ := List.append_inj hrest (by simp)
  rw [PacketHeader.aad, PacketHeader.aad, encode_inj hsession, encode_inj hblock,
    encode_inj hsymbol]

theorem positionAead_bindsAad : positionAead.BindsAad packetAads := by
  rintro k n p c t _ ⟨h, rfl⟩ hseal _ ⟨h', rfl⟩ p' hopen
  obtain ⟨rfl, rfl⟩ := Prod.mk.inj (Option.some.inj hseal)
  have htag : (positionTag k n h.aad p).length = TAG_LEN := by
    simp [positionTag, positionBytes_aad, TAG_LEN]
  have hlen : (p ++ positionTag k n h.aad p).length - TAG_LEN = p.length := by simp [htag]
  simp only [positionAead, hlen, List.take_left, List.drop_left] at hopen
  split at hopen
  · next heq =>
      have hbytes := (List.append_inj heq (by simp [positionBytes_aad])).1
      exact (position_of_positionBytes hbytes).symm
  · cases hopen

def positionCrates : Crates := { plainCrates with aead := positionAead }

end PlainCrates

/-! ## A moved packet -/

/-- **A packet moved to another position is rejected** by every receiver that has the key, and
changes nothing. -/
theorem UdpReceiver.processPacket_moveTo {C : Crates} (hA : C.aead.BindsAad packetAads)
    {crypto : CryptoContext} {plain payload : Bytes} {header : PacketHeader}
    (hmagic : header.magic = MAGIC) (htype : header.packetType = .data)
    (htime : header.timestampUs = 0)
    (hsealed : (crypto.encrypt C.aead plain header.aad).2 = .ok payload)
    {position : UInt32 × UInt32 × UInt32} (hne : position ≠ header.position)
    {r : UdpReceiver C.raptorq} (hkey : r.crypto.key = crypto.key) (now : Clock) :
    ∃ e, r.processPacket C now (frame (header.moveTo position) payload) = (r, .err e) := by
  have haad : (header.moveTo position).aad ≠ header.aad := by
    intro heq
    exact hne (PacketHeader.aad_inj heq)
  obtain ⟨e, he⟩ := CryptoContext.decrypt_of_aad_ne hA hkey ⟨header, rfl⟩
    ⟨header.moveTo position, rfl⟩ haad hsealed
  have hmagic' : (header.moveTo position).magic = MAGIC := hmagic
  have htype' : (header.moveTo position).packetType = .data := htype
  -- data packets carry no timestamp, so no delay is recorded either
  have howd : r.recordOwd now (header.moveTo position) = r := by
    simp [recordOwd, PacketHeader.moveTo, htime]
  unfold processPacket
  by_cases hsession : (header.moveTo position).sessionId = r.sessionId
  · -- a receiver of the session it is moved to reads the header, and fails to decrypt
    rw [parsePacket_frame hmagic' hsession]
    refine ⟨e, ?_⟩
    unfold PacketHeader.aad at he
    simp only [howd, htype', he]
  · exact ⟨_, by rw [parsePacket_frame_of_ne hmagic' hsession]⟩

/-- What the sender frames cannot be moved. -/
theorem UdpSender.dataHeader_moveTo {C : Crates} (hA : C.aead.BindsAad packetAads) {s : UdpSender}
    {o : SymbolOut} {payload : Bytes}
    (hsealed : (s.crypto.encrypt C.aead o.data (s.dataHeader o).aad).2 = .ok payload)
    {position : UInt32 × UInt32 × UInt32} (hne : position ≠ (s.dataHeader o).position)
    {r : UdpReceiver C.raptorq} (hkey : r.crypto.key = s.crypto.key) (now : Clock) :
    ∃ e, r.processPacket C now (frame ((s.dataHeader o).moveTo position) payload) =
      (r, .err e) := by
  have hmagic : (s.dataHeader o).magic = MAGIC := rfl
  have htype : (s.dataHeader o).packetType = .data := rfl
  have htime : (s.dataHeader o).timestampUs = 0 := rfl
  exact UdpReceiver.processPacket_moveTo hA hmagic htype htime hsealed hne hkey now

/-- No datagram of a call can be moved. -/
theorem UdpSender.datagram_moveTo {C : Crates} (hA : C.aead.BindsAad packetAads) {s : UdpSender}
    {blocks : List (ℕ × Bytes)} {pkt : Bytes}
    (h : pkt ∈ (s.sendBlocksInterleaved C blocks).2.1) :
    ∃ header payload, pkt = frame header payload ∧ ∀ position, position ≠ header.position →
      ∀ (r : UdpReceiver C.raptorq) (now : Clock), r.crypto.key = s.crypto.key →
      ∃ e, r.processPacket C now (frame (header.moveTo position) payload) = (r, .err e) := by
  obtain ⟨o, -, s', -, hkey', hpkt⟩ := exists_symbol_of_mem h
  obtain ⟨payload, hsealed, rfl⟩ := framePacket_eq_ok hpkt
  refine ⟨s'.dataHeader o, payload, rfl, ?_⟩
  intro position hne r now hkey
  exact dataHeader_moveTo hA hsealed hne (hkey.trans hkey'.symm) now

/-- **The associated data binds the position.** It determines the position. A receiver of the
session reads back the header whose associated data the sender sealed the symbol under. With an
AEAD that binds the associated data of packets, whoever has the key rejects the packet at any other
position. -/
theorem position_bound (C : Crates) :
    (∀ sessionId blockId symbolId sessionId' blockId' symbolId' : UInt32,
      packetAad sessionId blockId symbolId = packetAad sessionId' blockId' symbolId' →
      sessionId = sessionId' ∧ blockId = blockId' ∧ symbolId = symbolId') ∧
    ∀ (s : UdpSender) (o : SymbolOut) (pkt : Bytes), (s.framePacket C.aead o).2 = .ok pkt →
      ∃ payload, pkt = frame (s.dataHeader o) payload ∧
        parsePacket s.sessionId pkt = .ok (s.dataHeader o, payload) ∧
        (s.crypto.encrypt C.aead o.data (s.dataHeader o).aad).2 = .ok payload ∧
        (C.aead.BindsAad packetAads → ∀ position, position ≠ (s.dataHeader o).position →
          ∀ (r : UdpReceiver C.raptorq) (now : Clock), r.crypto.key = s.crypto.key →
          ∃ e, r.processPacket C now (frame ((s.dataHeader o).moveTo position) payload)
            = (r, .err e)) := by
  constructor
  · intro sessionId blockId symbolId sessionId' blockId' symbolId' h
    exact packetAad_inj h
  · intro s o pkt hpkt
    obtain ⟨payload, hsealed, rfl⟩ := UdpSender.framePacket_eq_ok hpkt
    have hmagic : (s.dataHeader o).magic = MAGIC := rfl
    have hsession : (s.dataHeader o).sessionId = s.sessionId := rfl
    refine ⟨payload, rfl, parsePacket_frame hmagic hsession, hsealed, ?_⟩
    intro hA position hne r now hkey
    exact UdpSender.dataHeader_moveTo hA hsealed hne hkey now

namespace PlainCrates

def sender : UdpSender :=
  { sessionId := 7, crypto := .fromKey (List.replicate KEY_LEN 0) fun _ => Vector.replicate 4 0,
    fecEncoder := .new 0, seqNum := 0 }

/-- A symbol moved to the next block. -/
theorem position_bound_next_block :
    ∃ payload e, (sender.framePacket positionAead ⟨0, 2, [5]⟩).2 =
        .ok (frame (sender.dataHeader ⟨0, 2, [5]⟩) payload) ∧
      UdpReceiver.Small.listener.processPacket positionCrates ⟨0, 0⟩
        (frame ((sender.dataHeader ⟨0, 2, [5]⟩).moveTo (7, 1, 2)) payload) =
        (UdpReceiver.Small.listener, .err e) := by
  have hbound := (position_bound positionCrates).2 sender ⟨0, 2, [5]⟩ _ rfl
  obtain ⟨payload, hpkt, -, -, hreject⟩ := hbound
  obtain ⟨e, he⟩ := hreject positionAead_bindsAad (7, 1, 2) (by decide)
    UdpReceiver.Small.listener ⟨0, 0⟩ rfl
  refine ⟨payload, e, ?_, he⟩
  rw [← hpkt]
  rfl

end PlainCrates

end Updown
