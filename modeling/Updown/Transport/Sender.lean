import Updown.Basic.Crates

set_option autoImplicit false

/-! # The UDP sender

`UdpSender::send_blocks_interleaved` (`transport/sender.rs`): encode every block of a group,
interleave the symbols of the blocks, encrypt and frame each symbol, and lay the packets out in
one buffer with an index of `(offset, len)` slices. What goes on the wire are the slices.
-/

namespace Updown

/-- The state of the UDP sender that its packets depend on. -/
structure UdpSender where
  sessionId : UInt32
  crypto : CryptoContext
  fecEncoder : FecEncoder
  seqNum : UInt32

/-- Stats of one call of `send_blocks_interleaved`. -/
structure InterlevedSendStats where
  blocksSent : ℕ
  blockIds : List ℕ
  bytesSent : ℕ
  packetsSent : ℕ
  totalSymbols : ℕ
  encodeStats : List EncodeStats

/-- One encoded symbol on its way to the wire. -/
structure SymbolOut where
  blockId : ℕ
  symIdx : ℕ
  data : Bytes

/-! ## Encoding and interleaving -/

/-- Phase 1: FEC-encode all blocks. -/
def encodeBlocks (Q : RaptorQ) (e : FecEncoder) (blocks : List (ℕ × Bytes)) :
    List (ℕ × List Bytes) :=
  blocks.map fun b => (b.1, (e.encode Q b.2).1.map Q.serialize)

/-- The order of phase 2: for `sym_idx = 0, 1, …`, symbol `sym_idx` of every block that has
one. -/
def interleave (allEncoded : List (ℕ × List Bytes)) : List SymbolOut :=
  let maxSymbols := (allEncoded.map fun e => e.2.length).foldr max 0
  (List.range maxSymbols).flatMap fun symIdx =>
    allEncoded.filterMap fun e => e.2[symIdx]?.map fun data => ⟨e.1, symIdx, data⟩

theorem le_foldr_max {l : List ℕ} {n : ℕ} (h : n ∈ l) : n ≤ l.foldr max 0 := by
  induction l with
  | nil => cases h
  | cons a l ih =>
      rcases List.mem_cons.mp h with rfl | h
      · exact le_max_left _ _
      · exact le_trans (ih h) (le_max_right _ _)

/-- Interleaving keeps exactly the symbols of the blocks. -/
theorem mem_interleave {allEncoded : List (ℕ × List Bytes)} {s : SymbolOut} :
    s ∈ interleave allEncoded ↔
      ∃ e ∈ allEncoded, e.1 = s.blockId ∧ e.2[s.symIdx]? = some s.data := by
  simp only [interleave, List.mem_flatMap, List.mem_range, List.mem_filterMap]
  constructor
  · rintro ⟨k, -, e, he, hs⟩
    obtain ⟨data, hdata, rfl⟩ := Option.map_eq_some_iff.mp hs
    exact ⟨e, he, rfl, hdata⟩
  · rintro ⟨e, he, hid, hdata⟩
    have hlt : s.symIdx < e.2.length := (List.getElem?_eq_some_iff.mp hdata).1
    have hmax := le_foldr_max (List.mem_map_of_mem (f := fun e : ℕ × List Bytes => e.2.length) he)
    refine ⟨s.symIdx, lt_of_lt_of_le hlt hmax, e, he, ?_⟩
    rw [hdata, Option.map_some, hid]

/-! ## Framing -/

/-- `format!("{}-{}-{}", session_id, block_id, symbol_id)` as bytes. -/
def packetAad (sessionId blockId symbolId : UInt32) : Bytes :=
  (toString sessionId.toNat ++ "-" ++ toString blockId.toNat ++ "-"
    ++ toString symbolId.toNat).toUTF8.toList

/-- The header of a data packet. Data packets carry no timestamp. -/
def UdpSender.dataHeader (s : UdpSender) (o : SymbolOut) : PacketHeader :=
  { magic := MAGIC, packetType := .data, sessionId := s.sessionId,
    blockId := UInt32.ofNat o.blockId, symbolId := UInt32.ofNat o.symIdx, timestampUs := 0,
    seqNum := s.seqNum }

/-- `[header_len: u16][header][payload]`. -/
def frame (header : PacketHeader) (payload : Bytes) : Bytes :=
  LittleEndian.encode 2 header.serialize.length ++ (header.serialize ++ payload)

/-- Encrypt and frame one symbol. -/
def UdpSender.framePacket (A : Aead) (s : UdpSender) (o : SymbolOut) :
    UdpSender × Except String Bytes :=
  let header := s.dataHeader o
  let encrypted :=
    s.crypto.encrypt A o.data (packetAad s.sessionId header.blockId header.symbolId)
  ({ s with crypto := encrypted.1, seqNum := s.seqNum + 1 }, encrypted.2.map (frame header))

/-- The contiguous wire buffer and its index. -/
structure WireBuf where
  bytes : Bytes
  pktIndex : List (ℕ × ℕ)

namespace WireBuf

def empty : WireBuf := ⟨[], []⟩

/-- Append a packet and its `(offset, len)` entry. -/
def push (w : WireBuf) (pkt : Bytes) : WireBuf :=
  ⟨w.bytes ++ pkt, w.pktIndex ++ [(w.bytes.length, pkt.length)]⟩

/-- The indexed slices, in order: the datagrams. -/
def slices (w : WireBuf) : List Bytes :=
  w.pktIndex.map fun e => (w.bytes.drop e.1).take e.2

/-- Every index entry lies inside the buffer. -/
def InRange (w : WireBuf) : Prop := ∀ e ∈ w.pktIndex, e.1 + e.2 ≤ w.bytes.length

theorem inRange_empty : empty.InRange := by
  intro e he
  cases he

theorem InRange.push {w : WireBuf} (h : w.InRange) (pkt : Bytes) : (w.push pkt).InRange := by
  intro e he
  simp only [WireBuf.push, List.mem_append, List.mem_singleton] at he
  rcases he with he | rfl
  · have := h e he
    simp only [WireBuf.push, List.length_append]
    omega
  · simp [WireBuf.push]

/-- Pushing a packet adds exactly that slice. -/
theorem slices_push {w : WireBuf} (h : w.InRange) (pkt : Bytes) :
    (w.push pkt).slices = w.slices ++ [pkt] := by
  simp only [slices, WireBuf.push, List.map_append, List.map_cons, List.map_nil,
    List.drop_left, List.take_length]
  congr 1
  apply List.map_congr_left
  intro e he
  have := h e he
  rw [List.drop_append_of_le_length (by omega), List.take_append_of_le_length (by simp; omega)]

end WireBuf

/-- Phase 2: frame the symbols one after another into the wire buffer. -/
def UdpSender.buildPackets (A : Aead) : UdpSender → WireBuf → List SymbolOut →
    UdpSender × Except String WireBuf
  | s, w, [] => (s, .ok w)
  | s, w, o :: os =>
      match s.framePacket A o with
      | (s', .ok pkt) => UdpSender.buildPackets A s' (w.push pkt) os
      | (s', .error e) => (s', .error e)

/-- Send multiple blocks with cross-block interleaving: the new sender state, the datagrams put
on the wire, and the result. -/
def UdpSender.sendBlocksInterleaved (C : Crates) (s : UdpSender) (blocks : List (ℕ × Bytes)) :
    UdpSender × List Bytes × Except String InterlevedSendStats :=
  let allEncoded := encodeBlocks C.raptorq s.fecEncoder blocks
  match s.buildPackets C.aead WireBuf.empty (interleave allEncoded) with
  | (s', .ok w) =>
      (s', w.slices, .ok
        { blocksSent := blocks.length
          blockIds := blocks.map Prod.fst
          bytesSent := (w.slices.map List.length).sum
          packetsSent := w.slices.length
          totalSymbols := (allEncoded.map fun e => e.2.length).sum
          encodeStats := blocks.map fun b => (s.fecEncoder.encode C.raptorq b.2).2 })
  | (s', .error e) => (s', [], .error e)

/-- The ten copies of the "transfer done" datagram. -/
def UdpSender.sendDone (s : UdpSender) (timestampUs : UInt64) : UdpSender × List Bytes :=
  let header : PacketHeader :=
    { magic := MAGIC, packetType := .done, sessionId := s.sessionId, blockId := 0, symbolId := 0,
      timestampUs := timestampUs, seqNum := s.seqNum }
  ({ s with seqNum := s.seqNum + 1 }, List.replicate 10 (frame header []))

/-! ## What the sender puts on the wire -/

theorem exists_of_forall₂_right {α β : Type*} {R : α → β → Prop} {l : List α}
    {l' : List β} (h : List.Forall₂ R l l') {b : β} (hb : b ∈ l') : ∃ a ∈ l, R a b := by
  induction h with
  | nil => cases hb
  | cons hr _ ih =>
      rcases List.mem_cons.mp hb with rfl | hb
      · exact ⟨_, List.mem_cons_self, hr⟩
      · obtain ⟨a, ha, hr⟩ := ih hb
        exact ⟨a, List.mem_cons_of_mem _ ha, hr⟩

theorem exists_of_forall₂_left {α β : Type*} {R : α → β → Prop} {l : List α}
    {l' : List β} (h : List.Forall₂ R l l') {a : α} (ha : a ∈ l) : ∃ b ∈ l', R a b :=
  exists_of_forall₂_right h.flip ha

/-- `pkt` is symbol `o` sealed under `key` and framed for session `session`. -/
def IsPacket (A : Aead) (session : UInt32) (key : Bytes) (o : SymbolOut) (pkt : Bytes) : Prop :=
  ∃ s : UdpSender, s.sessionId = session ∧ s.crypto.key = key ∧ (s.framePacket A o).2 = .ok pkt

/-- Framing changes neither session, key nor encoder. -/
theorem UdpSender.framePacket_frame (A : Aead) (s : UdpSender) (o : SymbolOut) :
    (s.framePacket A o).1.sessionId = s.sessionId ∧
      (s.framePacket A o).1.crypto.key = s.crypto.key ∧
      (s.framePacket A o).1.fecEncoder = s.fecEncoder := by
  exact ⟨rfl, s.crypto.encrypt_key A o.data _, rfl⟩

/-- **The slices of the wire buffer are the packets of the symbols, in order.** -/
theorem UdpSender.buildPackets_ok {A : Aead} {os : List SymbolOut} :
    ∀ {s s' : UdpSender} {w w' : WireBuf}, w.InRange →
      s.buildPackets A w os = (s', .ok w') →
      ∃ pkts, w'.slices = w.slices ++ pkts ∧
        List.Forall₂ (IsPacket A s.sessionId s.crypto.key) os pkts := by
  induction os with
  | nil =>
      intro s s' w w' _ h
      obtain ⟨-, hw⟩ := Prod.mk.inj h
      obtain rfl := Except.ok.inj hw
      exact ⟨[], by simp, List.Forall₂.nil⟩
  | cons o os ih =>
      intro s s' w w' hw h
      have hframe := s.framePacket_frame A o
      rw [buildPackets] at h
      split at h
      · next s₁ pkt hpkt =>
          rw [hpkt] at hframe
          obtain ⟨hsess, hkey, -⟩ := hframe
          obtain ⟨pkts, hslices, hall⟩ := ih (hw.push pkt) h
          have hhead : IsPacket A s.sessionId s.crypto.key o pkt := ⟨s, rfl, rfl, by rw [hpkt]⟩
          refine ⟨pkt :: pkts, ?_, List.Forall₂.cons hhead ?_⟩
          · rw [hslices, WireBuf.slices_push hw, List.append_assoc, List.singleton_append]
          · rwa [← hsess, ← hkey]
      · cases h

/-- Every datagram of a call is the packet of one of the symbols. -/
theorem UdpSender.exists_symbol_of_mem {C : Crates} {s : UdpSender} {blocks : List (ℕ × Bytes)}
    {pkt : Bytes} (h : pkt ∈ (s.sendBlocksInterleaved C blocks).2.1) :
    ∃ o ∈ interleave (encodeBlocks C.raptorq s.fecEncoder blocks),
      IsPacket C.aead s.sessionId s.crypto.key o pkt := by
  unfold sendBlocksInterleaved at h
  dsimp only at h
  split at h
  · next s' w hbuild =>
      obtain ⟨pkts, hslices, hall⟩ := buildPackets_ok WireBuf.inRange_empty hbuild
      have hpkts : w.slices = pkts := hslices
      exact exists_of_forall₂_right hall (hpkts ▸ h)
  · cases h

/-- Building packets changes neither session, key nor encoder. -/
theorem UdpSender.buildPackets_frame (A : Aead) (os : List SymbolOut) :
    ∀ (s : UdpSender) (w : WireBuf),
      (s.buildPackets A w os).1.sessionId = s.sessionId ∧
        (s.buildPackets A w os).1.crypto.key = s.crypto.key ∧
        (s.buildPackets A w os).1.fecEncoder = s.fecEncoder := by
  induction os with
  | nil => intro s w; exact ⟨rfl, rfl, rfl⟩
  | cons o os ih =>
      intro s w
      have hframe := s.framePacket_frame A o
      rw [buildPackets]
      split
      · next s₁ pkt hpkt =>
          rw [hpkt] at hframe
          obtain ⟨h1, h2, h3⟩ := hframe
          obtain ⟨i1, i2, i3⟩ := ih s₁ (w.push pkt)
          exact ⟨i1.trans h1, i2.trans h2, i3.trans h3⟩
      · next s₁ e hpkt => rwa [hpkt] at hframe

end Updown
