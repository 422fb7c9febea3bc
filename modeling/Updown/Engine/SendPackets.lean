import Updown.Engine.Send

set_option autoImplicit false

/-! # The datagrams of a file

`mem_sendFileInner` says what every datagram of a transfer is: one of the "done" signals, or a
packet of a block that is not skipped. `sendFileInner_ok` is the other direction: an uncompressed
transfer succeeds, and every source packet of every such block is among its datagrams.
-/

namespace Updown

/-- `pkt` carries the packet `q` of block `id`, sealed under `key` for session `session`. -/
def Carries (C : Crates) (session : UInt32) (key : Bytes) (pkt : Bytes) (id : ℕ)
    (q : C.raptorq.Packet) : Prop :=
  ∃ symIdx, IsPacket C.aead session key ⟨id, symIdx, C.raptorq.serialize q⟩ pkt

/-- A receiver of the session that has the key reads the packet back. -/
theorem Carries.authentic {C : Crates} (hC : C.Correct) {session : UInt32} {key pkt : Bytes}
    {id : ℕ} {q : C.raptorq.Packet} (h : Carries C session key pkt id q) (hid : id < 2 ^ 32)
    {crypto : CryptoContext} (hkey : crypto.key = key) :
    authentic C.aead session crypto pkt = some (id, C.raptorq.serialize q) := by
  obtain ⟨symIdx, hpkt⟩ := h
  rw [authentic_of_isPacket hC.aead hpkt hkey]
  congr 2
  exact UInt32.toNat_ofNat_of_lt' hid

/-- There are packets. -/
theorem RaptorQ.Correct.exists_packet {Q : RaptorQ} (hQ : Q.Correct) {data : Bytes}
    (hne : data ≠ []) (hdata : data.length < 2 ^ 32) : ∃ q, Q.IsPacketOf data q := by
  have hmem : ∀ q ∈ (Q.blockEncoders data SYMBOL_SIZE).flatMap Q.sourcePackets,
      Q.IsPacketOf data q := by
    intro q hq
    obtain ⟨be, hbe, hq⟩ := List.mem_flatMap.mp hq
    exact ⟨be, hbe, Or.inl hq⟩
  obtain ⟨pre, q, post, hps, -⟩ := hQ.decode_complete hne hdata hmem
    fun be hbe q hq => List.mem_flatMap.mpr ⟨be, hbe, hq⟩
  exact ⟨q, hmem q (by simp [hps])⟩

namespace UdpSender

variable {C : Crates}

/-- Whoever has the key can make a packet for any block id. -/
theorem exists_carries (hC : C.Correct) {key : Bytes} (hkey : key.length = KEY_LEN)
    (session : UInt32) (id : ℕ) {data : Bytes} {q : C.raptorq.Packet}
    (hq : C.raptorq.IsPacketOf data q) : ∃ pkt, Carries C session key pkt id q := by
  have hshort : (C.raptorq.serialize q).length ≤ MAX_PLAINTEXT :=
    (hC.raptorq.serialize_length hq).trans (by decide)
  let s : UdpSender :=
    { sessionId := session, crypto := .fromKey key fun _ => #v[0, 0, 0, 0], fecEncoder := .new 0,
      seqNum := 0 }
  obtain ⟨pkt, hpkt⟩ := framePacket_ok hC.aead (s := s) hkey
    (o := ⟨id, 0, C.raptorq.serialize q⟩) hshort
  exact ⟨pkt, 0, s, rfl, rfl, hpkt⟩

/-- The symbols of a group of blocks: the packets of each block, serialized. -/
theorem mem_symbols {e : FecEncoder} {blocks : List (ℕ × Bytes)} {o : SymbolOut}
    (h : o ∈ interleave (encodeBlocks C.raptorq e blocks)) :
    ∃ block ∈ blocks, ∃ q ∈ (e.encode C.raptorq block.2).1,
      o.blockId = block.1 ∧ o.data = C.raptorq.serialize q := by
  obtain ⟨enc, henc, hid, hdata⟩ := mem_interleave.mp h
  obtain ⟨block, hblock, rfl⟩ := List.mem_map.mp henc
  have hmem := List.mem_of_getElem? hdata
  obtain ⟨q, hq, hser⟩ := List.mem_map.mp hmem
  exact ⟨block, hblock, q, hq, hid.symm, hser.symm⟩

/-- Every packet of every block of the group is one of the symbols. -/
theorem exists_symbol {e : FecEncoder} {blocks : List (ℕ × Bytes)} {block : ℕ × Bytes}
    (hblock : block ∈ blocks) {q : C.raptorq.Packet} (hq : q ∈ (e.encode C.raptorq block.2).1) :
    ∃ symIdx, ⟨block.1, symIdx, C.raptorq.serialize q⟩
      ∈ interleave (encodeBlocks C.raptorq e blocks) := by
  have hmem : C.raptorq.serialize q ∈ (e.encode C.raptorq block.2).1.map C.raptorq.serialize :=
    List.mem_map_of_mem hq
  obtain ⟨symIdx, hi, hget⟩ := List.getElem_of_mem hmem
  refine ⟨symIdx, mem_interleave.mpr ⟨(block.1, _), List.mem_map_of_mem hblock, rfl, ?_⟩⟩
  exact List.getElem?_eq_some_iff.mpr ⟨hi, hget⟩

/-- Sending a group changes neither session, key nor encoder. -/
theorem sendBlocksInterleaved_frame (s : UdpSender) (blocks : List (ℕ × Bytes)) :
    (s.sendBlocksInterleaved C blocks).1.sessionId = s.sessionId ∧
      (s.sendBlocksInterleaved C blocks).1.crypto.key = s.crypto.key ∧
      (s.sendBlocksInterleaved C blocks).1.fecEncoder = s.fecEncoder := by
  have hframe := buildPackets_frame C.aead
    (interleave (encodeBlocks C.raptorq s.fecEncoder blocks)) s WireBuf.empty
  unfold sendBlocksInterleaved
  dsimp only
  split
  · next s' w h => rwa [h] at hframe
  · next s' e h => rwa [h] at hframe

/-- Every datagram of a group carries a packet of one of its blocks. -/
theorem mem_sendBlocksInterleaved {s : UdpSender} {blocks : List (ℕ × Bytes)} {pkt : Bytes}
    (h : pkt ∈ (s.sendBlocksInterleaved C blocks).2.1) :
    ∃ block ∈ blocks, ∃ q ∈ (s.fecEncoder.encode C.raptorq block.2).1,
      Carries C s.sessionId s.crypto.key pkt block.1 q := by
  obtain ⟨o, ho, hrel⟩ := exists_symbol_of_mem h
  obtain ⟨block, hblock, q, hq, hid, hdata⟩ := mem_symbols ho
  refine ⟨block, hblock, q, hq, o.symIdx, ?_⟩
  rw [← hid, ← hdata]
  exact hrel

/-- **A group is sent, and every packet of its blocks with it.** -/
theorem sendBlocksInterleaved_ok (hC : C.Correct) {s : UdpSender}
    (hkey : s.crypto.key.length = KEY_LEN) (henc : s.fecEncoder.symbolSize = SYMBOL_SIZE)
    (blocks : List (ℕ × Bytes)) :
    (∃ stats, (s.sendBlocksInterleaved C blocks).2.2 = .ok stats) ∧
    ∀ block ∈ blocks, ∀ q ∈ (s.fecEncoder.encode C.raptorq block.2).1,
      ∃ pkt ∈ (s.sendBlocksInterleaved C blocks).2.1,
        Carries C s.sessionId s.crypto.key pkt block.1 q := by
  have hshort : ∀ o ∈ interleave (encodeBlocks C.raptorq s.fecEncoder blocks),
      o.data.length ≤ MAX_PLAINTEXT := by
    intro o ho
    obtain ⟨block, -, q, hq, -, hdata⟩ := mem_symbols ho
    have hlen := hC.raptorq.serialize_length (FecEncoder.isPacketOf_encode henc hq)
    rw [hdata]
    exact hlen.trans (by decide)
  obtain ⟨s', w, hbuild⟩ := buildPackets_isOk hC.aead (w := WireBuf.empty) hkey hshort
  obtain ⟨pkts, hslices, hall⟩ := buildPackets_ok WireBuf.inRange_empty hbuild
  have hpkts : w.slices = pkts := hslices
  unfold sendBlocksInterleaved
  dsimp only
  rw [hbuild]
  refine ⟨⟨_, rfl⟩, fun block hblock q hq => ?_⟩
  obtain ⟨symIdx, hsym⟩ := exists_symbol (e := s.fecEncoder) hblock hq
  obtain ⟨pkt, hpkt, hrel⟩ := exists_of_forall₂_left hall hsym
  refine ⟨pkt, ?_, symIdx, hrel⟩
  show pkt ∈ w.slices
  rwa [hpkts]

end UdpSender

namespace SendEngine

variable {C : Crates} {e : SendEngine} {S : Bytes} {skip : List ℕ}

/-! ## Sending the groups -/

/-- Sending groups changes neither session, key nor encoder. -/
theorem sendGroups_frame (groups : List (List (ℕ × Bytes))) :
    ∀ (s : UdpSender) (bytes packets : ℕ),
      (sendGroups C s groups bytes packets).1.sessionId = s.sessionId ∧
        (sendGroups C s groups bytes packets).1.crypto.key = s.crypto.key ∧
        (sendGroups C s groups bytes packets).1.fecEncoder = s.fecEncoder := by
  induction groups with
  | nil =>
      intro s bytes packets
      exact ⟨rfl, rfl, rfl⟩
  | cons group groups ih =>
      intro s bytes packets
      have hframe := s.sendBlocksInterleaved_frame (C := C) group
      rw [sendGroups]
      split
      · next s' pkts e h => rwa [h] at hframe
      · next s' pkts stats h =>
          rw [h] at hframe
          obtain ⟨h1, h2, h3⟩ := ih s' (bytes + stats.bytesSent) (packets + stats.packetsSent)
          exact ⟨h1.trans hframe.1, h2.trans hframe.2.1, h3.trans hframe.2.2⟩

/-- Every datagram of the groups carries a packet of one of their blocks. -/
theorem mem_sendGroups {groups : List (List (ℕ × Bytes))} {pkt : Bytes} :
    ∀ {s : UdpSender} {bytes packets : ℕ},
      pkt ∈ (sendGroups C s groups bytes packets).2.1 →
      ∃ block ∈ groups.flatten, ∃ q ∈ (s.fecEncoder.encode C.raptorq block.2).1,
        Carries C s.sessionId s.crypto.key pkt block.1 q := by
  induction groups with
  | nil =>
      intro s bytes packets h
      cases h
  | cons group groups ih =>
      intro s bytes packets h
      have hframe := s.sendBlocksInterleaved_frame (C := C) group
      have hhead : ∀ {s' pkts out}, s.sendBlocksInterleaved C group = (s', pkts, out) →
          pkt ∈ pkts → ∃ block ∈ (group :: groups).flatten,
            ∃ q ∈ (s.fecEncoder.encode C.raptorq block.2).1,
              Carries C s.sessionId s.crypto.key pkt block.1 q := by
        intro s' pkts out hres hpkt
        obtain ⟨block, hblock, q, hq, hcarries⟩ :=
          UdpSender.mem_sendBlocksInterleaved (s := s) (by rw [hres]; exact hpkt)
        exact ⟨block, by simp [hblock], q, hq, hcarries⟩
      rw [sendGroups] at h
      split at h
      · next s' pkts e hres => exact hhead hres h
      · next s' pkts stats hres =>
          rw [hres] at hframe
          rcases List.mem_append.mp h with h | h
          · exact hhead hres h
          · obtain ⟨block, hblock, q, hq, hcarries⟩ := ih h
            rw [hframe.2.2] at hq
            rw [hframe.1, hframe.2.1] at hcarries
            exact ⟨block, by simp only [List.flatten_cons, List.mem_append, hblock, or_true], q, hq,
              hcarries⟩

/-- **All groups are sent, and every packet of every block with them.** -/
theorem sendGroups_ok (hC : C.Correct) (groups : List (List (ℕ × Bytes))) :
    ∀ (s : UdpSender) (bytes packets : ℕ), s.crypto.key.length = KEY_LEN →
      s.fecEncoder.symbolSize = SYMBOL_SIZE →
      (∃ sums, (sendGroups C s groups bytes packets).2.2 = .ok sums) ∧
      ∀ block ∈ groups.flatten, ∀ q ∈ (s.fecEncoder.encode C.raptorq block.2).1,
        ∃ pkt ∈ (sendGroups C s groups bytes packets).2.1,
          Carries C s.sessionId s.crypto.key pkt block.1 q := by
  induction groups with
  | nil =>
      intro s bytes packets _ _
      exact ⟨⟨_, rfl⟩, by simp⟩
  | cons group groups ih =>
      intro s bytes packets hkey henc
      have hframe := s.sendBlocksInterleaved_frame (C := C) group
      obtain ⟨⟨stats, hstats⟩, hpkts⟩ := UdpSender.sendBlocksInterleaved_ok hC hkey henc group
      cases hres : s.sendBlocksInterleaved C group with
      | mk s' out =>
          obtain ⟨pkts, result⟩ := out
          rw [hres] at hstats hpkts hframe
          obtain rfl : result = .ok stats := hstats
          obtain ⟨hsess, hk, he⟩ := hframe
          have hkey' : s'.crypto.key.length = KEY_LEN := by rw [hk, hkey]
          obtain ⟨hok, hrest⟩ := ih s' (bytes + stats.bytesSent)
            (packets + stats.packetsSent) hkey' (by rw [he, henc])
          rw [sendGroups, hres]
          refine ⟨hok, fun block hblock q hq => ?_⟩
          rw [List.flatten_cons, List.mem_append] at hblock
          rcases hblock with hblock | hblock
          · obtain ⟨pkt, hpkt, hcarries⟩ := hpkts block hblock q hq
            exact ⟨pkt, List.mem_append_left _ hpkt, hcarries⟩
          · obtain ⟨pkt, hpkt, hcarries⟩ := hrest block hblock q (by rwa [he])
            rw [hsess, hk] at hcarries
            exact ⟨pkt, List.mem_append_right _ hpkt, hcarries⟩

/-! ## Sending a file -/

/-- A datagram of the groups that authenticates carries a packet of a block the reader has read. -/
theorem mem_sendGroups_reader (hC : C.Correct) {file : SourceFile} {sharedKey : Bytes}
    {sessionId : UInt32} {rng : ℕ → Vector UInt8 4} {T : ℕ} (hb : 0 < e.blockSize)
    (hT : T ≤ Blocks.count file.bytes.length e.blockSize) (hTlt : T < 2 ^ 32) {pkt : Bytes}
    (h : pkt ∈ (sendGroups C (e.initialSender sharedKey sessionId rng)
      (reader C e file.bytes skip T).1 0 0).2.1)
    {crypto : CryptoContext} (hkey : crypto.key = sharedKey) {id : ℕ} {plain : Bytes}
    (hopen : authentic C.aead sessionId crypto pkt = some (id, plain)) :
    ∃ data, id < T ∧ id ∉ skip ∧
      e.blockData C (Blocks.block e.blockSize file.bytes id) = .ok data ∧
      C.raptorq.IsPacketOf data (C.raptorq.deserialize plain) := by
  obtain ⟨block, hblock, q, hq, hcarries⟩ := mem_sendGroups h
  obtain ⟨hid, hskip, hdata⟩ := reader_sound hb file.length_lt hT hblock
  have hopens := hcarries.authentic hC (by omega) hkey
  have hsame := Option.some.inj (hopen.symm.trans hopens)
  obtain ⟨rfl, rfl⟩ := Prod.mk.inj hsame
  refine ⟨block.2, hid, hskip, hdata, ?_⟩
  rw [hC.raptorq.deserialize_serialize]
  exact FecEncoder.isPacketOf_encode rfl hq

/-- **What the datagrams of a transfer are**: "done" signals, which open to nothing, and packets
of the blocks that are not skipped. -/
theorem mem_sendFileInner (hC : C.Correct) {file : SourceFile} {sharedKey : Bytes}
    {sessionId : UInt32} {rng : ℕ → Vector UInt8 4} {doneAt : UInt64} {pkt : Bytes}
    (h : pkt ∈ (e.sendFileInner C file sharedKey sessionId skip rng doneAt).1)
    {crypto : CryptoContext} (hkey : crypto.key = sharedKey) {id : ℕ} {plain : Bytes}
    (hopen : authentic C.aead sessionId crypto pkt = some (id, plain)) :
    ∃ T data, countBlocks file.bytes.length e.blockSize = .ok T ∧ id < T ∧ id ∉ skip ∧
      e.blockData C (Blocks.block e.blockSize file.bytes id) = .ok data ∧
      C.raptorq.IsPacketOf data (C.raptorq.deserialize plain) := by
  unfold sendFileInner at h
  split at h
  · cases h
  · next T hT =>
      obtain ⟨hb, hsum, hTeq⟩ := countBlocks_ok hT
      have hTlt : T < 2 ^ 32 := hTeq ▸ Nat.mod_lt _ (by norm_num)
      split at h
      · cases h
      · have hdone : ∀ s : UdpSender, s.sessionId = sessionId →
            pkt ∉ (s.sendDone doneAt).2 := by
          rintro s rfl hmem
          rw [not_authentic_of_sendDone hmem] at hopen
          cases hopen
        -- whatever the groups and the reader return, the datagram is one of the groups
        have hsent : pkt ∈ (sendGroups C (e.initialSender sharedKey sessionId rng)
            (reader C e file.bytes skip T).1 0 0).2.1 := by
          dsimp only at h
          split at h
          · exact h
          · exact h
          · exact h
          · exact h
          · rcases List.mem_append.mp h with h | h
            · exact h
            · exact absurd h (hdone _ (sendGroups_frame _ _ 0 0).1)
        obtain ⟨data, hid, hskip, hdata, hpacket⟩ :=
          mem_sendGroups_reader hC hb (hTeq ▸ Nat.mod_le _ _) hTlt hsent hkey hopen
        exact ⟨T, data, hT, hid, hskip, hdata, hpacket⟩

/-- **A transfer of blocks that are sent as they are succeeds, and every source packet of every
block that is not skipped is among its datagrams.** -/
theorem sendFileInner_ok (hC : C.Correct) {file : SourceFile} {sharedKey : Bytes}
    (hkey : sharedKey.length = KEY_LEN) (hb : 0 < e.blockSize) (hsize : e.blockSize ≤ ISIZE_MAX)
    (hsends : e.SendsRaw C file.bytes) (hdepth : 0 < e.interleaveDepth)
    (hroom : Blocks.count file.bytes.length e.blockSize + e.interleaveDepth < 2 ^ 32)
    (hskip : skip.dedup.length ≤ Blocks.count file.bytes.length e.blockSize)
    (sessionId : UInt32) (rng : ℕ → Vector UInt8 4) (doneAt : UInt64) :
    (∃ result, (e.sendFileInner C file sharedKey sessionId skip rng doneAt).2 = .ok result) ∧
    ∀ id < Blocks.count file.bytes.length e.blockSize, id ∉ skip →
      ∀ be ∈ C.raptorq.blockEncoders (Blocks.block e.blockSize file.bytes id) SYMBOL_SIZE,
      ∀ q ∈ C.raptorq.sourcePackets be,
        ∃ pkt ∈ (e.sendFileInner C file sharedKey sessionId skip rng doneAt).1,
          Carries C sessionId sharedKey pkt id q := by
  have hlen := file.length_lt
  have hmax : ISIZE_MAX < 2 ^ 63 := by decide
  have hcount := countBlocks_of_lt hb (show file.bytes.length + e.blockSize < 2 ^ 64 by omega)
    (show Blocks.count file.bytes.length e.blockSize < 2 ^ 32 by omega)
  have hread := reader_isOk (C := C) hb hsize hlen skip hsends le_rfl hdepth hroom
  have hstart : (e.initialSender sharedKey sessionId rng).crypto.key.length = KEY_LEN := hkey
  obtain ⟨⟨sums, hsums⟩, hpkts⟩ := sendGroups_ok hC
    (reader C e file.bytes skip (Blocks.count file.bytes.length e.blockSize)).1 _ 0 0 hstart rfl
  unfold sendFileInner
  rw [hcount]
  dsimp only
  rw [if_neg (by omega), hsums, hread]
  refine ⟨⟨_, rfl⟩, fun id hid hskip' be hbe q hq => ?_⟩
  obtain ⟨data, hmem, hdata⟩ := reader_complete hb hlen le_rfl hread hid hskip'
  obtain rfl := Except.ok.inj ((hsends id hid).symm.trans hdata)
  obtain ⟨pkt, hpkt, hcarries⟩ :=
    hpkts _ hmem q (FecEncoder.mem_encode_of_source rfl hbe hq)
  exact ⟨pkt, List.mem_append_left _ hpkt, hcarries⟩

end SendEngine

end Updown
