import Updown.Transport.Receiver

set_option autoImplicit false

/-! # Sender and receiver agree on the packet format

A data packet the sender frames is read by a receiver of the same session and key as exactly the
symbol it carries (`authentic_of_isPacket`), and the "done" datagrams carry none. Framing succeeds
where the AEAD takes the key and the text (`UdpSender.framePacket_ok`).
-/

namespace Updown

/-- The receiver finds the header and the payload of a framed packet, and checks the header. -/
theorem parsePacket_frame_eq (session : UInt32) (header : PacketHeader) (payload : Bytes) :
    parsePacket session (frame header payload) =
      if header.magic ≠ MAGIC then .error "bad magic"
      else if header.sessionId ≠ session then .error "wrong session"
      else .ok (header, payload) := by
  have h2 : (LittleEndian.encode 2 header.serialize.length).length = 2 :=
    LittleEndian.length_encode 2 _
  have hlen : LittleEndian.decode ((frame header payload).take 2) = header.serialize.length := by
    rw [frame, List.take_left' h2, LittleEndian.decode_encode_of_lt]
    simp
  have htotal : (frame header payload).length = 2 + (header.serialize.length + payload.length) := by
    simp [frame]
  have hdrop : (frame header payload).drop 2 = header.serialize ++ payload := by
    rw [frame, List.drop_left' h2]
  have hread : PacketHeader.deserialize
      (((frame header payload).drop 2).take header.serialize.length) = some header := by
    rw [hdrop, List.take_left, ← List.append_nil header.serialize]
    exact header.deserialize_serialize []
  have hpayload : (frame header payload).drop (2 + header.serialize.length) = payload := by
    rw [← List.drop_drop, hdrop, List.drop_left]
  have hlt2 : ¬ (frame header payload).length < 2 := by omega
  have hlth : ¬ (frame header payload).length < 2 + header.serialize.length := by omega
  simp only [parsePacket, hlen, hread, hpayload, if_neg hlt2, if_neg hlth]

/-- A packet of the session is read back. -/
theorem parsePacket_frame {session : UInt32} {header : PacketHeader} {payload : Bytes}
    (hmagic : header.magic = MAGIC) (hsession : header.sessionId = session) :
    parsePacket session (frame header payload) = .ok (header, payload) := by
  rw [parsePacket_frame_eq, if_neg (not_not.mpr hmagic), if_neg (not_not.mpr hsession)]

/-- A packet of another session is refused. -/
theorem parsePacket_frame_of_ne {session : UInt32} {header : PacketHeader} {payload : Bytes}
    (hmagic : header.magic = MAGIC) (hsession : header.sessionId ≠ session) :
    parsePacket session (frame header payload) = .error "wrong session" := by
  rw [parsePacket_frame_eq, if_neg (not_not.mpr hmagic), if_pos hsession]

/-- The header of a symbol under sequence number `seq`. -/
def packetHeader (session seq : UInt32) (o : SymbolOut) : PacketHeader :=
  { magic := MAGIC, packetType := .data, sessionId := session,
    blockId := UInt32.ofNat o.blockId, symbolId := UInt32.ofNat o.symIdx, timestampUs := 0,
    seqNum := seq }

/-- Whoever has the session and the key reads `pkt` as symbol `o` under sequence number `seq`. -/
def ReadsAs (A : Aead) (session : UInt32) (key : Bytes) (seq : UInt32) (o : SymbolOut)
    (pkt : Bytes) : Prop :=
  ∃ payload, parsePacket session pkt = .ok (packetHeader session seq o, payload) ∧
    ∀ crypto : CryptoContext, crypto.key = key →
      crypto.decrypt A payload (packetAad session (UInt32.ofNat o.blockId)
        (UInt32.ofNat o.symIdx)) = .ok o.data

/-- What is framed is the sealed text behind its header. -/
theorem UdpSender.framePacket_eq_ok {A : Aead} {s : UdpSender} {o : SymbolOut} {pkt : Bytes}
    (h : (s.framePacket A o).2 = .ok pkt) :
    ∃ payload, (s.crypto.encrypt A o.data (packetAad s.sessionId (s.dataHeader o).blockId
      (s.dataHeader o).symbolId)).2 = .ok payload ∧ pkt = frame (s.dataHeader o) payload := by
  unfold UdpSender.framePacket at h
  cases henc : (s.crypto.encrypt A o.data (packetAad s.sessionId (s.dataHeader o).blockId
      (s.dataHeader o).symbolId)).2 with
  | error e => simp [henc, Except.map] at h
  | ok payload => exact ⟨payload, rfl, by simpa [henc, Except.map] using h.symm⟩

theorem readsAs_of_framePacket {A : Aead} (hA : A.Correct) {s : UdpSender} {o : SymbolOut}
    {pkt : Bytes} (h : (s.framePacket A o).2 = .ok pkt) :
    ReadsAs A s.sessionId s.crypto.key s.seqNum o pkt := by
  obtain ⟨payload, henc, rfl⟩ := UdpSender.framePacket_eq_ok h
  exact ⟨payload, parsePacket_frame rfl rfl,
    fun crypto hkey => CryptoContext.decrypt_encrypt hA hkey henc⟩

/-- **A packet made by the sender is authentic**, with its block id and symbol bytes. -/
theorem authentic_of_isPacket {A : Aead} (hA : A.Correct) {session : UInt32} {key : Bytes}
    {o : SymbolOut} {pkt : Bytes} (h : IsPacket A session key o pkt) {crypto : CryptoContext}
    (hkey : crypto.key = key) :
    authentic A session crypto pkt = some ((UInt32.ofNat o.blockId).toNat, o.data) := by
  obtain ⟨s, rfl, rfl, hpkt⟩ := h
  obtain ⟨payload, hparse, hdecrypt⟩ := readsAs_of_framePacket hA hpkt
  simp only [authentic, hparse, packetHeader, if_true, hdecrypt crypto hkey]

/-- Only data packets carry a symbol. -/
theorem authentic_frame_of_ne_data {A : Aead} {session : UInt32} {header : PacketHeader}
    {payload : Bytes} (hmagic : header.magic = MAGIC) (hsession : header.sessionId = session)
    (htype : header.packetType ≠ .data) (crypto : CryptoContext) :
    authentic A session crypto (frame header payload) = none := by
  simp only [authentic, parsePacket_frame hmagic hsession, if_neg htype]

/-- The "transfer done" datagrams carry no symbol. -/
theorem not_authentic_of_sendDone {A : Aead} {s : UdpSender} {time : UInt64} {pkt : Bytes}
    (h : pkt ∈ (s.sendDone time).2) (crypto : CryptoContext) :
    authentic A s.sessionId crypto pkt = none := by
  obtain ⟨-, rfl⟩ := List.mem_replicate.mp h
  exact authentic_frame_of_ne_data rfl rfl (by simp) crypto

/-! ## Framing succeeds -/

namespace UdpSender

/-- A short text is sealed and framed. -/
theorem framePacket_ok {A : Aead} (hA : A.Correct) {s : UdpSender}
    (hkey : s.crypto.key.length = KEY_LEN) {o : SymbolOut} (ho : o.data.length ≤ MAX_PLAINTEXT) :
    ∃ pkt, (s.framePacket A o).2 = .ok pkt := by
  have hseal := hA.seal_some (a := packetAad s.sessionId (s.dataHeader o).blockId
    (s.dataHeader o).symbolId) hkey (CryptoContext.nextNonce_fst_length s.crypto) ho
  obtain ⟨⟨cipher, tag⟩, hct⟩ := Option.isSome_iff_exists.mp hseal
  refine ⟨frame (s.dataHeader o) (s.crypto.nextNonce.1 ++ cipher ++ tag), ?_⟩
  simp [framePacket, CryptoContext.encrypt, hct, Except.map]

/-- Short texts are all framed. -/
theorem buildPackets_isOk {A : Aead} (hA : A.Correct) {os : List SymbolOut} :
    ∀ {s : UdpSender} {w : WireBuf}, s.crypto.key.length = KEY_LEN →
      (∀ o ∈ os, o.data.length ≤ MAX_PLAINTEXT) →
      ∃ s' w', s.buildPackets A w os = (s', .ok w') := by
  induction os with
  | nil =>
      intro s w _ _
      exact ⟨s, w, rfl⟩
  | cons o os ih =>
      intro s w hkey hos
      obtain ⟨pkt, hpkt⟩ := framePacket_ok hA hkey (hos o (by simp))
      have hframe := s.framePacket_frame A o
      rw [buildPackets]
      cases hres : s.framePacket A o with
      | mk s₁ out =>
          rw [hres] at hpkt hframe
          obtain rfl : out = .ok pkt := hpkt
          exact ih (by rw [hframe.2.1, hkey]) fun o' ho' => hos o' (by simp [ho'])

end UdpSender

end Updown
