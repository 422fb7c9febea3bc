import Updown.Transport.Control
import Updown.Transport.Rejection

set_option autoImplicit false

/-! # What the two channels accept

Round trips say that what is sent is read. Here is the converse, for every input that may come from
the network: `UdpReceiver.processPacket_accepts_iff` gives the datagrams that `process_packet` does
not reject, and `Control.recvMsgs_iff` the byte streams from which `recv_msg` takes messages,
however they are cut into chunks. Both formats leave room: bytes behind a header and behind a
message are skipped, and neither timestamp nor sequence number of a packet is authenticated.
-/

namespace Updown

/-! ## Datagrams -/

theorem PacketType.index_ofIndex {i : ℕ} {t : PacketType} (h : PacketType.ofIndex i = some t) :
    t.index = i := by
  unfold ofIndex at h
  split at h <;> cases h <;> rfl

namespace PacketHeader

/-- **A header is read exactly from the inputs that begin with its serialization.** -/
theorem deserialize_eq_some {bs : Bytes} {h : PacketHeader} :
    deserialize bs = some h ↔ h.serialize <+: bs := by
  constructor
  · intro hread
    have h4 : (256 : ℕ) ^ 4 = 2 ^ 32 := by norm_num
    have h8 : (256 : ℕ) ^ 8 = 2 ^ 64 := by norm_num
    unfold deserialize at hread
    split at hread
    · next m₀ m₁ m₂ m₃ bs =>
        simp only [Option.bind_eq_bind, Option.bind_eq_some_iff, Prod.exists, Option.pure_def,
          Option.some.injEq] at hread
        obtain ⟨_, _, hty, ty, hindex, _, _, hsession, _, _, hblock, _, _, hsymbol, _, _, htime,
          _, rest, hseq, rfl⟩ := hread
        obtain ⟨-, rfl⟩ := LittleEndian.read_eq_some hty
        obtain ⟨sessionLt, rfl⟩ := LittleEndian.read_eq_some hsession
        obtain ⟨blockLt, rfl⟩ := LittleEndian.read_eq_some hblock
        obtain ⟨symbolLt, rfl⟩ := LittleEndian.read_eq_some hsymbol
        obtain ⟨timeLt, rfl⟩ := LittleEndian.read_eq_some htime
        obtain ⟨seqLt, rfl⟩ := LittleEndian.read_eq_some hseq
        refine ⟨rest, ?_⟩
        simp only [serialize, PacketType.index_ofIndex hindex,
          UInt32.toNat_ofNat_of_lt' (h4 ▸ sessionLt), UInt32.toNat_ofNat_of_lt' (h4 ▸ blockLt),
          UInt32.toNat_ofNat_of_lt' (h4 ▸ symbolLt), UInt64.toNat_ofNat_of_lt' (h8 ▸ timeLt),
          UInt32.toNat_ofNat_of_lt' (h4 ▸ seqLt), List.append_assoc]
        rfl
    · cases hread
  · rintro ⟨rest, rfl⟩
    exact h.deserialize_serialize rest

end PacketHeader

/-- A datagram with header `header`, followed by `extra` within the declared header length. -/
def datagram (header : PacketHeader) (extra payload : Bytes) : Bytes :=
  LittleEndian.encode 2 (header.serialize ++ extra).length ++ (header.serialize ++ extra) ++ payload

/-- A datagram is parsed into its header and its payload, and the header is checked. -/
theorem parsePacket_datagram {session : UInt32} {header : PacketHeader} {extra payload : Bytes}
    (hlt : 32 + extra.length < 2 ^ 16) :
    parsePacket session (datagram header extra payload) =
      if header.magic ≠ MAGIC then .error "bad magic"
      else if header.sessionId ≠ session then .error "wrong session"
      else .ok (header, payload) := by
  have htwo : (LittleEndian.encode 2 (header.serialize ++ extra).length).length = 2 :=
    LittleEndian.length_encode 2 _
  have hdecode : LittleEndian.decode ((datagram header extra payload).take 2) =
      (header.serialize ++ extra).length := by
    rw [datagram, List.append_assoc, List.take_left' htwo, LittleEndian.decode_encode_of_lt]
    rw [List.length_append, PacketHeader.length_serialize]
    exact lt_of_lt_of_eq hlt (by norm_num)
  have hdrop : (datagram header extra payload).drop 2 = header.serialize ++ extra ++ payload := by
    rw [datagram, List.append_assoc, List.drop_left' htwo]
  have hlength : (datagram header extra payload).length =
      2 + (header.serialize ++ extra).length + payload.length := by
    rw [datagram, List.length_append, List.length_append, htwo]
  have hread : PacketHeader.deserialize (((datagram header extra payload).drop 2).take
      (header.serialize ++ extra).length) = some header := by
    rw [hdrop, List.take_left]
    exact header.deserialize_serialize extra
  have hpayload : (datagram header extra payload).drop (2 + (header.serialize ++ extra).length) =
      payload := by
    rw [← List.drop_drop, hdrop, List.drop_left]
  have hshort : ¬ (datagram header extra payload).length < 2 := by omega
  have hheader : ¬ (datagram header extra payload).length <
      2 + (header.serialize ++ extra).length := by omega
  simp only [parsePacket, hdecode, hread, hpayload, if_neg hshort, if_neg hheader]

/-- **Exactly the datagrams of the session are parsed.** -/
theorem parsePacket_eq_ok {session : UInt32} {data : Bytes} {header : PacketHeader}
    {payload : Bytes} :
    parsePacket session data = .ok (header, payload) ↔
      ∃ extra, 32 + extra.length < 2 ^ 16 ∧ data = datagram header extra payload ∧
        header.magic = MAGIC ∧ header.sessionId = session := by
  constructor
  · intro hparse
    unfold parsePacket at hparse
    split at hparse
    · cases hparse
    next hshort =>
    dsimp only at hparse
    split at hparse
    · cases hparse
    next hheader =>
    split at hparse
    · cases hparse
    next read hread =>
    split at hparse
    · cases hparse
    next hmagic =>
    split at hparse
    · cases hparse
    next hsession =>
    obtain ⟨rfl, rfl⟩ := Prod.mk.inj (Except.ok.inj hparse)
    obtain ⟨extra, hextra⟩ := PacketHeader.deserialize_eq_some.mp hread
    have htwo : (data.take 2).length = 2 := by
      rw [List.length_take]
      omega
    -- the length that is read is that of the header and what is behind it
    have hlength : (read.serialize ++ extra).length = LittleEndian.decode (data.take 2) := by
      rw [hextra, List.length_take, List.length_drop]
      omega
    have hlt := LittleEndian.decode_lt (data.take 2)
    rw [htwo, ← hlength, List.length_append, PacketHeader.length_serialize] at hlt
    refine ⟨extra, lt_of_lt_of_eq hlt (by norm_num), ?_, not_not.mp hmagic, not_not.mp hsession⟩
    have hprefix : LittleEndian.encode 2 (read.serialize ++ extra).length = data.take 2 := by
      have hencode := LittleEndian.encode_decode (data.take 2)
      rw [htwo] at hencode
      rw [hlength, hencode]
    rw [datagram, hprefix, hextra, List.append_assoc, ← List.drop_drop, List.take_append_drop,
      List.take_append_drop]
  · rintro ⟨extra, hlt, rfl, hmagic, hsession⟩
    rw [parsePacket_datagram hlt, if_neg (not_not.mpr hmagic), if_neg (not_not.mpr hsession)]

namespace CryptoContext

/-- What decrypts: a nonce, and behind it what the AEAD opens under it. -/
theorem decrypt_eq_ok {A : Aead} {c : CryptoContext} {payload aad plain : Bytes} :
    c.decrypt A payload aad = .ok plain ↔
      ∃ nonce text, payload = nonce ++ text ∧ nonce.length = NONCE_LEN ∧ TAG_LEN ≤ text.length ∧
        A.openInPlace c.key nonce aad text = some plain := by
  constructor
  · intro hdecrypt
    unfold decrypt at hdecrypt
    split at hdecrypt
    · cases hdecrypt
    next hlength =>
    split at hdecrypt
    · next plaintext hopen =>
        obtain rfl := Except.ok.inj hdecrypt
        refine ⟨_, _, (List.take_append_drop NONCE_LEN payload).symm, ?_, ?_, hopen⟩
        · rw [List.length_take]
          omega
        · rw [List.length_drop]
          omega
    · cases hdecrypt
  · rintro ⟨nonce, text, rfl, hnonce, htag, hopen⟩
    have hnot : ¬ (nonce ++ text).length < NONCE_LEN + TAG_LEN := by
      rw [List.length_append]
      omega
    rw [decrypt, if_neg hnot, List.take_left' hnonce, List.drop_left' hnonce, hopen]

end CryptoContext

/-- **Exactly these datagrams are not rejected**: a header length below 2^16, a header with the
magic bytes and the session id, any bytes up to the declared length, any payload, and if the header
says data, the payload is a nonce and a text of at least a tag that the AEAD opens under the nonce
and the position that the header names. -/
theorem UdpReceiver.processPacket_accepts_iff {C : Crates} {r : UdpReceiver C.raptorq} {now : Clock}
    {data : Bytes} :
    (∀ e, (r.processPacket C now data).2 ≠ .err e) ↔
      ∃ (header : PacketHeader) (extra payload : Bytes),
        data = datagram header extra payload ∧ 32 + extra.length < 2 ^ 16 ∧
        header.magic = MAGIC ∧ header.sessionId = r.sessionId ∧
        (header.packetType = .data → ∃ nonce text plain,
          payload = nonce ++ text ∧ nonce.length = NONCE_LEN ∧ TAG_LEN ≤ text.length ∧
          C.aead.openInPlace r.crypto.key nonce
            (packetAad header.sessionId header.blockId header.symbolId) text = some plain) := by
  constructor
  · intro haccepted
    unfold processPacket at haccepted
    split at haccepted
    · exact absurd rfl (haccepted _)
    next header payload hparse =>
    obtain ⟨extra, hlt, hdata, hmagic, hsession⟩ := parsePacket_eq_ok.mp hparse
    refine ⟨header, extra, payload, hdata, hlt, hmagic, hsession, fun htype => ?_⟩
    have hcrypto : (r.recordOwd now header).crypto = r.crypto := by
      obtain ⟨rateCalc, hr⟩ := r.recordOwd_eq now header
      rw [hr]
    simp only [htype, hcrypto] at haccepted
    split at haccepted
    · exact absurd rfl (haccepted _)
    next plain hdecrypt =>
    obtain ⟨nonce, text, hpayload, hnonce, htag, hopen⟩ := CryptoContext.decrypt_eq_ok.mp hdecrypt
    exact ⟨nonce, text, plain, hpayload, hnonce, htag, hopen⟩
  · rintro ⟨header, extra, payload, rfl, hlt, hmagic, hsession, hopens⟩ e hrejected
    have hparse : parsePacket r.sessionId (datagram header extra payload) = .ok (header, payload) :=
      parsePacket_eq_ok.mpr ⟨extra, hlt, rfl, hmagic, hsession⟩
    obtain ⟨rateCalc, hr⟩ := r.recordOwd_eq now header
    unfold processPacket at hrejected
    simp only [hparse] at hrejected
    cases htype : header.packetType with
    | data =>
        obtain ⟨nonce, text, plain, rfl, hopen⟩ := hopens htype
        have hdecrypt := CryptoContext.decrypt_eq_ok.mpr ⟨nonce, text, rfl, hopen⟩
        simp only [htype, hr, hdecrypt] at hrejected
        exact feedBlock_ne_err _ _ e hrejected
    | done | blockAck | rateFeedback =>
        simp only [htype] at hrejected
        cases hrejected

/-! ## Control messages -/

namespace Control

variable {B : Bincode.Format ControlMessage}

/-- `body` behind its length. -/
def packed (body : Bytes) : Bytes := lenPrefix body ++ body

/-- `recv_msg` takes `msg` from `body`: bytes behind the message do not matter. -/
def Carries (B : Bincode.Format ControlMessage) (msg : ControlMessage) (body : Bytes) : Prop :=
  body.length ≤ MAX_CONTROL_MESSAGE ∧ B.Valid msg ∧ B.put msg <+: body

theorem recvMsg_of_carries {chunks : List Bytes} {msg : ControlMessage} {body back : Bytes}
    (hcarries : Carries B msg body) (h : chunks.flatten = packed body ++ back) :
    ∃ rest, recvMsg B chunks = .ok (msg, rest) ∧ rest.flatten = back := by
  obtain ⟨hle, hvalid⟩ := hcarries
  rw [packed, List.append_assoc] at h
  obtain ⟨chunks', hlen, hchunks'⟩ := readExact_append h
  obtain ⟨rest, hbody, hrest⟩ := readExact_append hchunks'
  refine ⟨rest, ?_, hrest⟩
  have hfour : (lenPrefix body).length = 4 := LittleEndian.length_encode 4 _
  have hmod : body.length % 2 ^ 32 = body.length :=
    Nat.mod_eq_of_lt (lt_of_le_of_lt hle (by decide))
  have hdecode : decode B body = .ok msg := by
    rw [decode, B.read_eq_some.mpr hvalid]
    rfl
  have hrecv : recvBody B chunks' body.length = .ok (msg, rest) := by
    rw [recvBody, hbody]
    change (decode B body).bind _ = _
    rw [hdecode]
    rfl
  calc recvMsg B chunks
      = if MAX_CONTROL_MESSAGE < LittleEndian.decode (lenPrefix body) then
          .error (.tooLarge (LittleEndian.decode (lenPrefix body)))
        else recvBody B chunks' (LittleEndian.decode (lenPrefix body)) := by
        rw [recvMsg, ← hfour, hlen]
        rfl
    _ = .ok (msg, rest) := by rw [decode_lenPrefix, hmod, if_neg (not_lt.mpr hle), hrecv]

theorem carries_of_recvMsg {chunks rest : List Bytes} {msg : ControlMessage}
    (h : recvMsg B chunks = .ok (msg, rest)) :
    ∃ body, Carries B msg body ∧ chunks.flatten = packed body ++ rest.flatten := by
  obtain ⟨⟨lenBuf, chunks'⟩, hlen, h⟩ := bind_eq_ok h
  obtain ⟨hfour, hflatten⟩ := Chunks.readExact_eq_some (elim_eq_ok hlen)
  dsimp only at h
  split at h
  · cases h
  next hsmall =>
  obtain ⟨body, hlength, hbody, hread⟩ := recvBody_eq_ok h
  have hprefix : lenPrefix body = lenBuf := by
    have hencode := LittleEndian.encode_decode lenBuf
    rw [hfour] at hencode
    rw [lenPrefix, hlength, Nat.mod_eq_of_lt (lt_of_le_of_lt (not_lt.mp hsmall) (by decide)),
      hencode]
  refine ⟨body, ⟨by omega, B.read_eq_some.mp hread⟩, ?_⟩
  rw [packed, hprefix, List.append_assoc, ← hbody, hflatten]

/-- **Exactly these streams are messages**, in whatever chunks they come: calls of `recv_msg` return
`msgs` and leave `back` if and only if the stream is, for each message, a length of at most 10 MiB
and that many bytes that begin with the message, and then `back`. -/
theorem recvMsgs_iff {chunks : List Bytes} {msgs : List ControlMessage} {back : Bytes} :
    (∃ rest, recvMsgs B msgs.length chunks = .ok (msgs, rest) ∧ rest.flatten = back) ↔
      ∃ bodies, List.Forall₂ (Carries B) msgs bodies ∧
        chunks.flatten = bodies.flatMap packed ++ back := by
  induction msgs generalizing chunks with
  | nil =>
      constructor
      · rintro ⟨rest, hrecv, rfl⟩
        obtain ⟨-, rfl⟩ := Prod.mk.inj (Except.ok.inj hrecv)
        exact ⟨[], .nil, rfl⟩
      · rintro ⟨bodies, hcarries, hflatten⟩
        cases hcarries with
        | nil => exact ⟨chunks, rfl, hflatten⟩
  | cons msg msgs ih =>
      constructor
      · rintro ⟨rest, hrecv, rfl⟩
        obtain ⟨⟨read, chunks'⟩, hmsg, hrecv⟩ := bind_eq_ok hrecv
        obtain ⟨⟨reads, rest'⟩, hmsgs, hrecv⟩ := bind_eq_ok hrecv
        obtain ⟨heq, rfl⟩ := Prod.mk.inj (Except.ok.inj hrecv)
        obtain ⟨rfl, rfl⟩ := List.cons.inj heq
        obtain ⟨body, hbody, hflatten⟩ := carries_of_recvMsg hmsg
        obtain ⟨bodies, hbodies, hrest⟩ := ih.mp ⟨rest', hmsgs, rfl⟩
        refine ⟨body :: bodies, .cons hbody hbodies, ?_⟩
        rw [hflatten, hrest, List.flatMap_cons, List.append_assoc]
      · rintro ⟨bodies, hcarries, hflatten⟩
        cases hcarries with
        | cons hbody hbodies =>
            rw [List.flatMap_cons, List.append_assoc] at hflatten
            obtain ⟨chunks', hmsg, hchunks'⟩ := recvMsg_of_carries hbody hflatten
            obtain ⟨rest, hmsgs, hrest⟩ := ih.mpr ⟨_, hbodies, hchunks'⟩
            refine ⟨rest, ?_, hrest⟩
            rw [List.length_cons, recvMsgs, hmsg]
            change (recvMsgs B msgs.length chunks').bind _ = _
            rw [hmsgs]
            rfl

end Control

end Updown
