import Updown.Transport.Framing
import Updown.Basic.PlainCrates

set_option autoImplicit false

/-! # Rejected datagrams

What a datagram that `process_packet` (`transport/receiver.rs`) rejects leaves behind. A datagram
that is too short, not a header or not of the session is rejected before anything is recorded. The
delay sample of a data packet is recorded before the packet is decrypted, so a forged packet with a
usable timestamp leaves its sample in the history of the rate calculator (`rejected_unchanged_iff`).
-/

namespace Updown

theorem ReceiverRateCalculator.recordOwd_ne {R : Type} (c : ReceiverRateCalculator R)
    (timestampUs : ℕ) (owdUs : R) : c.recordOwd timestampUs owdUs ≠ c := by
  intro h
  have hlen : (c.recordOwd timestampUs owdUs).owdHistory.length = c.owdHistory.length := by
    rw [h]
  simp only [recordOwd] at hlen
  -- the history grows by one, or loses half of its limit
  split at hlen
  · next hlong =>
      rw [List.length_append, List.length_singleton] at hlong
      rw [List.length_drop, List.length_append, List.length_singleton] at hlen
      omega
  · rw [List.length_append, List.length_singleton] at hlen
    omega

/-- The datagram is a packet of the session whose timestamp is set and lies in the past. -/
def Stamped (session : UInt32) (now : Clock) (data : Bytes) : Prop :=
  ∃ header payload, parsePacket session data = .ok (header, payload) ∧
    0 < header.timestampUs.toNat ∧ header.timestampUs.toNat < now.wallUs

namespace UdpReceiver

/-- The protocol state is the same, whatever was counted. -/
structure SameProtocol {Q : RaptorQ} (r r' : UdpReceiver Q) : Prop where
  pendingBlocks : r'.pendingBlocks = r.pendingBlocks
  completedBlocks : r'.completedBlocks = r.completedBlocks
  blockExpectTimes : r'.blockExpectTimes = r.blockExpectTimes
  adaptiveFec : r'.adaptiveFec = r.adaptiveFec
  timeoutPredictor : r'.timeoutPredictor = r.timeoutPredictor
  rateCalc : r'.rateCalc = r.rateCalc

theorem SameProtocol.refl {Q : RaptorQ} (r : UdpReceiver Q) : SameProtocol r r :=
  ⟨rfl, rfl, rfl, rfl, rfl, rfl⟩

section

variable {Q : RaptorQ} {r : UdpReceiver Q} {now : Clock} {header : PacketHeader}

/-- A delay sample is part of the protocol state. -/
theorem sameProtocol_recordOwd_iff :
    SameProtocol r (r.recordOwd now header) ↔
      ¬ (0 < header.timestampUs.toNat ∧ header.timestampUs.toNat < now.wallUs) := by
  constructor
  · intro h hstamped
    have hrate := h.rateCalc
    rw [recordOwd, if_pos hstamped] at hrate
    exact ReceiverRateCalculator.recordOwd_ne _ _ _ hrate
  · intro hnot
    rw [recordOwd, if_neg hnot]
    exact SameProtocol.refl r

/-- A packet that reaches its decoder is not rejected. -/
theorem feedBlock_ne_err (blockId : ℕ) (packet : Q.Packet) (e : String) :
    (r.feedBlock now blockId packet).2 ≠ .err e := by
  unfold feedBlock
  split
  · exact PacketResult.noConfusion
  · split
    · exact PacketResult.noConfusion
    · dsimp only
      split
      · exact PacketResult.noConfusion
      · exact PacketResult.noConfusion

end

/-- **A rejection comes before everything, or between the delay sample and the rest.** -/
theorem processPacket_err {C : Crates} {r : UdpReceiver C.raptorq} {now : Clock} {data : Bytes}
    {e : String} (h : (r.processPacket C now data).2 = .err e) :
    (parsePacket r.sessionId data = .error e ∧ (r.processPacket C now data).1 = r) ∨
    ∃ header payload, parsePacket r.sessionId data = .ok (header, payload) ∧
      (r.processPacket C now data).1 = r.recordOwd now header := by
  unfold processPacket at h ⊢
  cases hparse : parsePacket r.sessionId data with
  | error e' =>
      simp only [hparse] at h
      obtain rfl := PacketResult.err.inj h
      exact Or.inl ⟨rfl, rfl⟩
  | ok parsed =>
      obtain ⟨header, payload⟩ := parsed
      refine Or.inr ⟨header, payload, rfl, ?_⟩
      simp only [hparse] at h
      dsimp only
      cases hty : header.packetType with
      | data =>
          simp only [hty] at h
          dsimp only
          split at h
          · rfl
          · exact absurd h (feedBlock_ne_err _ _ _)
      | done | blockAck | rateFeedback => rfl

/-- **A rejected datagram changes nothing exactly if it carries no usable timestamp** or is not even
a packet of the session. -/
theorem rejected_unchanged_iff {C : Crates} {r : UdpReceiver C.raptorq} {now : Clock}
    {data : Bytes} {e : String} (h : (r.processPacket C now data).2 = .err e) :
    SameProtocol r (r.processPacket C now data).1 ↔ ¬ Stamped r.sessionId now data := by
  rcases processPacket_err h with ⟨hparse, hsame⟩ | ⟨header, payload, hparse, hafter⟩
  · rw [hsame]
    constructor
    · rintro - ⟨header, payload, hok, -⟩
      rw [hparse] at hok
      cases hok
    · intro _
      exact SameProtocol.refl r
  · rw [hafter, sameProtocol_recordOwd_iff]
    apply not_congr
    constructor
    · intro hstamped
      exact ⟨header, payload, hparse, hstamped⟩
    · rintro ⟨header', payload', hok, hstamped⟩
      rw [hparse] at hok
      obtain ⟨rfl, rfl⟩ := Prod.mk.inj (Except.ok.inj hok)
      exact hstamped

namespace Small

/-- A receiver that waits for one block of five bytes. -/
def listener : UdpReceiver PlainCrates.raptorq :=
  new PlainCrates.raptorq 7 (.fromKey (List.replicate KEY_LEN 0) fun _ => Vector.replicate 4 0)
    5 5 1 100 0

/-- A data packet of the session, made up without the key. -/
def forgedHeader : PacketHeader :=
  { magic := MAGIC, packetType := .data, sessionId := 7, blockId := 0, symbolId := 0,
    timestampUs := 1, seqNum := 0 }

theorem parsePacket_forged :
    parsePacket listener.sessionId (frame forgedHeader []) = .ok (forgedHeader, []) :=
  parsePacket_frame rfl rfl

/-- The forged packet fails to decrypt, behind the delay sample. -/
theorem processPacket_forged :
    listener.processPacket PlainCrates.plainCrates ⟨0, 2⟩ (frame forgedHeader []) =
      (listener.recordOwd ⟨0, 2⟩ forgedHeader, .err "ciphertext too short") := by
  unfold processPacket
  rw [parsePacket_forged]
  rfl

theorem stamped_forged : Stamped listener.sessionId ⟨0, 2⟩ (frame forgedHeader []) :=
  ⟨forgedHeader, [], parsePacket_forged, by decide, by decide⟩

/-- The forged packet is stamped: it is rejected, and not without a trace. -/
theorem rejected_unchanged_iff_forged :
    (listener.processPacket PlainCrates.plainCrates ⟨0, 2⟩ (frame forgedHeader [])).2 =
        .err "ciphertext too short" ∧
      ¬ SameProtocol listener
        (listener.processPacket PlainCrates.plainCrates ⟨0, 2⟩ (frame forgedHeader [])).1 := by
  have herr : (listener.processPacket PlainCrates.plainCrates ⟨0, 2⟩ (frame forgedHeader [])).2 =
      .err "ciphertext too short" := by
    rw [processPacket_forged]
  exact ⟨herr, fun hsame => (rejected_unchanged_iff herr).mp hsame stamped_forged⟩

/-- Its delay is in the history, so the state is not what it was. -/
theorem forgery_not_unchanged :
    ¬ ∀ (r : UdpReceiver PlainCrates.raptorq) (now : Clock) (data : Bytes) (e : String),
      (r.processPacket PlainCrates.plainCrates now data).2 = .err e →
      SameProtocol r (r.processPacket PlainCrates.plainCrates now data).1 := by
  intro h
  have hsame := h listener ⟨0, 2⟩ (frame forgedHeader []) "ciphertext too short"
    (by rw [processPacket_forged])
  rw [processPacket_forged, sameProtocol_recordOwd_iff] at hsame
  exact hsame ⟨by decide, by decide⟩

end Small

end UdpReceiver

end Updown
