import Updown.Engine.Transfer
import Updown.Transport.Grammar

set_option autoImplicit false

/-! # What the tag does not protect

The tag of a data packet covers its symbol and, as associated data, its position. Whoever is on the
path can rewrite the timestamp, the sequence number and the bytes behind the header unnoticed. They
only reach the rate calculator: `receive_file` goes through the same steps with the rewritten
datagrams (`tampering_invisible`), whatever the wall clock of the receiver says.
-/

namespace Updown

/-- The same datagram with another timestamp, sequence number and rest of the header. -/
inductive Tampered : Bytes → Bytes → Prop
  | untouched (data : Bytes) : Tampered data data
  | rewritten (header : PacketHeader) (timestampUs : UInt64) (seqNum : UInt32)
      (extra extra' payload : Bytes) (hextra : 32 + extra.length < 2 ^ 16)
      (hextra' : 32 + extra'.length < 2 ^ 16) :
      Tampered (datagram header extra payload)
        (datagram { header with timestampUs := timestampUs, seqNum := seqNum } extra' payload)

/-- Both are rejected alike, or parsed into the same payload under the same position. -/
theorem Tampered.parsePacket {data data' : Bytes} (h : Tampered data data') (session : UInt32) :
    (∃ e, Updown.parsePacket session data = .error e ∧
      Updown.parsePacket session data' = .error e) ∨
    ∃ header timestampUs seqNum payload,
      Updown.parsePacket session data = .ok (header, payload) ∧
      Updown.parsePacket session data' =
        .ok ({ header with timestampUs := timestampUs, seqNum := seqNum }, payload) := by
  cases h with
  | untouched =>
      cases hparse : Updown.parsePacket session data with
      | error e => exact Or.inl ⟨e, rfl, rfl⟩
      | ok parsed =>
          exact Or.inr ⟨parsed.1, parsed.1.timestampUs, parsed.1.seqNum, parsed.2, rfl, rfl⟩
  | rewritten header timestampUs seqNum extra extra' payload hextra hextra' =>
      rw [parsePacket_datagram hextra, parsePacket_datagram hextra']
      by_cases hmagic : header.magic = MAGIC
      · rw [if_neg (not_not.mpr hmagic), if_neg (not_not.mpr hmagic)]
        by_cases hsession : header.sessionId = session
        · rw [if_neg (not_not.mpr hsession), if_neg (not_not.mpr hsession)]
          exact Or.inr ⟨header, timestampUs, seqNum, payload, rfl, rfl⟩
        · rw [if_pos hsession, if_pos hsession]
          exact Or.inl ⟨_, rfl, rfl⟩
      · rw [if_pos hmagic, if_pos hmagic]
        exact Or.inl ⟨_, rfl, rfl⟩

namespace UdpReceiver

/-- With other delays, rates and bytes counted. -/
def withRate {Q : RaptorQ} (r : UdpReceiver Q) (rateCalc : ReceiverRateCalculator ℚ)
    (totalBytesReceived : ℕ) : UdpReceiver Q :=
  { r with rateCalc := rateCalc, totalBytesReceived := totalBytesReceived }

section

variable {C : Crates} {r : UdpReceiver C.raptorq} {now now' : Clock} {data data' : Bytes}

theorem feedBlock_withRate {Q : RaptorQ} (r : UdpReceiver Q) (rateCalc : ReceiverRateCalculator ℚ)
    (n : ℕ) (hnow : now'.instant = now.instant) (blockId : ℕ) (packet : Q.Packet) :
    (r.withRate rateCalc n).feedBlock now' blockId packet =
      ((r.feedBlock now blockId packet).1.withRate rateCalc n,
        (r.feedBlock now blockId packet).2) := by
  have hexpect : (r.withRate rateCalc n).expectBlock now' blockId =
      (r.expectBlock now blockId).withRate rateCalc n := by
    rw [expectBlock, hnow]
    rfl
  have hentry : (r.withRate rateCalc n).openBlock now' blockId = r.openBlock now blockId := by
    simp only [openBlock, pendingFor, hnow]
    rfl
  unfold feedBlock
  rw [hexpect, hentry, hnow]
  by_cases hmem : blockId ∈ r.completedBlocks
  · rw [if_pos hmem, if_pos (show blockId ∈ (r.withRate rateCalc n).completedBlocks from hmem)]
  · rw [if_neg hmem, if_neg (show blockId ∉ (r.withRate rateCalc n).completedBlocks from hmem)]
    cases r.openBlock now blockId with
    | error fault => rfl
    | ok pending =>
        dsimp only
        cases pending.decoder.addPacket packet with
        | mk decoder out =>
            cases out with
            | none => rfl
            | some decoded => rfl

/-- A tampered datagram has the same result, and only what is counted of it differs. -/
theorem processPacket_tampered (h : Tampered data data') (hnow : now'.instant = now.instant)
    (rateCalc : ReceiverRateCalculator ℚ) (n : ℕ) :
    ∃ rateCalc', (r.withRate rateCalc n).processPacket C now' data' =
      ((r.processPacket C now data).1.withRate rateCalc' n, (r.processPacket C now data).2) := by
  unfold processPacket
  rcases h.parsePacket r.sessionId with ⟨e, herror, herror'⟩ |
    ⟨header, timestampUs, seqNum, payload, hparse, hparse'⟩
  · rw [herror, show Updown.parsePacket (r.withRate rateCalc n).sessionId data' = .error e from
      herror']
    exact ⟨rateCalc, rfl⟩
  · rw [hparse, show Updown.parsePacket (r.withRate rateCalc n).sessionId data' = _ from hparse']
    obtain ⟨calc₁, hr⟩ := r.recordOwd_eq now header
    obtain ⟨calc₂, hr'⟩ := (r.withRate rateCalc n).recordOwd_eq now'
      { header with timestampUs := timestampUs, seqNum := seqNum }
    have hsame : (r.withRate rateCalc n).recordOwd now'
        { header with timestampUs := timestampUs, seqNum := seqNum } =
          (r.recordOwd now header).withRate calc₂ n := by
      rw [hr', hr]
      rfl
    refine ⟨calc₂, ?_⟩
    dsimp only
    rw [hsame]
    cases header.packetType with
    | done | blockAck | rateFeedback => rfl
    | data =>
        dsimp only
        have hcrypto : ((r.recordOwd now header).withRate calc₂ n).crypto =
            (r.recordOwd now header).crypto := rfl
        rw [hcrypto]
        cases (r.recordOwd now header).crypto.decrypt C.aead payload
            (packetAad header.sessionId header.blockId header.symbolId) with
        | error e => rfl
        | ok plain => exact feedBlock_withRate _ _ _ hnow _ _

theorem blockDecoded_withRate (hnow : now'.instant = now.instant)
    (rateCalc : ReceiverRateCalculator ℚ) (n : ℕ) (r : UdpReceiver C.raptorq)
    (block : ReceivedBlock) :
    ∃ rateCalc', (r.withRate rateCalc n).blockDecoded C now' block =
      (r.blockDecoded C now block).withRate rateCalc' n := by
  refine ⟨((r.withRate rateCalc n).blockDecoded C now' block).rateCalc, ?_⟩
  unfold blockDecoded
  rw [hnow]
  rfl

theorem receive_tampered (h : Tampered data data') (hnow : now'.instant = now.instant)
    (rateCalc : ReceiverRateCalculator ℚ) (n : ℕ) :
    ∃ rateCalc' n', (r.withRate rateCalc n).receive C now' data' =
      ((r.receive C now data).1.withRate rateCalc' n', (r.receive C now data).2) := by
  have hcount : (r.withRate rateCalc n).countPacket data'.length =
      (r.countPacket data.length).withRate rateCalc (n + data'.length) := rfl
  obtain ⟨calc₁, hprocess⟩ := processPacket_tampered (r := r.countPacket data.length) (C := C) h
    hnow rateCalc (n + data'.length)
  unfold receive
  rw [hcount, hprocess]
  cases (r.countPacket data.length).processPacket C now data with
  | mk r₁ res =>
      cases res with
      | err | panic => exact ⟨calc₁, n + data'.length, rfl⟩
      | ok out =>
          cases out with
          | none => exact ⟨calc₁, n + data'.length, rfl⟩
          | some block =>
              obtain ⟨calc₂, hdecoded⟩ := blockDecoded_withRate (C := C) hnow calc₁
                (n + data'.length) r₁ block
              refine ⟨calc₂, n + data'.length, ?_⟩
              dsimp only
              rw [hdecoded]

end

end UdpReceiver

namespace RecvFile

open Transition

/-- With other delays, rates and bytes counted. -/
def withRate {Q : RaptorQ} (s : RecvFile Q) (rateCalc : ReceiverRateCalculator ℚ) (n : ℕ)
    (arrived : List Bytes) : RecvFile Q :=
  { s with receiver := s.receiver.withRate rateCalc n, log := { s.log with arrived := arrived } }

section

variable {Q : RaptorQ} (s : RecvFile Q) (rateCalc : ReceiverRateCalculator ℚ) (n : ℕ)
  (arrived : List Bytes)

@[simp] theorem withRate_task : (s.withRate rateCalc n arrived).task = s.task := rfl

@[simp] theorem withRate_channel : (s.withRate rateCalc n arrived).channel = s.channel := rfl

@[simp] theorem withRate_writer : (s.withRate rateCalc n arrived).writer = s.writer := rfl

@[simp] theorem withRate_resume : (s.withRate rateCalc n arrived).resume = s.resume := rfl

@[simp] theorem withRate_allReceived :
    (s.withRate rateCalc n arrived).receiver.allReceived = s.receiver.allReceived := rfl

theorem takeBlock_withRate (C : Crates) (p : RecvParams) (save : SaveOutcome)
    (block : ReceivedBlock) :
    (s.withRate rateCalc n arrived).takeBlock C p save block =
      (s.takeBlock C p save block).withRate rateCalc n arrived := by
  unfold takeBlock
  rw [withRate_resume]
  by_cases hdone : s.resume.isComplete block.blockId = true
  · rw [if_pos hdone, if_pos hdone]
  · rw [if_neg hdone, if_neg hdone]
    cases p.writeRange block.blockId with
    | error fault => rfl
    | ok range =>
        dsimp only
        by_cases hshort : block.data.length < range.2
        · rw [if_pos hshort, if_pos hshort]
          rfl
        · rw [if_neg hshort, if_neg hshort]
          have hmark : ((s.withRate rateCalc n arrived).write range.1
              (block.data.take range.2)).markBlock C block.blockId (block.data.take range.2)
              = s.markBlock C block.blockId (block.data.take range.2) := rfl
          have hmark' : (s.write range.1 (block.data.take range.2)).markBlock C block.blockId
              (block.data.take range.2) = s.markBlock C block.blockId (block.data.take range.2) :=
            rfl
          rw [hmark, hmark']
          cases s.markBlock C block.blockId (block.data.take range.2) with
          | error fault => rfl
          | ok resume => rfl

theorem failWrite_withRate (p : RecvParams) (k : ℕ) (block : ReceivedBlock) :
    (s.withRate rateCalc n arrived).failWrite p k block =
      (s.failWrite p k block).withRate rateCalc n arrived := by
  unfold failWrite
  cases p.writeRange block.blockId with
  | error fault => rfl
  | ok range =>
      dsimp only
      by_cases hshort : block.data.length < range.2
      · rw [if_pos hshort, if_pos hshort]
        rfl
      · rw [if_neg hshort, if_neg hshort]
        rfl

end

variable {C : Crates} {p : RecvParams} {s t : RecvFile C.raptorq} {e e' : RecvEvent}

/-- Steps that take no datagram do not depend on the rate. -/
theorem step_withRate (hne : ∀ now data, e ≠ .datagram now data)
    (rateCalc : ReceiverRateCalculator ℚ) (n : ℕ) (arrived : List Bytes) :
    step C p (s.withRate rateCalc n arrived) e =
      (step C p s e).map fun t => t.withRate rateCalc n arrived := by
  cases e with
  | datagram now data => exact absurd rfl (hne now data)
  -- no step but that of a datagram reads the calculator, the counts or the record
  | recvError | idleTimeout | exitAll =>
      dsimp only [step, withRate_task, withRate_allReceived]
      cases s.task with
      | running =>
          dsimp only
          rw [apply_ite (Option.map _)]
          exact if_congr Iff.rfl rfl rfl
      | sending | exited | panicked => rfl
  | send | sendFailed =>
      dsimp only [step, withRate_task, withRate_writer, withRate_channel]
      cases s.task with
      | sending block =>
          dsimp only
          rw [apply_ite (Option.map _)]
          exact if_congr Iff.rfl rfl rfl
      | running | exited | panicked => rfl
  | take save =>
      dsimp only [step, withRate_writer, withRate_channel]
      cases s.writer with
      | looping =>
          cases s.channel with
          | nil => rfl
          | cons block rest =>
              have htake := takeBlock_withRate { s with channel := rest, writer := .looping }
                rateCalc n arrived C p save block
              dsimp only
              exact congrArg some htake
      | awaiting | done | failed | panicked => rfl
  | writeFails k =>
      dsimp only [step, withRate_writer, withRate_channel, withRate_resume]
      cases s.writer with
      | looping =>
          cases s.channel with
          | nil => rfl
          | cons block rest =>
              have hfail := failWrite_withRate { s with channel := rest, writer := .looping }
                rateCalc n arrived p k block
              dsimp only
              rw [apply_ite (Option.map _)]
              exact if_congr Iff.rfl rfl (congrArg some hfail)
      | awaiting | done | failed | panicked => rfl
  | channelEnd =>
      dsimp only [step, withRate_task, withRate_writer, withRate_channel]
      cases s.writer with
      | looping =>
          cases s.channel with
          | nil =>
              dsimp only
              rw [apply_ite (Option.map _)]
              exact if_congr Iff.rfl rfl rfl
          | cons => rfl
      | awaiting | done | failed | panicked => rfl
  | finish save =>
      dsimp only [step, withRate_task, withRate_writer]
      cases s.writer with
      | awaiting => cases s.task <;> rfl
      | looping | done | failed | panicked => rfl
  | ioFails =>
      dsimp only [step, withRate_writer]
      cases s.writer <;> rfl

/-- The same event, up to tampering and what the wall clock says. -/
inductive TamperedEvent : RecvEvent → RecvEvent → Prop
  | datagram {now now' : Clock} {data data' : Bytes} (hnow : now'.instant = now.instant)
      (hdata : Tampered data data') : TamperedEvent (.datagram now data) (.datagram now' data')
  | same (e : RecvEvent) : TamperedEvent e e

/-- **A tampered step is the same step**, up to what is counted of datagrams. -/
theorem step_tampered (he : TamperedEvent e e') (hs : step C p s e = some t)
    (rateCalc : ReceiverRateCalculator ℚ) (n : ℕ) (arrived : List Bytes) :
    ∃ rateCalc' n' arrived', step C p (s.withRate rateCalc n arrived) e' =
      some (t.withRate rateCalc' n' arrived') := by
  have hdatagram : ∀ {now now' : Clock} {data data' : Bytes}, now'.instant = now.instant →
      Tampered data data' → step C p s (.datagram now data) = some t →
      ∃ rateCalc' n' arrived', step C p (s.withRate rateCalc n arrived) (.datagram now' data') =
        some (t.withRate rateCalc' n' arrived') := by
    intro now now' data data' hnow hdata hs
    cases step_cases hs with
    | datagram now data r res htask hopen =>
        rw [step_datagram now data htask hopen] at hs
        obtain ⟨calc', n', hreceive⟩ := UdpReceiver.receive_tampered (r := s.receiver) (C := C)
          hdata hnow rateCalc n
        refine ⟨calc', n', arrived ++ [data'], ?_⟩
        rw [step_datagram (s := s.withRate rateCalc n arrived) now' data' htask hopen,
          ← Option.some.inj hs]
        show some ((s.withRate rateCalc n arrived).afterReceive data'
          ((s.receiver.withRate rateCalc n).receive C now' data').1
          ((s.receiver.withRate rateCalc n).receive C now' data').2) = _
        rw [hreceive]
        rfl
  cases he with
  | datagram hnow hdata => exact hdatagram hnow hdata hs
  | same =>
      cases e with
      | datagram now data => exact hdatagram rfl (.untouched data) hs
      | _ =>
          refine ⟨rateCalc, n, arrived, ?_⟩
          rw [step_withRate (by intro now data; exact RecvEvent.noConfusion), hs, Option.map_some]

/-- A tampered run goes through the same states, up to what is counted of datagrams. -/
theorem runAll_tampered {es es' : List RecvEvent} (hes : List.Forall₂ TamperedEvent es es')
    {s t : RecvFile C.raptorq} (hrun : runAll (step C p) s es = some t)
    (rateCalc : ReceiverRateCalculator ℚ) (n : ℕ) (arrived : List Bytes) :
    ∃ rateCalc' n' arrived', runAll (step C p) (s.withRate rateCalc n arrived) es' =
      some (t.withRate rateCalc' n' arrived') := by
  induction hes generalizing s rateCalc n arrived with
  | nil =>
      obtain rfl := Option.some.inj hrun
      exact ⟨rateCalc, n, arrived, rfl⟩
  | cons he _ ih =>
      obtain ⟨u, hu, hrun⟩ := Option.bind_eq_some_iff.mp hrun
      obtain ⟨calc₁, n₁, arrived₁, hstep⟩ := step_tampered he hu rateCalc n arrived
      obtain ⟨calc₂, n₂, arrived₂, hrest⟩ := ih hrun calc₁ n₁ arrived₁
      exact ⟨calc₂, n₂, arrived₂, by rw [runAll, hstep, Option.bind_some, hrest]⟩

/-- **Tampering with what the tag does not cover is invisible.** Take any run of `receive_file`, and
let timestamps, sequence numbers and the bytes behind the headers be rewritten at will, and the wall
clock say anything. The same steps are possible, and at their end everything is the same, file,
resume file and result included, but delays and rates, the number of bytes and the datagrams. -/
theorem tampering_invisible {rng : ℕ → Vector UInt8 4} {now : ℕ} {disk : Disk}
    {es es' : List RecvEvent} (hes : List.Forall₂ TamperedEvent es es') {t : RecvFile C.raptorq}
    (hrun : runAll (step C p) (start C.raptorq p rng now disk) es = some t) :
    ∃ rateCalc n arrived, runAll (step C p) (start C.raptorq p rng now disk) es' =
      some
        { t with
          receiver := { t.receiver with rateCalc := rateCalc, totalBytesReceived := n }
          log := { t.log with arrived := arrived } } :=
  runAll_tampered hes hrun _ _ _

end RecvFile

namespace Small

/-- The header of the first packet of a block. -/
def firstHeader (blockId : UInt32) : PacketHeader :=
  { magic := MAGIC, packetType := .data, sessionId := 9, blockId := blockId, symbolId := 0,
    timestampUs := 0, seqNum := 0 }

/-- The `k`-th packet with its header rewritten. -/
def rewritten (k : ℕ) (timestampUs : UInt64) (seqNum : UInt32) (extra : Bytes) : Bytes :=
  datagram { firstHeader (UInt32.ofNat k) with timestampUs := timestampUs, seqNum := seqNum } extra
    ((sent.getD k []).drop 34)

/-- The first packets of both blocks. -/
def firstPackets (wallUs : ℕ) (timestampUs : UInt64) (seqNum : UInt32) (extra : Bytes) :
    List RecvEvent :=
  [.datagram ⟨0, wallUs⟩ (rewritten 1 timestampUs seqNum extra), .send, .take .failed,
    .datagram ⟨0, wallUs⟩ (rewritten 0 timestampUs seqNum extra), .send, .exitAll, .take .written,
    .finish .written]

end Small

namespace RecvFile

open Transition

theorem tampering_invisible_small :
    ∃ t : RecvFile PlainCrates.raptorq, t.writer.finished = true ∧ t.log.delivered.length = 2 ∧
      ∃ rateCalc n arrived, runAll (step PlainCrates.plainCrates Small.params)
        (start _ Small.params Small.rng 0 Small.disk)
        (Small.firstPackets 5 1 77 [0xFF]) = some
          { t with
            receiver := { t.receiver with rateCalc := rateCalc, totalBytesReceived := n }
            log := { t.log with arrived := arrived } } := by
  obtain ⟨t, hrun, hcheck⟩ := exists_of_runAll
    (step PlainCrates.plainCrates Small.params)
    (start _ Small.params Small.rng 0 Small.disk) (Small.firstPackets 0 0 0 [])
    (fun t => t.writer.finished && decide (t.log.delivered.length = 2)) (by decide +kernel)
  simp only [Bool.and_eq_true, decide_eq_true_eq] at hcheck
  have htampered : ∀ k, TamperedEvent (.datagram ⟨0, 0⟩ (Small.rewritten k 0 0 []))
      (.datagram ⟨0, 5⟩ (Small.rewritten k 1 77 [0xFF])) := fun k =>
    .datagram rfl (.rewritten _ 1 77 [] [0xFF] _ (by decide) (by decide))
  have hes : List.Forall₂ TamperedEvent (Small.firstPackets 0 0 0 [])
      (Small.firstPackets 5 1 77 [0xFF]) :=
    .cons (htampered 1) (.cons (.same _) (.cons (.same _) (.cons (htampered 0)
      (.cons (.same _) (.cons (.same _) (.cons (.same _) (.cons (.same _) .nil)))))))
  exact ⟨t, hcheck.1, hcheck.2, tampering_invisible hes hrun⟩

end RecvFile

end Updown
