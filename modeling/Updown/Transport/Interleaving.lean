import Updown.Basic.PlainCrates
import Updown.Lib.RoundRobin
import Updown.Transport.Framing

set_option autoImplicit false

/-! # The interleaved packets of a group

The packets that `send_blocks_interleaved` (`transport/sender.rs`) builds of the encoded blocks of a
group: each symbol of each block once, in an order that serves the blocks in rounds; and each of
them, cut out of the wire buffer by its index entry, is read by a receiver of the same session and
key as that symbol (`interleaved_read_back`). How much of a block a burst of lost packets can hit is
`burst_le`. Blocks are told apart by their positions in the group.
-/

namespace Updown

open RoundRobin

/-! ## Rounds -/

/-- The symbols of the group as they are served, with the positions of their blocks. -/
def served (allEncoded : List (ℕ × List Bytes)) : List (Slot Bytes) :=
  serve (allEncoded.map Prod.snd)

/-- The symbol to send for a slot. -/
def symbolOf (allEncoded : List (ℕ × List Bytes)) (s : Slot Bytes) : SymbolOut :=
  ⟨(allEncoded.map Prod.fst).getD s.source 0, s.round, s.item⟩

/-- The number of blocks that have a symbol `symIdx`. -/
def activeBlocks (allEncoded : List (ℕ × List Bytes)) (symIdx : ℕ) : ℕ :=
  allEncoded.countP fun e => symIdx < e.2.length

/-- The number of symbols of all blocks. -/
def totalSymbols (allEncoded : List (ℕ × List Bytes)) : ℕ :=
  (allEncoded.map fun e => e.2.length).sum

theorem map_served (allEncoded : List (ℕ × List Bytes)) :
    (served allEncoded).map (symbolOf allEncoded) = interleave allEncoded := by
  have hlongest : (allEncoded.map fun e => e.2.length).foldr max 0
      = longest (allEncoded.map Prod.snd) := by
    rw [longest, List.map_map]
    rfl
  rw [interleave, hlongest]
  exact map_serve allEncoded SymbolOut.mk 0

theorem active_eq_activeBlocks (allEncoded : List (ℕ × List Bytes)) (symIdx : ℕ) :
    active (allEncoded.map Prod.snd) symIdx = activeBlocks allEncoded symIdx := by
  rw [active, List.countP_map]
  rfl

theorem length_interleave (allEncoded : List (ℕ × List Bytes)) :
    (interleave allEncoded).length = totalSymbols allEncoded := by
  rw [← map_served, List.length_map, served, length_serve, List.map_map]
  rfl

/-- **A burst is spread**: among the rounds in which at least `m` blocks have a symbol, `b` packets
in a row hold at most `⌈b / m⌉` packets of one block. -/
theorem burst_le {m : ℕ} (hm : 0 < m) (allEncoded : List (ℕ × List Bytes)) :
    (served allEncoded).map (symbolOf allEncoded) = interleave allEncoded ∧
    ∀ b w, w <:+: (served allEncoded).filter (fun s => m ≤ activeBlocks allEncoded s.round) →
      w.length = b → ∀ block, w.countP (fun s => s.source = block) ≤ Blocks.count b m := by
  refine ⟨map_served allEncoded, fun b w hw hb block => ?_⟩
  have hbusy : (served allEncoded).filter (fun s => m ≤ activeBlocks allEncoded s.round)
      = busyPart (allEncoded.map Prod.snd) m := by
    simp only [served, busyPart, active_eq_activeBlocks]
  rw [← hb]
  exact countP_le hm _ (hbusy ▸ hw) block

/-- The symbols of a block, in the order they are sent. -/
theorem filter_served (allEncoded : List (ℕ × List Bytes)) {block : ℕ} {e : ℕ × List Bytes}
    (he : allEncoded[block]? = some e) :
    ((served allEncoded).filter fun s => s.source = block).map (symbolOf allEncoded)
      = e.2.mapIdx fun symIdx data => ⟨e.1, symIdx, data⟩ := by
  have hsnd : (allEncoded.map Prod.snd).getD block [] = e.2 := by simp [he]
  rw [served, filter_serve, hsnd]
  apply List.ext_getElem?
  intro k
  simp [symbolOf, he, Function.comp_def]

/-! ## The index of the wire buffer -/

/-- The index entries lie one after the other from `off` to `stop`. -/
def Tiles : ℕ → List (ℕ × ℕ) → ℕ → Prop
  | off, [], stop => off = stop
  | off, e :: es, stop => e.1 = off ∧ Tiles (off + e.2) es stop

theorem Tiles.snoc {es : List (ℕ × ℕ)} {stop : ℕ} (len : ℕ) :
    ∀ {off : ℕ}, Tiles off es stop → Tiles off (es ++ [(stop, len)]) (stop + len) := by
  induction es with
  | nil =>
      intro off h
      exact ⟨h.symm, by rw [show off = stop from h]; rfl⟩
  | cons e es ih =>
      intro off h
      exact ⟨h.1, ih h.2⟩

/-- The index covers the buffer, without gaps or overlaps. -/
def WireBuf.Tiled (w : WireBuf) : Prop := Tiles 0 w.pktIndex w.bytes.length

theorem WireBuf.Tiled.push {w : WireBuf} (h : w.Tiled) (pkt : Bytes) : (w.push pkt).Tiled := by
  rw [Tiled, WireBuf.push, List.length_append]
  exact Tiles.snoc pkt.length h

theorem tiled_buildPackets {A : Aead} {os : List SymbolOut} :
    ∀ {s s' : UdpSender} {w w' : WireBuf}, w.Tiled → s.buildPackets A w os = (s', .ok w') →
      w'.Tiled := by
  induction os with
  | nil =>
      intro s s' w w' h hbuild
      obtain ⟨-, hw⟩ := Prod.mk.inj hbuild
      rwa [← Except.ok.inj hw]
  | cons o os ih =>
      intro s s' w w' h hbuild
      rw [UdpSender.buildPackets] at hbuild
      split at hbuild
      · exact ih (h.push _) hbuild
      · cases hbuild

/-! ## What the receiver reads -/

/-- **The packets of a run of symbols are read as those symbols**, with consecutive sequence
numbers. -/
theorem readsAs_buildPackets {A : Aead} (hA : A.Correct) {os : List SymbolOut} :
    ∀ {s s' : UdpSender} {w w' : WireBuf}, w.InRange → s.buildPackets A w os = (s', .ok w') →
      ∃ pkts, w'.slices = w.slices ++ pkts ∧ pkts.length = os.length ∧
        ∀ k o, os[k]? = some o → ∃ pkt, pkts[k]? = some pkt ∧
          ReadsAs A s.sessionId s.crypto.key (s.seqNum + UInt32.ofNat k) o pkt := by
  induction os with
  | nil =>
      intro s s' w w' _ h
      obtain ⟨-, hw⟩ := Prod.mk.inj h
      obtain rfl := Except.ok.inj hw
      exact ⟨[], by simp, rfl, fun k o hk => by cases hk⟩
  | cons o os ih =>
      intro s s' w w' hw h
      have hframe := s.framePacket_frame A o
      have hseq : (s.framePacket A o).1.seqNum = s.seqNum + 1 := rfl
      rw [UdpSender.buildPackets] at h
      split at h
      · next s₁ pkt hpkt =>
          rw [hpkt] at hframe hseq
          obtain ⟨hsession, hkey, -⟩ := hframe
          obtain ⟨pkts, hslices, hlen, hread⟩ := ih (hw.push pkt) h
          refine ⟨pkt :: pkts, ?_, by simp [hlen], fun k o' hk => ?_⟩
          · rw [hslices, WireBuf.slices_push hw, List.append_assoc, List.singleton_append]
          · cases k with
            | zero =>
                obtain rfl : o = o' := by simpa using hk
                refine ⟨pkt, rfl, ?_⟩
                have hfirst := readsAs_of_framePacket hA (s := s) (o := o) (by rw [hpkt])
                simpa using hfirst
            | succ k =>
                obtain ⟨pkt', hget, hreads⟩ := hread k o' hk
                refine ⟨pkt', hget, ?_⟩
                -- the number of the packet behind is one less from the next sender state
                have hnext : s₁.seqNum + UInt32.ofNat k = s.seqNum + UInt32.ofNat (k + 1) := by
                  rw [show s₁.seqNum = s.seqNum + 1 from hseq, UInt32.add_assoc, UInt32.ofNat_add,
                    UInt32.add_comm 1]
                  rfl
                rwa [hnext, show s₁.sessionId = s.sessionId from hsession,
                  show s₁.crypto.key = s.crypto.key from hkey] at hreads
      · cases h

/-- A receiver feeds the symbol to the decoder of its block. -/
theorem ReadsAs.processPacket {C : Crates} {session seq : UInt32} {key : Bytes} {o : SymbolOut}
    {pkt : Bytes} (h : ReadsAs C.aead session key seq o pkt) {r : UdpReceiver C.raptorq}
    (hsession : r.sessionId = session) (hkey : r.crypto.key = key) (hid : o.blockId < 2 ^ 32)
    (now : Clock) :
    r.processPacket C now pkt = r.feedBlock now o.blockId (C.raptorq.deserialize o.data) := by
  obtain ⟨payload, hparse, hdecrypt⟩ := h
  have hblock : (packetHeader session seq o).blockId.toNat = o.blockId :=
    UInt32.toNat_ofNat_of_lt' hid
  have howd : r.recordOwd now (packetHeader session seq o) = r := by
    rw [UdpReceiver.recordOwd]
    exact if_neg (by simp [packetHeader])
  have hdec : r.crypto.decrypt C.aead payload (packetAad (packetHeader session seq o).sessionId
      (packetHeader session seq o).blockId (packetHeader session seq o).symbolId) = .ok o.data :=
    hdecrypt r.crypto hkey
  rw [UdpReceiver.processPacket, hsession, hparse]
  dsimp only
  rw [howd, show (packetHeader session seq o).packetType = .data from rfl]
  dsimp only
  rw [hdec, hblock]

/-- A symbol of the group has a block id and an index that fit their header fields. -/
theorem bounds_of_mem_interleave {allEncoded : List (ℕ × List Bytes)} {o : SymbolOut}
    (h : o ∈ interleave allEncoded) (hids : ∀ e ∈ allEncoded, e.1 < 2 ^ 32)
    (htotal : totalSymbols allEncoded < 2 ^ 32) : o.blockId < 2 ^ 32 ∧ o.symIdx < 2 ^ 32 := by
  obtain ⟨e, he, hid, hdata⟩ := mem_interleave.mp h
  have hidx : o.symIdx < e.2.length := (List.getElem?_eq_some_iff.mp hdata).1
  have hlen : e.2.length ≤ totalSymbols allEncoded :=
    List.le_sum_of_mem (List.mem_map_of_mem (f := fun e : ℕ × List Bytes => e.2.length) he)
  constructor
  · rw [← hid]
    exact hids e he
  · omega

/-- **Interleaving loses nothing and frames correctly.** The packets are the symbols of the blocks,
each once and those of a block in order; they are built if the AEAD takes the key and the texts;
the index tiles the buffer; and packet `k` parses to a header with the next sequence number, the
block and the symbol, and is decrypted to exactly that symbol, which a receiver of the same session
and key feeds to the decoder of the block. -/
theorem interleaved_read_back (C : Crates) (hA : C.aead.Correct) (s : UdpSender)
    (allEncoded : List (ℕ × List Bytes)) (hids : ∀ e ∈ allEncoded, e.1 < 2 ^ 32)
    (hseq : s.seqNum.toNat + totalSymbols allEncoded < 2 ^ 32) :
    ((served allEncoded).map (symbolOf allEncoded) = interleave allEncoded ∧
      (interleave allEncoded).length = totalSymbols allEncoded ∧
      ∀ block e, allEncoded[block]? = some e →
        ((served allEncoded).filter fun x => x.source = block).map (symbolOf allEncoded)
          = e.2.mapIdx fun symIdx data => ⟨e.1, symIdx, data⟩) ∧
    (s.crypto.key.length = KEY_LEN →
      (∀ e ∈ allEncoded, ∀ data ∈ e.2, data.length ≤ MAX_PLAINTEXT) →
      ∃ s' w, s.buildPackets C.aead .empty (interleave allEncoded) = (s', .ok w)) ∧
    ∀ s' w, s.buildPackets C.aead .empty (interleave allEncoded) = (s', .ok w) →
      w.Tiled ∧ w.slices.length = (interleave allEncoded).length ∧
      ∀ k o, (interleave allEncoded)[k]? = some o → ∃ pkt header payload,
        w.slices[k]? = some pkt ∧ parsePacket s.sessionId pkt = .ok (header, payload) ∧
        header.packetType = .data ∧ header.blockId.toNat = o.blockId ∧
        header.symbolId.toNat = o.symIdx ∧ header.seqNum.toNat = s.seqNum.toNat + k ∧
        ∀ r : UdpReceiver C.raptorq, r.sessionId = s.sessionId → r.crypto.key = s.crypto.key →
          r.crypto.decrypt C.aead payload
            (packetAad header.sessionId header.blockId header.symbolId) = .ok o.data ∧
          ∀ now, r.processPacket C now pkt
            = r.feedBlock now o.blockId (C.raptorq.deserialize o.data) := by
  refine ⟨⟨map_served allEncoded, length_interleave allEncoded, fun block e he =>
    filter_served allEncoded he⟩, fun hkey hshort => ?_, fun s' w hbuild => ?_⟩
  · apply UdpSender.buildPackets_isOk hA hkey
    intro o ho
    obtain ⟨e, he, -, hdata⟩ := mem_interleave.mp ho
    exact hshort e he o.data (List.mem_of_getElem? hdata)
  · obtain ⟨pkts, hslices, hlen, hread⟩ :=
      readsAs_buildPackets hA WireBuf.inRange_empty hbuild
    have hpkts : w.slices = pkts := hslices
    have hempty : WireBuf.empty.Tiled := rfl
    refine ⟨tiled_buildPackets hempty hbuild, by rw [hpkts, hlen], fun k o hk => ?_⟩
    obtain ⟨pkt, hget, hreads⟩ := hread k o hk
    obtain ⟨hid, hidx⟩ := bounds_of_mem_interleave (List.mem_of_getElem? hk) hids (by omega)
    have hk' : k < totalSymbols allEncoded := by
      rw [← length_interleave]
      exact (List.getElem?_eq_some_iff.mp hk).1
    -- the counter does not wrap within the call
    have hnum : (s.seqNum + UInt32.ofNat k).toNat = s.seqNum.toNat + k := by
      rw [UInt32.toNat_add, UInt32.toNat_ofNat_of_lt' (show k < 2 ^ 32 by omega)]
      exact Nat.mod_eq_of_lt (by omega)
    obtain ⟨payload, hparse, hdecrypt⟩ := id hreads
    refine ⟨pkt, _, payload, hpkts ▸ hget, hparse, rfl, UInt32.toNat_ofNat_of_lt' hid,
      UInt32.toNat_ofNat_of_lt' hidx, hnum, fun r hsession hkey => ?_⟩
    exact ⟨hdecrypt r.crypto hkey, hreads.processPacket hsession hkey hid⟩

namespace Ragged

/-- Three blocks, one of them without symbols. -/
def blocks : List (ℕ × List Bytes) := [(4, [[1], [2, 3]]), (5, []), (9, [[4], [5], [6]])]

def sender : UdpSender :=
  { sessionId := 7, crypto := .fromKey (List.replicate KEY_LEN 1) fun _ => Vector.replicate 4 0,
    fecEncoder := .new 0, seqNum := 10 }

theorem interleaved_read_back_blocks :
    ∃ s' w, sender.buildPackets PlainCrates.aead .empty (interleave blocks) = (s', .ok w) ∧
      w.Tiled ∧ w.slices.length = 5 := by
  obtain ⟨-, hbuilds, hread⟩ := interleaved_read_back PlainCrates.plainCrates
    PlainCrates.aead_correct sender blocks (by decide) (by decide)
  obtain ⟨s', w, hbuild⟩ := hbuilds (by decide) (by decide)
  exact ⟨s', w, hbuild, (hread s' w hbuild).1, (hread s' w hbuild).2.1⟩

/-- Of three packets in the rounds of both blocks, at most two are of the first. -/
theorem burst_le_blocks :
    (((served blocks).take 4).drop 1).countP (fun s => s.source = 0) ≤ 2 := by
  have hbusy : (served blocks).filter (fun s => 2 ≤ activeBlocks blocks s.round)
      = (served blocks).take 4 := by
    rfl
  have hinfix : ((served blocks).take 4).drop 1
      <:+: (served blocks).filter (fun s => 2 ≤ activeBlocks blocks s.round) := by
    rw [hbusy]
    exact (List.drop_suffix 1 _).isInfix
  exact (burst_le (show 0 < 2 by decide) blocks).2 3 _ hinfix rfl 0

end Ragged

end Updown
