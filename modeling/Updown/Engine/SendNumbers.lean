import Updown.Engine.Transfer
import Updown.Transport.Interleaving

set_option autoImplicit false

/-! # The numbering of a transfer

`send_file_inner` sends group after group with one sender. Its sequence numbers go on from group to
group, the totals it returns are those of the datagrams, and no two data packets have the same
position: `transfer_accounted` says so for the whole list of datagrams of a successful call.
-/

namespace Updown

/-- The datagrams are read as the symbols, under consecutive sequence numbers from `seq` on. -/
def Numbered (A : Aead) (session : UInt32) (key : Bytes) (seq : UInt32) (os : List SymbolOut)
    (pkts : List Bytes) : Prop :=
  pkts.length = os.length ∧ ∀ k o, os[k]? = some o → ∃ pkt, pkts[k]? = some pkt ∧
    ReadsAs A session key (seq + UInt32.ofNat k) o pkt

theorem numbered_nil (A : Aead) (session : UInt32) (key : Bytes) (seq : UInt32) :
    Numbered A session key seq [] [] := ⟨rfl, fun k o h => by cases h⟩

theorem Numbered.append {A : Aead} {session seq : UInt32} {key : Bytes} {os os' : List SymbolOut}
    {pkts pkts' : List Bytes} (h : Numbered A session key seq os pkts)
    (h' : Numbered A session key (seq + UInt32.ofNat os.length) os' pkts') :
    Numbered A session key seq (os ++ os') (pkts ++ pkts') := by
  refine ⟨by rw [List.length_append, List.length_append, h.1, h'.1], fun k o hk => ?_⟩
  rcases Nat.lt_or_ge k os.length with hlt | hge
  · rw [List.getElem?_append_left hlt] at hk
    rw [List.getElem?_append_left (h.1 ▸ hlt)]
    exact h.2 k o hk
  · rw [List.getElem?_append_right hge] at hk
    rw [List.getElem?_append_right (h.1 ▸ hge), h.1]
    obtain ⟨pkt, hpkt, hreads⟩ := h'.2 _ o hk
    refine ⟨pkt, hpkt, ?_⟩
    rw [UInt32.add_assoc, ← UInt32.ofNat_add, Nat.add_sub_cancel' hge] at hreads
    exact hreads

/-! ## The sequence number of the sender -/

theorem UdpSender.seqNum_buildPackets {A : Aead} {os : List SymbolOut} :
    ∀ {s s' : UdpSender} {w w' : WireBuf}, s.buildPackets A w os = (s', .ok w') →
      s'.seqNum = s.seqNum + UInt32.ofNat os.length := by
  induction os with
  | nil =>
      intro s s' w w' h
      obtain ⟨rfl, -⟩ := Prod.mk.inj h
      exact (UInt32.add_zero _).symm
  | cons o os ih =>
      intro s s' w w' h
      have hseq : (s.framePacket A o).1.seqNum = s.seqNum + 1 := rfl
      rw [buildPackets] at h
      split at h
      · next s₁ pkt hpkt =>
          rw [hpkt] at hseq
          rw [ih h, show s₁.seqNum = s.seqNum + 1 from hseq, List.length_cons, UInt32.add_assoc,
            UInt32.ofNat_add, UInt32.add_comm 1]
          rfl
      · cases h

/-- **A group that is sent** is numbered on from the sender's number, and its stats count its
datagrams. -/
theorem UdpSender.numbered_sendBlocksInterleaved {C : Crates} (hA : C.aead.Correct)
    {s s' : UdpSender} {blocks : List (ℕ × Bytes)} {pkts : List Bytes}
    {stats : InterlevedSendStats} (h : s.sendBlocksInterleaved C blocks = (s', pkts, .ok stats)) :
    Numbered C.aead s.sessionId s.crypto.key s.seqNum
      (interleave (encodeBlocks C.raptorq s.fecEncoder blocks)) pkts ∧
    s'.seqNum = s.seqNum + UInt32.ofNat pkts.length ∧
    stats.packetsSent = pkts.length ∧ stats.bytesSent = (pkts.map List.length).sum := by
  unfold sendBlocksInterleaved at h
  dsimp only at h
  split at h
  · next s₁ w hbuild =>
      obtain ⟨rfl, hrest⟩ := Prod.mk.inj h
      obtain ⟨hpkts, hstats⟩ := Prod.mk.inj hrest
      obtain rfl := Except.ok.inj hstats
      obtain ⟨slices, hslices, hlen, hread⟩ :=
        readsAs_buildPackets hA WireBuf.inRange_empty hbuild
      obtain rfl : slices = pkts := by
        rw [← hpkts, hslices]
        rfl
      refine ⟨⟨hlen, hread⟩, ?_, by rw [hpkts], by rw [hpkts]⟩
      rw [hlen]
      exact seqNum_buildPackets hbuild
  · cases (Prod.mk.inj (Prod.mk.inj h).2).2

/-! ## All groups -/

namespace SendEngine

/-- The symbols of a transfer, in the order they are sent. -/
def symbolsOf (Q : RaptorQ) (enc : FecEncoder) (groups : List (List (ℕ × Bytes))) :
    List SymbolOut :=
  groups.flatMap fun group => interleave (encodeBlocks Q enc group)

variable {C : Crates} {e : SendEngine} {S : Bytes} {skip : List ℕ}

/-- **The groups are numbered on from one to the next**, and the totals count all their
datagrams. -/
theorem numbered_sendGroups (hA : C.aead.Correct) (groups : List (List (ℕ × Bytes))) :
    ∀ {s : UdpSender} {bytes packets bytes' packets' : ℕ},
      (sendGroups C s groups bytes packets).2.2 = .ok (bytes', packets') →
      Numbered C.aead s.sessionId s.crypto.key s.seqNum (symbolsOf C.raptorq s.fecEncoder groups)
        (sendGroups C s groups bytes packets).2.1 ∧
      (sendGroups C s groups bytes packets).1.seqNum =
        s.seqNum + UInt32.ofNat (sendGroups C s groups bytes packets).2.1.length ∧
      packets' = packets + (sendGroups C s groups bytes packets).2.1.length ∧
      bytes' = bytes + ((sendGroups C s groups bytes packets).2.1.map List.length).sum := by
  induction groups with
  | nil =>
      intro s bytes packets bytes' packets' h
      obtain ⟨rfl, rfl⟩ := Prod.mk.inj (Except.ok.inj h)
      exact ⟨numbered_nil _ _ _ _, (UInt32.add_zero _).symm, rfl, rfl⟩
  | cons group groups ih =>
      intro s bytes packets bytes' packets' h
      have hframe := s.sendBlocksInterleaved_frame (C := C) group
      rw [sendGroups] at h ⊢
      split at h
      · next s' pkts msg hsend => cases h
      · next s' pkts stats hsend =>
          rw [hsend] at hframe
          obtain ⟨hsession, hkey, henc⟩ : s'.sessionId = s.sessionId ∧
            s'.crypto.key = s.crypto.key ∧ s'.fecEncoder = s.fecEncoder := hframe
          obtain ⟨hhead, hseq, hpackets, hbytes⟩ :=
            UdpSender.numbered_sendBlocksInterleaved hA hsend
          obtain ⟨hnum, hseq', hpackets', hbytes'⟩ := ih h
          dsimp only
          refine ⟨?_, ?_, ?_, ?_⟩
          · rw [symbolsOf, List.flatMap_cons]
            rw [hsession, hkey, henc, hseq, hhead.1] at hnum
            exact hhead.append hnum
          · rw [hseq', hseq, List.length_append, UInt32.ofNat_add, UInt32.add_assoc]
          · rw [hpackets', hpackets, List.length_append, Nat.add_assoc]
          · rw [hbytes', hbytes, List.map_append, List.sum_append, Nat.add_assoc]

/-! ## Positions -/

/-- Block and index of a symbol. -/
def position (o : SymbolOut) : ℕ × ℕ := (o.blockId, o.symIdx)

theorem map_filterMap_sublist {α β γ : Type} {f : α → Option β} {g : β → γ} {h : α → γ}
    (hf : ∀ a b, f a = some b → g b = h a) (l : List α) :
    ((l.filterMap f).map g).Sublist (l.map h) := by
  induction l with
  | nil => exact List.Sublist.refl _
  | cons a l ih =>
      rw [List.filterMap_cons, List.map_cons]
      cases ha : f a with
      | none => exact ih.cons _
      | some b =>
          dsimp only
          rw [List.map_cons, hf a b ha]
          exact ih.cons_cons _

/-- The positions of a group are those of its blocks, each once. -/
theorem nodup_positions_interleave {allEncoded : List (ℕ × List Bytes)}
    (h : (allEncoded.map Prod.fst).Nodup) : ((interleave allEncoded).map position).Nodup := by
  have hround : ∀ k o, (o ∈ allEncoded.filterMap fun e => e.2[k]?.map fun data =>
      (⟨e.1, k, data⟩ : SymbolOut)) → o.symIdx = k := by
    intro k o ho
    obtain ⟨e, -, he⟩ := List.mem_filterMap.mp ho
    obtain ⟨data, -, rfl⟩ := Option.map_eq_some_iff.mp he
    rfl
  rw [interleave, List.map_flatMap, List.nodup_flatMap]
  constructor
  · -- in a round every block comes at most once
    intro k _
    refine List.Nodup.of_map Prod.fst ?_
    rw [List.map_map]
    refine h.sublist (map_filterMap_sublist (fun e o he => ?_) allEncoded)
    obtain ⟨data, -, rfl⟩ := Option.map_eq_some_iff.mp he
    rfl
  · -- the rounds differ in the index
    refine List.nodup_range.imp fun {k k'} hne => ?_
    rw [Function.onFun, List.disjoint_left]
    intro pos hpos hpos'
    obtain ⟨o, ho, rfl⟩ := List.mem_map.mp hpos
    obtain ⟨o', ho', heq⟩ := List.mem_map.mp hpos'
    refine hne ?_
    rw [← hround k o ho, ← hround k' o' ho']
    exact (congrArg Prod.snd heq).symm

theorem map_fst_encodeBlocks (Q : RaptorQ) (enc : FecEncoder) (group : List (ℕ × Bytes)) :
    (encodeBlocks Q enc group).map Prod.fst = group.map Prod.fst := by
  rw [encodeBlocks, List.map_map]
  rfl

theorem mem_symbolsOf {Q : RaptorQ} {enc : FecEncoder} {groups : List (List (ℕ × Bytes))}
    {o : SymbolOut} (h : o ∈ symbolsOf Q enc groups) :
    ∃ group ∈ groups, o.blockId ∈ group.map Prod.fst := by
  obtain ⟨group, hgroup, ho⟩ := List.mem_flatMap.mp h
  obtain ⟨entry, hentry, hid, -⟩ := mem_interleave.mp ho
  refine ⟨group, hgroup, ?_⟩
  rw [← hid, ← map_fst_encodeBlocks Q enc group]
  exact List.mem_map_of_mem hentry

/-- **No position comes twice** in a transfer whose groups hold every block once. -/
theorem nodup_positions {Q : RaptorQ} {enc : FecEncoder} {groups : List (List (ℕ × Bytes))}
    (h : (groups.flatten.map Prod.fst).Nodup) :
    ((symbolsOf Q enc groups).map position).Nodup := by
  induction groups with
  | nil => exact List.nodup_nil
  | cons group groups ih =>
      rw [List.flatten_cons, List.map_append, List.nodup_append'] at h
      obtain ⟨hgroup, hgroups, hdisjoint⟩ := h
      rw [symbolsOf, List.flatMap_cons, List.map_append, List.nodup_append']
      refine ⟨nodup_positions_interleave (by rwa [map_fst_encodeBlocks]), ih hgroups, ?_⟩
      rw [List.disjoint_left] at hdisjoint ⊢
      intro pos hpos hpos'
      obtain ⟨o, ho, rfl⟩ := List.mem_map.mp hpos
      obtain ⟨o', ho', heq⟩ := List.mem_map.mp hpos'
      have hid : o'.blockId = o.blockId := congrArg Prod.fst heq
      obtain ⟨entry, hentry, hentryId, -⟩ := mem_interleave.mp ho
      obtain ⟨later, hlater, hmem⟩ := mem_symbolsOf ho'
      refine hdisjoint (a := o.blockId) ?_ ?_
      · rw [← hentryId, ← map_fst_encodeBlocks Q enc group]
        exact List.mem_map_of_mem hentry
      · rw [hid] at hmem
        obtain ⟨block, hblock, hblockId⟩ := List.mem_map.mp hmem
        exact List.mem_map.mpr ⟨block, List.mem_flatten.mpr ⟨later, hlater, hblock⟩, hblockId⟩

/-- The reader puts every block into at most one group. -/
theorem nodup_reader (hb : 0 < e.blockSize) (hS : S.length < 2 ^ 63) (skip : List ℕ) {T : ℕ}
    (hT : T ≤ Blocks.count S.length e.blockSize) :
    ((reader C e S skip T).1.flatten.map Prod.fst).Nodup := by
  unfold reader
  split
  · exact List.nodup_nil
  · obtain ⟨upto, -, -, hread, -⟩ :=
      readLoop_ok (C := C) hb hS skip hT T (cursorAt_start e S) (Nat.zero_le T)
    rw [hread.map_fst]
    exact List.Nodup.filter _ List.nodup_range'

/-! ## A successful call -/

/-- What a successful call has done. -/
theorem sendFileInner_eq_ok {file : SourceFile} {sharedKey : Bytes} {sessionId : UInt32}
    {rng : ℕ → Vector UInt8 4} {doneAt : UInt64} {result : SendResult}
    (h : (e.sendFileInner C file sharedKey sessionId skip rng doneAt).2 = .ok result) :
    ∃ T, countBlocks file.bytes.length e.blockSize = .ok T ∧
      (sendGroups C (e.initialSender sharedKey sessionId rng)
        (reader C e file.bytes skip T).1 0 0).2.2
          = .ok (result.totalBytesSent, result.totalPacketsSent) ∧
      (e.sendFileInner C file sharedKey sessionId skip rng doneAt).1 =
        (sendGroups C (e.initialSender sharedKey sessionId rng)
          (reader C e file.bytes skip T).1 0 0).2.1 ++
        ((sendGroups C (e.initialSender sharedKey sessionId rng)
          (reader C e file.bytes skip T).1 0 0).1.sendDone doneAt).2 := by
  unfold sendFileInner at h ⊢
  cases hT : countBlocks file.bytes.length e.blockSize with
  | error fault =>
      rw [hT] at h
      cases h
  | ok T =>
      rw [hT] at h
      dsimp only at h ⊢
      split at h
      · cases h
      · next hskip =>
          rw [if_neg hskip]
          refine ⟨T, rfl, ?_⟩
          split at h
          · cases h
          · cases h
          · cases h
          · cases h
          · next bytes packets hsent hread =>
              obtain rfl := Except.ok.inj h
              exact ⟨hsent, rfl⟩

/-- The symbols of a transfer have positions that fit their header fields. -/
theorem bounds_of_mem_symbolsOf {Q : RaptorQ} {enc : FecEncoder}
    {groups : List (List (ℕ × Bytes))} (hids : ∀ block ∈ groups.flatten, block.1 < 2 ^ 32)
    (hfew : (symbolsOf Q enc groups).length < 2 ^ 32) {o : SymbolOut}
    (h : o ∈ symbolsOf Q enc groups) : o.blockId < 2 ^ 32 ∧ o.symIdx < 2 ^ 32 := by
  obtain ⟨group, hgroup, ho⟩ := List.mem_flatMap.mp h
  have hle : (interleave (encodeBlocks Q enc group)).length ≤ (symbolsOf Q enc groups).length := by
    rw [symbolsOf, List.length_flatMap]
    exact List.le_sum_of_mem (List.mem_map_of_mem (f := fun g =>
      (interleave (encodeBlocks Q enc g)).length) hgroup)
  rw [length_interleave] at hle
  refine bounds_of_mem_interleave ho (fun entry hentry => ?_) (by omega)
  obtain ⟨block, hblock, rfl⟩ := List.mem_map.mp hentry
  exact hids block (List.mem_flatten.mpr ⟨group, hgroup, hblock⟩)

/-- The header of each symbol, numbered from zero. -/
def headersOf (session : UInt32) (os : List SymbolOut) : List PacketHeader :=
  os.mapIdx fun k o => packetHeader session (UInt32.ofNat k) o

theorem getElem_headersOf (session : UInt32) (os : List SymbolOut) (k : ℕ)
    (h : k < (headersOf session os).length) (hk : k < os.length) :
    (headersOf session os)[k] = packetHeader session (UInt32.ofNat k) os[k] := by
  simp [headersOf]

theorem seqNums_headersOf (session : UInt32) {os : List SymbolOut} (h : os.length < 2 ^ 32) :
    (headersOf session os).map (fun header => header.seqNum.toNat) = List.range os.length := by
  apply List.ext_getElem
  · simp [headersOf]
  · intro k hk _
    have hk' : k < os.length := by simpa [headersOf] using hk
    have hnum : (UInt32.ofNat k).toNat = k := UInt32.toNat_ofNat_of_lt' (show k < 2 ^ 32 by omega)
    simpa [headersOf, packetHeader] using hnum

theorem positions_headersOf (session : UInt32) (os : List SymbolOut) :
    (headersOf session os).map (fun header => (header.blockId, header.symbolId))
      = (os.map position).map fun pos => (UInt32.ofNat pos.1, UInt32.ofNat pos.2) := by
  apply List.ext_getElem
  · simp [headersOf]
  · intro k _ _
    simp [headersOf, packetHeader, position]

/-- **Every transfer is numbered and accounted for.** The datagrams of a successful call are data
packets, numbered consecutively from zero over all groups, and then the "done" signals with the next
number. No two data packets have the same block and symbol id, and the result counts exactly the
data packets and their bytes. -/
theorem transfer_accounted (hA : C.aead.Correct) {file : SourceFile} {sharedKey : Bytes}
    {sessionId : UInt32} {rng : ℕ → Vector UInt8 4} {doneAt : UInt64} {result : SendResult}
    (hok : (e.sendFileInner C file sharedKey sessionId skip rng doneAt).2 = .ok result)
    (hfew : result.totalPacketsSent < 2 ^ 32) :
    ∃ (data done : List Bytes) (headers : List PacketHeader),
      (e.sendFileInner C file sharedKey sessionId skip rng doneAt).1 = data ++ done ∧
      data.length = result.totalPacketsSent ∧
      (data.map List.length).sum = result.totalBytesSent ∧
      List.Forall₂ (fun pkt header => ∃ payload, parsePacket sessionId pkt = .ok (header, payload))
        data headers ∧
      (∀ header ∈ headers, header.packetType = .data) ∧
      headers.map (fun header => header.seqNum.toNat) = List.range data.length ∧
      (headers.map fun header => (header.blockId, header.symbolId)).Nodup ∧
      ∀ pkt ∈ done, ∃ header, parsePacket sessionId pkt = .ok (header, []) ∧
        header.packetType = .done ∧ header.seqNum.toNat = data.length := by
  obtain ⟨T, hT, hsent, hdatagrams⟩ := sendFileInner_eq_ok hok
  obtain ⟨hb, -, hTeq⟩ := countBlocks_ok hT
  obtain ⟨hnum, hseq, hpackets, hbytes⟩ := numbered_sendGroups hA _ hsent
  set sent := sendGroups C (e.initialSender sharedKey sessionId rng)
    (reader C e file.bytes skip T).1 0 0
  set symbols := symbolsOf C.raptorq (e.initialSender sharedKey sessionId rng).fecEncoder
    (reader C e file.bytes skip T).1
  rw [Nat.zero_add] at hpackets hbytes
  have hlen : symbols.length < 2 ^ 32 := by
    rw [← hnum.1, ← hpackets]
    exact hfew
  refine ⟨_, _, headersOf sessionId symbols, hdatagrams, hpackets.symm, hbytes.symm, ?_, ?_, ?_, ?_,
    ?_⟩
  · -- each datagram is read as its symbol
    rw [List.forall₂_iff_get]
    refine ⟨by rw [hnum.1, headersOf, List.length_mapIdx], fun k hk _ => ?_⟩
    have hk' : k < symbols.length := hnum.1 ▸ hk
    obtain ⟨pkt, hpkt, payload, hparse, -⟩ := hnum.2 k symbols[k] (List.getElem?_eq_getElem hk')
    obtain rfl : sent.2.1.get ⟨k, hk⟩ = pkt :=
      Option.some.inj ((List.getElem?_eq_getElem hk).symm.trans hpkt)
    have hzero : (e.initialSender sharedKey sessionId rng).seqNum + UInt32.ofNat k
        = UInt32.ofNat k := UInt32.zero_add _
    rw [hzero] at hparse
    refine ⟨payload, hparse.trans ?_⟩
    rw [List.get_eq_getElem, getElem_headersOf _ _ _ _ hk']
    rfl
  · intro header hheader
    obtain ⟨k, o, -, rfl⟩ := List.mem_mapIdx.mp hheader
    rfl
  · rw [seqNums_headersOf sessionId hlen, hnum.1]
  · -- positions that fit their fields are not confused
    rw [positions_headersOf]
    have hids : ∀ block ∈ (reader C e file.bytes skip T).1.flatten, block.1 < 2 ^ 32 := by
      intro block hblock
      have hlt := (reader_sound hb file.length_lt (hTeq ▸ Nat.mod_le _ _) hblock).1
      have := Nat.mod_lt (Blocks.count file.bytes.length e.blockSize) (show 0 < 2 ^ 32 by norm_num)
      omega
    have hfits : ∀ pos ∈ symbols.map position, pos.1 < 2 ^ 32 ∧ pos.2 < 2 ^ 32 := by
      intro pos hpos
      obtain ⟨o, ho, rfl⟩ := List.mem_map.mp hpos
      exact bounds_of_mem_symbolsOf hids hlen ho
    refine List.Nodup.map_on (fun pos hpos pos' hpos' heq => ?_)
      (nodup_positions (nodup_reader hb file.length_lt skip (hTeq ▸ Nat.mod_le _ _)))
    obtain ⟨h1, h2⟩ := Prod.mk.inj heq
    obtain ⟨hblock, hsymbol⟩ := hfits pos hpos
    obtain ⟨hblock', hsymbol'⟩ := hfits pos' hpos'
    have hb1 := congrArg UInt32.toNat h1
    have hb2 := congrArg UInt32.toNat h2
    rw [UInt32.toNat_ofNat_of_lt' hblock, UInt32.toNat_ofNat_of_lt' hblock'] at hb1
    rw [UInt32.toNat_ofNat_of_lt' hsymbol, UInt32.toNat_ofNat_of_lt' hsymbol'] at hb2
    exact Prod.ext hb1 hb2
  · intro pkt hpkt
    obtain ⟨-, rfl⟩ := List.mem_replicate.mp hpkt
    have hsession : sent.1.sessionId = sessionId := (sendGroups_frame _ _ 0 0).1
    refine ⟨_, parsePacket_frame rfl hsession, rfl, ?_⟩
    have hnext : sent.1.seqNum = UInt32.ofNat sent.2.1.length := hseq.trans (UInt32.zero_add _)
    have hfits : sent.2.1.length < 2 ^ 32 := by
      rw [hnum.1]
      exact hlen
    dsimp only
    rw [hnext, UInt32.toNat_ofNat_of_lt' hfits]

/-- Two blocks of two packets each. -/
theorem transfer_accounted_small : ∃ data done,
    (Small.engine.sendFileInner PlainCrates.plainCrates Small.file Small.params.sharedKey 9 []
      Small.rng 0).1 = data ++ done ∧ data.length = 4 ∧ (data.map List.length).sum = 274 := by
  have hok : (Small.engine.sendFileInner PlainCrates.plainCrates Small.file Small.params.sharedKey 9
      [] Small.rng 0).2 = .ok
        { fileSize := 5, totalBytesSent := 274, totalPacketsSent := 4,
          fileHash := PlainCrates.plainCrates.blake3 Small.file.bytes } := by
    decide +kernel
  obtain ⟨data, done, -, hdatagrams, hlen, hbytes, -⟩ :=
    transfer_accounted PlainCrates.aead_correct hok (by decide)
  exact ⟨data, done, hdatagrams, hlen, hbytes⟩

end SendEngine

end Updown
