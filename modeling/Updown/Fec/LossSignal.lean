import Updown.Fec.CountingCodec

set_option autoImplicit false

/-! # The loss signal

The receiver reads the loss of a block out of the number of packets its decoder took
(`FecDecoder::add_packet`, `fec/mod.rs`): what goes beyond the source symbols counts as lost.
Without any loss that number is right exactly if the decoder counts as many source symbols as the
codec makes (`noPhantomLoss_iff`). With loss, it hardly depends on the loss at all: packets that
were dropped are not fed, so they are not counted (`dropsShow_iff`), while packets that arrive twice
are (`duplicatesHarmless_iff`).
-/

namespace Updown

open FecDecoder
open scoped List

variable {Q : RaptorQ}

/-- The packets sent for a block. -/
def sentPackets (Q : RaptorQ) (ratio : ℚ) (data : Bytes) : List Q.Packet :=
  ((FecEncoder.new ratio).encode Q data).1

/-- What a new decoder for the block makes of packets. -/
def decodeBlock (Q : RaptorQ) (data : Bytes) (ps : List Q.Packet) : Option (Bytes × DecodeStats) :=
  (FecDecoder.new Q data.length SYMBOL_SIZE).firstDecoded ps

/-- All packets arrive in order, and the statistics show no loss. -/
def NoPhantomLoss (Q : RaptorQ) (ratio : ℚ) (data : Bytes) : Prop :=
  ∃ out st, decodeBlock Q data (sentPackets Q ratio data) = some (out, st) ∧
    st.excessSymbols = 0 ∧ st.packetsNeeded = st.sourceSymbols ∧ st.estimatedLoss = 0

/-- The statistics show a loss, and raise an estimate of zero. -/
def Shows (st : DecodeStats) : Prop :=
  0 < st.excessSymbols ∧ 0 < st.estimatedLoss ∧
    ∀ a : AdaptiveFec, 0 < a.alpha → a.lossEstimate = 0 → 0 < (a.update st).lossEstimate

/-- Of the packets sent up to the one that completes the block some did not arrive, the others did
in order: the statistics show it. -/
def DropsShow (Q : RaptorQ) (ratio : ℚ) (data : Bytes) : Prop :=
  ∀ pre q earlier later out st, sentPackets Q ratio data = earlier ++ q :: later →
    pre ++ [q] <+ sentPackets Q ratio data → (∃ p ∈ earlier, p ∉ pre) →
    decodeBlock Q data pre = none → decodeBlock Q data (pre ++ [q]) = some (out, st) → Shows st

/-- A packet that arrives again changes nothing in the statistics. -/
def DuplicatesHarmless (Q : RaptorQ) (ratio : ℚ) (data : Bytes) : Prop :=
  ∀ pre p post, pre ++ post <+ sentPackets Q ratio data → p ∈ pre →
    (decodeBlock Q data (pre ++ p :: post)).map Prod.snd
      = (decodeBlock Q data (pre ++ post)).map Prod.snd

/-! ## The packets of a block -/

theorem isPacketOf_sent {ratio : ℚ} {data : Bytes} {p : Q.Packet}
    (h : p ∈ sentPackets Q ratio data) : Q.IsPacketOf data p :=
  FecEncoder.isPacketOf_encode rfl h

theorem sentPackets_of_one {ratio : ℚ} {data : Bytes} {be : Q.BlockEncoder}
    (hbe : Q.blockEncoders data SYMBOL_SIZE = [be]) :
    sentPackets Q ratio data = Q.sourcePackets be ++
      Q.repairPackets be 0 ((FecEncoder.new ratio).numRepair (Q.sourcePackets be).length) := by
  rw [sentPackets, FecEncoder.encode]
  dsimp only
  rw [show (FecEncoder.new ratio).symbolSize = SYMBOL_SIZE from rfl, hbe, List.flatMap_singleton]

theorem flatMap_sublist {α β : Type} (f g : α → List β) (l : List α) :
    l.flatMap f <+ l.flatMap fun a => f a ++ g a := by
  induction l with
  | nil => exact List.Sublist.refl []
  | cons a l ih =>
      rw [List.flatMap_cons, List.flatMap_cons]
      exact (List.sublist_append_left (f a) (g a)).append ih

/-- The source packets of all source blocks. -/
def allSource (Q : RaptorQ) (data : Bytes) : List Q.Packet :=
  (Q.blockEncoders data SYMBOL_SIZE).flatMap Q.sourcePackets

theorem allSource_sublist (ratio : ℚ) (data : Bytes) :
    allSource Q data <+ sentPackets Q ratio data :=
  flatMap_sublist _ _ _

theorem numRepair_eq_zero_iff {ratio : ℚ} {k : ℕ} (hk : 0 < k) :
    (FecEncoder.new ratio).numRepair k = 0 ↔ ratio ≤ 0 := by
  have hpos : (0 : ℚ) < k := by exact_mod_cast hk
  rw [FecEncoder.numRepair, FecEncoder.new, Int.toNat_eq_zero, Int.ceil_le, Int.cast_zero]
  constructor
  · intro h
    exact nonpos_of_mul_nonpos_right h hpos
  · intro h
    exact mul_nonpos_of_nonneg_of_nonpos hpos.le h

/-- Packets that complete a block have as many distinct ones as it has source symbols. -/
theorem hasDistinct_of_completes (hQ : Q.Counted) {ratio : ℚ} {data : Bytes}
    {ps pre post : List Q.Packet} {q : Q.Packet} (hps : ∀ p ∈ ps, p ∈ sentPackets Q ratio data)
    (hsplit : ps = pre ++ q :: post)
    (hcompletes : Q.Completes data.length pre q) :
    HasDistinct (realSymbols data.length) (pre ++ [q]) := by
  have hsub := subset_of_split hsplit
  exact hQ.decode_needs (fun p hp => isPacketOf_sent (hps p (hsub hp))) hcompletes

/-- The source packets of a block are decoded by the last of them. -/
theorem completes_source (hQ : Q.Counted) {data : Bytes} (hne : data ≠ []) :
    ∃ pre q, allSource Q data = pre ++ [q] ∧ Q.Undecoded data.length pre ∧
      Q.Completes data.length pre q ∧ pre.length + 1 = realSymbols data.length := by
  have hpackets : ∀ q ∈ allSource Q data, Q.IsPacketOf data q :=
    fun q hq => isPacketOf_sent ((allSource_sublist 0 data).subset hq)
  have hlen : (allSource Q data).length = realSymbols data.length := hQ.source_total hne
  have hpos : 0 < realSymbols data.length :=
    Blocks.count_pos (by decide) (List.length_pos_iff.mpr hne)
  obtain ⟨pre, q, hsplit⟩ : ∃ pre q, allSource Q data = pre ++ [q] := by
    rcases List.eq_nil_or_concat (allSource Q data) with hnil | ⟨pre, q, hconcat⟩
    · rw [hnil, List.length_nil] at hlen
      omega
    · exact ⟨pre, q, by rw [hconcat, List.concat_eq_append]⟩
  have hall := hQ.decode_source hne hpackets fun be hbe q hq => List.mem_flatMap.mpr ⟨be, hbe, hq⟩
  rw [hsplit] at hpackets hall hlen
  rw [List.length_append, List.length_singleton] at hlen
  obtain ⟨hund, hcompletes⟩ := hQ.completes_last hpackets hlen hall
  exact ⟨pre, q, hsplit, hund, hcompletes, hlen⟩

/-! ## No loss -/

@[simp] theorem statsAt_sourceSymbols (len n : ℕ) :
    (statsAt len n).sourceSymbols = countedSymbols len := rfl

@[simp] theorem statsAt_packetsNeeded (len n : ℕ) : (statsAt len n).packetsNeeded = n := rfl

@[simp] theorem statsAt_excessSymbols (len n : ℕ) :
    (statsAt len n).excessSymbols = n - countedSymbols len := rfl

/-- A block that arrives without loss is not decoded from fewer packets than it has source
symbols. -/
theorem realSymbols_le_packetsNeeded (hQ : Q.Counted) {ratio : ℚ} {data out : Bytes}
    {st : DecodeStats} (h : decodeBlock Q data (sentPackets Q ratio data) = some (out, st)) :
    st.sourceSymbols = countedSymbols data.length ∧
      realSymbols data.length ≤ st.packetsNeeded := by
  obtain ⟨pre, q, post, hsent, -, hcompletes, rfl⟩ := (firstDecoded_eq_some_iff _).mp ⟨out, h⟩
  have hneeds := (hasDistinct_of_completes hQ (fun p hp => hp) hsent hcompletes).le_length
  rw [List.length_append, List.length_singleton] at hneeds
  exact ⟨rfl, hneeds⟩

/-- **When there is no phantom loss**: exactly for the blocks of whose length the decoder makes as
many symbols as the codec. -/
theorem noPhantomLoss_iff (hQ : Q.Counted) (ratio : ℚ) {data : Bytes} (hne : data ≠ []) :
    NoPhantomLoss Q ratio data ↔
      Blocks.count data.length (alignedSize SYMBOL_SIZE) = Blocks.count data.length SYMBOL_SIZE := by
  have hle := countedSymbols_le data.length
  constructor
  · rintro ⟨out, st, hdecode, -, hneeded, -⟩
    obtain ⟨hsource, hneeds⟩ := realSymbols_le_packetsNeeded hQ hdecode
    rw [hneeded, hsource] at hneeds
    exact le_antisymm hneeds hle
  · intro heq
    obtain ⟨pre, q, hsource, hund, hcompletes, hlen⟩ := completes_source hQ hne
    obtain ⟨be, hbe⟩ := hQ.one_block hne (realSymbols_le heq)
    have hsent : ∃ post, sentPackets Q ratio data = pre ++ q :: post := by
      rw [sentPackets_of_one hbe]
      have hbe' : Q.sourcePackets be = pre ++ [q] := by
        rw [← hsource, allSource, hbe, List.flatMap_singleton]
      rw [hbe', List.append_assoc]
      exact ⟨_, rfl⟩
    obtain ⟨post, hsent⟩ := hsent
    obtain ⟨out, hdecode⟩ :=
      (firstDecoded_eq_some_iff _).mpr ⟨pre, q, post, hsent, hund, hcompletes, rfl⟩
    have hcounted : pre.length + 1 = countedSymbols data.length := hlen.trans heq
    refine ⟨out, _, hdecode, ?_, ?_, ?_⟩
    · rw [statsAt_excessSymbols, hcounted, Nat.sub_self]
    · rw [statsAt_packetsNeeded, statsAt_sourceSymbols, hcounted]
    · have hne' : countedSymbols data.length ≠ 0 := by omega
      have hpos : (countedSymbols data.length : ℚ) ≠ 0 := by exact_mod_cast hne'
      rw [hcounted, statsAt, stats]
      dsimp only
      rw [div_self hpos, sub_self, ite_self]

/-- Of 1000 bytes both make two symbols. -/
theorem noPhantomLoss_thousand :
    NoPhantomLoss CountingCodec.raptorq (1 / 10) (List.replicate 1000 0) := by
  apply (noPhantomLoss_iff CountingCodec.anyK.toCounted (1 / 10) _).mpr
  · rw [List.length_replicate]
    decide
  · exact List.replicate_succ_ne_nil

/-- Of 900 bytes the codec makes two symbols and the decoder counts one. -/
theorem phantomLoss_nineHundred : CountingCodec.raptorq.Counted ∧
    ¬ NoPhantomLoss CountingCodec.raptorq (1 / 10) (List.replicate 900 0) := by
  refine ⟨CountingCodec.anyK.toCounted, ?_⟩
  rintro ⟨out, st, hdecode, -, hneeded, -⟩
  obtain ⟨hsource, hneeds⟩ := realSymbols_le_packetsNeeded CountingCodec.anyK.toCounted hdecode
  rw [hneeded, hsource, List.length_replicate] at hneeds
  exact absurd hneeds (by decide)

/-! ## Loss -/

theorem estimatedLoss_pos {len n : ℕ} (h : countedSymbols len < n) :
    0 < (statsAt len n).estimatedLoss := by
  have hn : (0 : ℚ) < n := by
    exact_mod_cast (Nat.zero_le _).trans_lt h
  rw [statsAt, stats]
  dsimp only
  rw [if_pos ((Nat.zero_le _).trans_lt h), sub_pos, div_lt_one hn]
  exact_mod_cast h

/-- **What the statistics show** is the number of packets fed and nothing else. -/
theorem shows_iff {len n : ℕ} : Shows (statsAt len n) ↔ countedSymbols len < n := by
  constructor
  · rintro ⟨hexcess, -⟩
    rw [statsAt_excessSymbols] at hexcess
    omega
  · intro h
    have hloss := estimatedLoss_pos h
    refine ⟨?_, hloss, fun a halpha hzero => ?_⟩
    · rw [statsAt_excessSymbols]
      omega
    · unfold AdaptiveFec.update
      dsimp only
      rw [hzero, mul_zero, add_zero, max_eq_left hloss.le]
      split
      · exact hloss
      · exact mul_pos halpha hloss

/-- Without repair packets the source packets are sent alone. -/
theorem sentPackets_of_nonpos (hQ : Q.AnyK) {ratio : ℚ} (hratio : ratio ≤ 0) (data : Bytes) :
    sentPackets Q ratio data = allSource Q data := by
  have hnone : ∀ k, (FecEncoder.new ratio).numRepair k = 0 := by
    intro k
    rcases Nat.eq_zero_or_pos k with rfl | hk
    · simp [FecEncoder.numRepair]
    · exact (numRepair_eq_zero_iff hk).mpr hratio
  rw [sentPackets, FecEncoder.encode]
  simp only [hnone, hQ.repair_zero, List.append_nil]
  rfl

/-- A packet that is not the last of distinct ones does not come again. -/
theorem mem_of_nodup_snoc {α : Type} {pre earlier later : List α} {p q : α}
    (hnodup : (earlier ++ q :: later).Nodup) (hsplit : earlier ++ q :: later = pre ++ [q])
    (hp : p ∈ earlier) : p ∈ pre := by
  have hmem : p ∈ pre ++ [q] := by
    rw [← hsplit]
    exact List.mem_append_left _ hp
  rcases List.mem_append.mp hmem with hpre | hq
  · exact hpre
  · obtain rfl := List.mem_singleton.mp hq
    exact absurd rfl ((List.nodup_append.mp hnodup).2.2 p hp p List.mem_cons_self)

/-- Where the decoder counts too few source symbols every block shows a loss, where nothing but the
source packets is sent none is decoded from fewer of them. -/
theorem dropsShow_of (hQ : Q.AnyK) {ratio : ℚ} {data : Bytes} (hne : data ≠ [])
    (h : realSymbols data.length ≠ countedSymbols data.length ∨ ratio ≤ 0) :
    DropsShow Q ratio data := by
  intro pre q earlier later out st hsent hsub hdropped _ hdecode
  obtain ⟨pre', q', post, hsplit, -, hcompletes, rfl⟩ :=
    (firstDecoded_eq_some_iff _).mp ⟨out, hdecode⟩
  have hneeds := (hasDistinct_of_completes hQ.toCounted (fun p hp => hsub.subset hp) hsplit
    hcompletes).le_length
  rw [List.length_append, List.length_singleton] at hneeds
  rw [shows_iff]
  rcases h with hcounts | hratio
  · have hle := countedSymbols_le data.length
    omega
  · -- all source packets have been fed, so none was dropped
    exfalso
    have hall := sentPackets_of_nonpos hQ hratio data
    have hlen : (sentPackets Q ratio data).length = realSymbols data.length := by
      rw [hall]
      exact hQ.source_total hne
    have hfed : pre'.length + 1 ≤ (pre ++ [q]).length := by
      rw [hsplit, List.length_append, List.length_cons]
      omega
    have heq : pre ++ [q] = sentPackets Q ratio data :=
      hsub.eq_of_length_le (by omega)
    have hnodup : (sentPackets Q ratio data).Nodup := by
      rw [hall]
      exact hQ.nodup_source hne
    obtain ⟨p, hp, hlost⟩ := hdropped
    rw [hsent] at hnodup heq
    exact hlost (mem_of_nodup_snoc hnodup heq.symm hp)

/-- A repair packet in the place of the first source packet decodes a block without a trace. -/
theorem not_dropsShow (hQ : Q.AnyK) {ratio : ℚ} {data : Bytes} (hne : data ≠ [])
    (hcounts : realSymbols data.length = countedSymbols data.length) (hratio : 0 < ratio) :
    ¬ DropsShow Q ratio data := by
  intro h
  obtain ⟨be, hbe⟩ := hQ.one_block hne (realSymbols_le hcounts)
  have hlen := hQ.source_total hne
  have hnodup := hQ.nodup_source hne
  rw [hbe, List.flatMap_singleton] at hlen hnodup
  have hpos : 0 < realSymbols data.length :=
    Blocks.count_pos (by decide) (List.length_pos_iff.mpr hne)
  have hrepair : 0 < (FecEncoder.new ratio).numRepair (Q.sourcePackets be).length := by
    rw [Nat.pos_iff_ne_zero, Ne, numRepair_eq_zero_iff (by omega), not_le]
    exact hratio
  have hsent : sentPackets Q ratio data = _ := sentPackets_of_one hbe
  obtain ⟨r, rs, hr, hfresh⟩ := hQ.repair_fresh be hrepair
  rw [hr] at hsent
  obtain ⟨s, rest, hs⟩ : ∃ s rest, Q.sourcePackets be = s :: rest := by
    apply List.exists_cons_of_ne_nil
    rw [← List.length_pos_iff]
    omega
  rw [hs] at hlen hnodup hsent hfresh
  obtain ⟨hfirst, hrest⟩ := List.nodup_cons.mp hnodup
  have hsub : rest ++ [r] <+ sentPackets Q ratio data := by
    rw [hsent]
    apply (List.sublist_cons_self s rest).append
    exact (List.nil_sublist rs).cons_cons r
  have hpackets : ∀ p ∈ rest ++ [r], Q.IsPacketOf data p :=
    fun p hp => isPacketOf_sent (hsub.subset hp)
  -- the others and the repair packet are as many distinct packets as there are symbols
  have hdistinct : HasDistinct (Q.sourcePackets be).length (rest ++ [r]) := by
    have hcount : (rest ++ [r]).length = (Q.sourcePackets be).length := by
      rw [hs, List.length_append, List.length_singleton, List.length_cons]
    rw [← hcount]
    apply hasDistinct_of_nodup
    rw [← List.concat_eq_append, List.nodup_concat]
    exact ⟨fun hmem => hfresh (List.mem_cons_of_mem s hmem), hrest⟩
  rw [List.length_cons] at hlen
  obtain ⟨hund, hcompletes⟩ :=
    hQ.toCounted.completes_last hpackets hlen (hQ.decode_any hne hbe hpackets hdistinct)
  obtain ⟨out, hdecode⟩ :=
    (firstDecoded_eq_some_iff (rest ++ [r])).mpr ⟨rest, r, [], rfl, hund, hcompletes, rfl⟩
  have hshows := h rest r (s :: rest) rs out _ hsent hsub ⟨s, List.mem_cons_self, hfirst⟩
    (firstDecoded_eq_none hund) hdecode
  rw [shows_iff] at hshows
  omega

/-- **When a loss is seen**: exactly for the blocks that show one anyway, or have no repair packets
to make up for it. -/
theorem dropsShow_iff (hQ : Q.AnyK) (ratio : ℚ) {data : Bytes} (hne : data ≠ []) :
    DropsShow Q ratio data ↔
      realSymbols data.length ≠ countedSymbols data.length ∨ ratio ≤ 0 := by
  constructor
  · intro h
    by_contra hnot
    push Not at hnot
    exact not_dropsShow hQ hne hnot.1 hnot.2 h
  · exact dropsShow_of hQ hne

/-! ## Duplicates -/

/-- A block of one symbol is decoded by its first packet. -/
theorem decodeBlock_of_one (hQ : Q.AnyK) {ratio : ℚ} {data : Bytes} (hne : data ≠ [])
    (hone : realSymbols data.length = 1) {p : Q.Packet} (hp : p ∈ sentPackets Q ratio data)
    (ps : List Q.Packet) :
    (decodeBlock Q data (p :: ps)).map Prod.snd = some (statsAt data.length 1) := by
  obtain ⟨be, hbe⟩ := hQ.one_block hne (hone.le.trans (by decide))
  have hlen := hQ.source_total hne
  rw [hbe, List.flatMap_singleton, hone] at hlen
  have hpackets : ∀ q ∈ [p], Q.IsPacketOf data q := by
    intro q hq
    obtain rfl := List.mem_singleton.mp hq
    exact isPacketOf_sent hp
  have hdistinct : HasDistinct (Q.sourcePackets be).length [p] := by
    rw [hlen]
    exact hasDistinct_of_nodup (List.nodup_singleton p)
  obtain ⟨hund, hcompletes⟩ : Q.Undecoded data.length [] ∧ Q.Completes data.length [] p :=
    hQ.toCounted.completes_last hpackets hone.symm (hQ.decode_any hne hbe hpackets hdistinct)
  obtain ⟨out, hdecode⟩ :=
    (firstDecoded_eq_some_iff (p :: ps)).mpr ⟨[], p, ps, rfl, hund, hcompletes, rfl⟩
  rw [decodeBlock, hdecode]
  rfl

/-- A packet that arrives again before the last one puts it off. -/
theorem not_duplicatesHarmless (hQ : Q.AnyK) (ratio : ℚ) {data : Bytes} (hne : data ≠ [])
    (hmany : 1 < realSymbols data.length) : ¬ DuplicatesHarmless Q ratio data := by
  intro h
  obtain ⟨pre, q, hsource, hund, hcompletes, hlen⟩ := completes_source hQ.toCounted hne
  obtain ⟨p, rest, rfl⟩ : ∃ p rest, pre = p :: rest := by
    apply List.exists_cons_of_ne_nil
    rw [← List.length_pos_iff]
    omega
  have hsub : p :: rest ++ [q] <+ sentPackets Q ratio data := by
    rw [← hsource]
    exact allSource_sublist ratio data
  obtain ⟨out, hdecode⟩ :=
    (firstDecoded_eq_some_iff (p :: rest ++ [q])).mpr ⟨p :: rest, q, [], rfl, hund, hcompletes, rfl⟩
  have hsame := h (p :: rest) p [q] hsub List.mem_cons_self
  rw [decodeBlock, decodeBlock, hdecode, Option.map_some, Option.map_eq_some_iff] at hsame
  obtain ⟨⟨out', st⟩, hdecode', hst⟩ := hsame
  obtain ⟨pre', q', post', hsplit, -, hcompletes', hst'⟩ :=
    (firstDecoded_eq_some_iff _).mp ⟨out', hdecode'⟩
  -- by the same count the block would be decoded without its last packet
  have hcount : pre'.length + 1 = (p :: rest).length + 1 := by
    have hneeded := congrArg DecodeStats.packetsNeeded (hst'.symm.trans hst)
    exact hneeded
  have hfed : pre' ++ [q'] = p :: rest ++ [p] := by
    have htaken : pre' ++ [q'] ++ post' = p :: rest ++ [p] ++ [q] := by
      rw [List.append_assoc, List.singleton_append, ← hsplit, List.append_assoc]
      rfl
    exact (List.append_inj htaken (by simpa using hcount)).1
  have hdistinct : HasDistinct (realSymbols data.length) (p :: rest ++ [p]) := by
    rw [← hfed]
    refine hasDistinct_of_completes hQ.toCounted (fun r hr => hsub.subset ?_) hsplit hcompletes'
    rcases List.mem_append.mp hr with hr | hr
    · exact List.mem_append_left [q] hr
    · rcases List.mem_cons.mp hr with rfl | hr
      · exact List.mem_cons_self
      · exact List.mem_append_right (p :: rest) hr
  have htwice : p :: rest ++ [p] ⊆ p :: rest := by
    apply List.append_subset.mpr
    exact ⟨List.Subset.refl _, List.cons_subset.mpr ⟨List.mem_cons_self, List.nil_subset _⟩⟩
  have hle := (hdistinct.mono htwice).le_length
  omega

/-- **When duplicates are harmless**: exactly for the blocks of one symbol. -/
theorem duplicatesHarmless_iff (hQ : Q.AnyK) (ratio : ℚ) {data : Bytes} (hne : data ≠ []) :
    DuplicatesHarmless Q ratio data ↔ realSymbols data.length = 1 := by
  have hpos : 0 < realSymbols data.length :=
    Blocks.count_pos (by decide) (List.length_pos_iff.mpr hne)
  constructor
  · intro h
    by_contra hnot
    exact not_duplicatesHarmless hQ ratio hne (by omega) h
  · intro hone pre p post hsub hp
    obtain ⟨first, rest, rfl⟩ := List.exists_cons_of_ne_nil (List.ne_nil_of_mem hp)
    have hfirst : first ∈ sentPackets Q ratio data := hsub.subset List.mem_cons_self
    rw [List.cons_append, List.cons_append, decodeBlock_of_one hQ hne hone hfirst,
      decodeBlock_of_one hQ hne hone hfirst]

/-! ## Both -/

/-- The loss estimate follows the loss: drops show in the statistics and duplicates do not. -/
def LossVisible (Q : RaptorQ) (ratio : ℚ) (data : Bytes) : Prop :=
  DropsShow Q ratio data ∧ DuplicatesHarmless Q ratio data

theorem realSymbols_eq_one_iff {n : ℕ} (hn : 0 < n) : realSymbols n = 1 ↔ n ≤ 896 := by
  have hpos : 0 < realSymbols n := Blocks.count_pos (by decide) hn
  have hmany : 1 < realSymbols n ↔ 1 * 896 < n := Blocks.lt_count_iff (by decide) 1
  omega

theorem countedSymbols_eq_one {n : ℕ} (hn : 0 < n) (h : realSymbols n = 1) :
    countedSymbols n = 1 := by
  have hpos : 0 < countedSymbols n := Blocks.count_pos (by decide) hn
  have hle := countedSymbols_le n
  omega

/-- **When loss is visible**: exactly for the blocks of one symbol that no repair packets go
with. -/
theorem lossVisible_iff (hQ : Q.AnyK) (ratio : ℚ) {data : Bytes} (hne : data ≠ []) :
    LossVisible Q ratio data ↔ data.length ≤ 896 ∧ ratio ≤ 0 := by
  have hpos : 0 < data.length := List.length_pos_iff.mpr hne
  rw [LossVisible, dropsShow_iff hQ ratio hne, duplicatesHarmless_iff hQ ratio hne,
    ← realSymbols_eq_one_iff hpos]
  constructor
  · rintro ⟨hcounts | hratio, hone⟩
    · exact absurd (hone.trans (countedSymbols_eq_one hpos hone).symm) hcounts
    · exact ⟨hone, hratio⟩
  · rintro ⟨hone, hratio⟩
    exact ⟨Or.inr hratio, hone⟩

/-- 500 bytes are one symbol. -/
theorem lossVisible_fiveHundred :
    LossVisible CountingCodec.raptorq 0 (List.replicate 500 0) := by
  apply (lossVisible_iff CountingCodec.anyK 0 _).mpr
  · rw [List.length_replicate]
    exact ⟨by decide, le_refl 0⟩
  · exact List.replicate_succ_ne_nil

/-- Of the two symbols of 1000 bytes one is lost without a trace, and one that comes twice shows. -/
theorem loss_not_visible_thousand : CountingCodec.raptorq.AnyK ∧
    ¬ DropsShow CountingCodec.raptorq (1 / 10) (List.replicate 1000 0) ∧
      ¬ DuplicatesHarmless CountingCodec.raptorq (1 / 10) (List.replicate 1000 0) := by
  have hne : List.replicate 1000 (0 : UInt8) ≠ [] := List.replicate_succ_ne_nil
  refine ⟨CountingCodec.anyK, not_dropsShow CountingCodec.anyK hne ?_ (by norm_num),
    not_duplicatesHarmless CountingCodec.anyK (1 / 10) hne ?_⟩
  · rw [List.length_replicate]
    decide
  · rw [List.length_replicate]
    decide

end Updown
