import Mathlib.Data.List.Perm.Subperm
import Updown.Fec.Codec
import Updown.Lib.Blocks

set_option autoImplicit false

/-! # Counting symbols

What the code relies on when it reads a loss out of the number of packets a decoder took
(`RaptorQ.Counted`, `RaptorQ.AnyK`): how many source symbols the codec makes of data, and how many
of its packets it takes to decode them. `firstDecoded` feeds packets to a decoder until it returns a
block; `firstDecoded_eq_some_iff` says after which of them that is.
-/

namespace Updown

/-- `with_defaults` rounds the packet size down to a multiple of the alignment 8. -/
def alignedSize (symbolSize : ℕ) : ℕ := symbolSize - symbolSize % 8

/-- The source symbols of `n` bytes. -/
def realSymbols (n : ℕ) : ℕ := Blocks.count n (alignedSize SYMBOL_SIZE)

/-- The source symbols of `n` bytes as the decoder counts them. -/
def countedSymbols (n : ℕ) : ℕ := Blocks.count n SYMBOL_SIZE

/-- The most symbols of a source block. -/
def MAX_SOURCE_SYMBOLS : ℕ := 56403

/-! ## Distinct packets -/

section

variable {α : Type}

/-- `k` of the items are distinct. -/
def HasDistinct (k : ℕ) (ps : List α) : Prop := ∃ l : List α, l.Nodup ∧ l ⊆ ps ∧ l.length = k

theorem HasDistinct.le_length {k : ℕ} {ps : List α} (h : HasDistinct k ps) : k ≤ ps.length := by
  obtain ⟨l, hnodup, hsub, rfl⟩ := h
  exact (List.subperm_of_subset hnodup hsub).length_le

/-- What is there twice does not count twice. -/
theorem HasDistinct.mono {k : ℕ} {ps ps' : List α} (h : HasDistinct k ps) (hsub : ps ⊆ ps') :
    HasDistinct k ps' := by
  obtain ⟨l, hnodup, hl, hlen⟩ := h
  exact ⟨l, hnodup, List.Subset.trans hl hsub, hlen⟩

theorem hasDistinct_of_nodup {ps : List α} (h : ps.Nodup) : HasDistinct ps.length ps :=
  ⟨ps, h, fun _ hp => hp, rfl⟩

theorem hasDistinct_iff [DecidableEq α] {k : ℕ} {ps : List α} :
    HasDistinct k ps ↔ k ≤ ps.dedup.length := by
  constructor
  · rintro ⟨l, hnodup, hsub, rfl⟩
    apply List.Subperm.length_le
    exact List.subperm_of_subset hnodup fun p hp => List.mem_dedup.mpr (hsub hp)
  · intro h
    refine ⟨ps.dedup.take k, ps.nodup_dedup.sublist (List.take_sublist k _), fun p hp => ?_, ?_⟩
    · exact List.mem_dedup.mp (List.mem_of_mem_take hp)
    · rw [List.length_take, min_eq_left h]

/-- What a list is split at is in it, with all before. -/
theorem subset_of_split {ps pre post : List α} {q : α} (h : ps = pre ++ q :: post) :
    pre ++ [q] ⊆ ps := by
  rw [h, List.append_cons pre q post]
  exact List.subset_append_left _ post

end

/-! ## What the codec does -/

namespace RaptorQ

variable (Q : RaptorQ)

/-- The packet `q` after the packets `ps` completes `len` bytes. -/
def Completes (len : ℕ) (ps : List Q.Packet) (q : Q.Packet) : Prop :=
  (Q.decode (Q.feed (Q.decoderNew len SYMBOL_SIZE) ps) q).2.isSome

/-- The codec makes symbols of the rounded size, and one source block where they fit; data is
decoded by the time all source packets have been fed, and not before as many distinct packets
have. -/
structure Counted : Prop where
  source_total : ∀ {data}, data ≠ [] →
    ((Q.blockEncoders data SYMBOL_SIZE).flatMap Q.sourcePackets).length = realSymbols data.length
  one_block : ∀ {data}, data ≠ [] → realSymbols data.length ≤ MAX_SOURCE_SYMBOLS →
    ∃ be, Q.blockEncoders data SYMBOL_SIZE = [be]
  decode_source : ∀ {data ps}, data ≠ [] → (∀ q ∈ ps, Q.IsPacketOf data q) →
    (∀ be ∈ Q.blockEncoders data SYMBOL_SIZE, ∀ q ∈ Q.sourcePackets be, q ∈ ps) →
    ∃ pre q post, ps = pre ++ q :: post ∧ Q.Completes data.length pre q
  decode_needs : ∀ {data ps q}, (∀ q' ∈ ps ++ [q], Q.IsPacketOf data q') →
    Q.Completes data.length ps q → HasDistinct (realSymbols data.length) (ps ++ [q])

/-- Moreover the source packets are distinct, the first repair packet is none of them, and a source
block is decoded by the time as many distinct packets have been fed as it has symbols. -/
structure AnyK : Prop extends Counted Q where
  nodup_source : ∀ {data}, data ≠ [] →
    ((Q.blockEncoders data SYMBOL_SIZE).flatMap Q.sourcePackets).Nodup
  repair_zero : ∀ be, Q.repairPackets be 0 0 = []
  repair_fresh : ∀ be {n}, 0 < n →
    ∃ q qs, Q.repairPackets be 0 n = q :: qs ∧ q ∉ Q.sourcePackets be
  decode_any : ∀ {data be ps}, data ≠ [] → Q.blockEncoders data SYMBOL_SIZE = [be] →
    (∀ q ∈ ps, Q.IsPacketOf data q) → HasDistinct (Q.sourcePackets be).length ps →
    ∃ pre q post, ps = pre ++ q :: post ∧ Q.Completes data.length pre q

variable {Q}

theorem undecoded_iff {len : ℕ} {ps : List Q.Packet} :
    Q.Undecoded len ps ↔ ∀ pre q post, ps = pre ++ q :: post → ¬ Q.Completes len pre q := by
  simp only [Undecoded, Completes, Option.not_isSome_iff_eq_none]

/-- Fewer packets than there are source symbols decode nothing. -/
theorem Counted.undecoded (hQ : Q.Counted) {data : Bytes} {ps : List Q.Packet}
    (hps : ∀ q ∈ ps, Q.IsPacketOf data q) (hlen : ps.length < realSymbols data.length) :
    Q.Undecoded data.length ps := by
  rw [undecoded_iff]
  intro pre q post hsplit hcompletes
  have hsub := subset_of_split hsplit
  have hle := (hQ.decode_needs (fun q' hq' => hps q' (hsub hq')) hcompletes).le_length
  rw [hsplit, List.length_append, List.length_cons] at hlen
  rw [List.length_append, List.length_singleton] at hle
  omega

/-- **As many packets as there are source symbols**, if they are decoded at all, are decoded by the
last of them. -/
theorem Counted.completes_last (hQ : Q.Counted) {data : Bytes} {ps : List Q.Packet} {q : Q.Packet}
    (hps : ∀ q' ∈ ps ++ [q], Q.IsPacketOf data q')
    (hlen : ps.length + 1 = realSymbols data.length)
    (h : ∃ pre q' post, ps ++ [q] = pre ++ q' :: post ∧ Q.Completes data.length pre q') :
    Q.Undecoded data.length ps ∧ Q.Completes data.length ps q := by
  have hund : Q.Undecoded data.length ps :=
    hQ.undecoded (fun q' hq' => hps q' (List.mem_append_left [q] hq')) (by omega)
  refine ⟨hund, ?_⟩
  obtain ⟨pre, q', post, hsplit, hcompletes⟩ := h
  rcases List.eq_nil_or_concat post with rfl | ⟨post, last, rfl⟩
  · obtain ⟨rfl, hq⟩ := List.append_inj' hsplit rfl
    obtain rfl := List.singleton_inj.mp hq
    exact hcompletes
  · rw [List.concat_eq_append, ← List.cons_append, ← List.append_assoc] at hsplit
    obtain ⟨hps', -⟩ := List.append_inj' hsplit rfl
    exact absurd hcompletes (undecoded_iff.mp hund pre q' post hps')

end RaptorQ

/-! ## Feeding a decoder -/

namespace FecDecoder

variable {Q : RaptorQ}

/-- Feed packets until one completes the block. -/
def firstDecoded : FecDecoder Q → List Q.Packet → Option (Bytes × DecodeStats)
  | _, [] => none
  | d, p :: ps =>
      match d.addPacket p with
      | (_, some decoded) => some decoded
      | (d, none) => firstDecoded d ps

/-- The decoder was set up for `len` bytes, has been fed `ps` and has counted them. -/
structure CountedWith (d : FecDecoder Q) (len : ℕ) (ps : List Q.Packet) : Prop
    extends FedWith d len ps where
  sourceSymbols_eq : d.sourceSymbols = countedSymbols len
  packetsFed_eq : d.packetsFed = ps.length

theorem countedWith_new (len : ℕ) : (new Q len SYMBOL_SIZE).CountedWith len [] :=
  ⟨fedWith_new len, rfl, rfl⟩

/-- The statistics of a block of `len` bytes that is decoded by packet `n`. -/
def statsAt (len n : ℕ) : DecodeStats := stats (countedSymbols len) n

theorem CountedWith.addPacket {d : FecDecoder Q} {len : ℕ} {ps : List Q.Packet}
    (h : d.CountedWith len ps) (p : Q.Packet) :
    (¬ Q.Completes len ps p ∧ ∃ d', d.addPacket p = (d', none) ∧ d'.CountedWith len (ps ++ [p])) ∨
      Q.Completes len ps p ∧
        ∃ data, (d.addPacket p).2 = some (data, statsAt len (ps.length + 1)) := by
  have hd : Q.decode d.decoder p = Q.decode (Q.feed (Q.decoderNew len SYMBOL_SIZE) ps) p := by
    rw [h.decoder_eq]
  unfold RaptorQ.Completes
  rw [← hd]
  cases hr : Q.decode d.decoder p with
  | mk dec out =>
      cases out with
      | none =>
          refine Or.inl ⟨by simp, { d with decoder := dec, packetsFed := d.packetsFed + 1 }, ?_, ?_⟩
          · simp [FecDecoder.addPacket, h.incomplete, hr]
          · refine ⟨⟨?_, h.incomplete⟩, h.sourceSymbols_eq, ?_⟩
            · rw [Q.feed_snoc, ← hd, hr]
            · simp [h.packetsFed_eq]
      | some data =>
          refine Or.inr ⟨rfl, data, ?_⟩
          simp [FecDecoder.addPacket, h.incomplete, hr, statsAt, h.sourceSymbols_eq,
            h.packetsFed_eq]

theorem firstDecoded_cons_none {d d' : FecDecoder Q} {p : Q.Packet}
    (h : d.addPacket p = (d', none)) (ps : List Q.Packet) :
    d.firstDecoded (p :: ps) = d'.firstDecoded ps := by
  rw [firstDecoded, h]

theorem firstDecoded_cons_some {d : FecDecoder Q} {p : Q.Packet} {decoded : Bytes × DecodeStats}
    (h : (d.addPacket p).2 = some decoded) (ps : List Q.Packet) :
    d.firstDecoded (p :: ps) = some decoded := by
  rw [firstDecoded]
  split
  · next hadd =>
      rw [hadd] at h
      exact h
  · next hadd =>
      rw [hadd] at h
      cases h

/-- What packets fed to a decoder in use give. -/
theorem CountedWith.firstDecoded_iff {len : ℕ} {st : DecodeStats} (ps : List Q.Packet) :
    ∀ {d : FecDecoder Q} {fed : List Q.Packet}, d.CountedWith len fed → Q.Undecoded len fed →
      ((∃ data, d.firstDecoded ps = some (data, st)) ↔
        ∃ pre q post, ps = pre ++ q :: post ∧ Q.Undecoded len (fed ++ pre) ∧
          Q.Completes len (fed ++ pre) q ∧ st = statsAt len ((fed ++ pre).length + 1)) := by
  induction ps with
  | nil =>
      intro d fed _ _
      simp [firstDecoded]
  | cons p ps ih =>
      intro d fed h hund
      -- the packet completes the block, or the rest starts with one packet more
      rcases h.addPacket p with ⟨hnot, d', hadd, hd'⟩ | ⟨hcompletes, data, hadd⟩
      · have hund' : Q.Undecoded len (fed ++ [p]) :=
          hund.snoc (Option.not_isSome_iff_eq_none.mp hnot)
        rw [firstDecoded_cons_none hadd, ih hd' hund']
        simp only [List.append_assoc, List.singleton_append]
        constructor
        · rintro ⟨pre, q, post, rfl, hdecoded⟩
          exact ⟨p :: pre, q, post, rfl, hdecoded⟩
        · rintro ⟨pre, q, post, hps, hdecoded⟩
          cases pre with
          | nil =>
              obtain ⟨rfl, -⟩ := List.cons.inj hps
              rw [List.append_nil] at hdecoded
              exact absurd hdecoded.2.1 hnot
          | cons p' pre =>
              obtain ⟨rfl, rfl⟩ := List.cons.inj hps
              exact ⟨pre, q, post, rfl, hdecoded⟩
      · rw [firstDecoded_cons_some hadd]
        constructor
        · rintro ⟨_, hst⟩
          obtain ⟨-, rfl⟩ := Prod.mk.inj (Option.some.inj hst)
          refine ⟨[], p, ps, rfl, ?_⟩
          rw [List.append_nil]
          exact ⟨hund, hcompletes, rfl⟩
        · rintro ⟨pre, q, post, hps, hpre, -, rfl⟩
          cases pre with
          | nil =>
              rw [List.append_nil]
              exact ⟨data, rfl⟩
          | cons p' pre =>
              obtain ⟨rfl, -⟩ := List.cons.inj hps
              exact absurd hcompletes (RaptorQ.undecoded_iff.mp hpre fed p pre rfl)

/-- **When a new decoder returns a block**, and with which statistics. -/
theorem firstDecoded_eq_some_iff {len : ℕ} {st : DecodeStats} (ps : List Q.Packet) :
    (∃ data, (new Q len SYMBOL_SIZE).firstDecoded ps = some (data, st)) ↔
      ∃ pre q post, ps = pre ++ q :: post ∧ Q.Undecoded len pre ∧ Q.Completes len pre q ∧
        st = statsAt len (pre.length + 1) := by
  rw [(countedWith_new len).firstDecoded_iff ps (Q.undecoded_nil len)]
  simp only [List.nil_append]

theorem firstDecoded_eq_none {len : ℕ} {ps : List Q.Packet} (h : Q.Undecoded len ps) :
    (new Q len SYMBOL_SIZE).firstDecoded ps = none := by
  rw [Option.eq_none_iff_forall_ne_some]
  rintro ⟨data, st⟩ hsome
  obtain ⟨pre, q, post, hsplit, -, hcompletes, -⟩ := (firstDecoded_eq_some_iff ps).mp ⟨data, hsome⟩
  exact RaptorQ.undecoded_iff.mp h pre q post hsplit hcompletes

end FecDecoder

/-! ## The two counts -/

theorem countedSymbols_le (n : ℕ) : countedSymbols n ≤ realSymbols n := by
  by_contra h
  have hlt := (Blocks.lt_count_iff (show 0 < SYMBOL_SIZE by decide) (realSymbols n)).mp
    (Nat.lt_of_not_le h)
  have hle : n ≤ realSymbols n * alignedSize SYMBOL_SIZE := Blocks.le_count_mul (by decide)
  have hmul := Nat.mul_le_mul_left (realSymbols n)
    (show alignedSize SYMBOL_SIZE ≤ SYMBOL_SIZE by decide)
  omega

/-- Where the counts agree there is one source block. -/
theorem realSymbols_le {n : ℕ} (h : realSymbols n = countedSymbols n) :
    realSymbols n ≤ MAX_SOURCE_SYMBOLS := by
  have hmax : MAX_SOURCE_SYMBOLS = 56403 := rfl
  rcases Nat.eq_zero_or_pos (realSymbols n) with hzero | hpos
  · omega
  · -- the last byte is in the last symbol of both sizes
    have hreal : (realSymbols n - 1) * 896 < n :=
      (Blocks.lt_count_iff (show 0 < 896 by decide) _).mp (show _ < realSymbols n by omega)
    have hcounted : (realSymbols n - 1) * 900 < n :=
      (Blocks.lt_count_iff (show 0 < 900 by decide) _).mp (show _ < countedSymbols n by omega)
    have hle : n ≤ realSymbols n * 896 := Blocks.le_count_mul (by decide)
    omega

end Updown
