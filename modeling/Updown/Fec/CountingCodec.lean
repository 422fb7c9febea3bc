import Updown.Fec.Symbols

set_option autoImplicit false

/-! # A counting codec

A `RaptorQ` of which any packets decode, as many distinct ones as there are source symbols
(`anyK`): every packet carries the data, and the decoder waits for that many of them.
-/

namespace Updown.CountingCodec

/-- Packet `index` of data. -/
structure Packet where
  index : ℕ
  data : Bytes
  deriving DecidableEq

structure Decoder where
  dataLen : ℕ
  received : List Packet

namespace Decoder

def add (d : Decoder) (p : Packet) : Decoder := { d with received := d.received ++ [p] }

/-- As many distinct packets have been received as the data has symbols. -/
def Enough (d : Decoder) : Prop := realSymbols d.dataLen ≤ d.received.dedup.length

instance (d : Decoder) : Decidable d.Enough :=
  inferInstanceAs (Decidable (realSymbols d.dataLen ≤ d.received.dedup.length))

end Decoder

/-- The `n` packets of data from `start` on. -/
def packets (data : Bytes) (start n : ℕ) : List Packet :=
  (List.range' start n).map fun i => ⟨i, data⟩

abbrev raptorq : RaptorQ where
  Packet := Packet
  BlockEncoder := Bytes
  Decoder := Decoder
  serialize p := LittleEndian.encode 4 p.index ++ p.data
  deserialize bs := ⟨LittleEndian.decode (bs.take 4), bs.drop 4⟩
  blockEncoders data _ := [data]
  sourcePackets data := packets data 0 (realSymbols data.length)
  repairPackets data start n := packets data (realSymbols data.length + start) n
  noSourceBlocks dataLen _ := dataLen == 0
  decoderNew dataLen _ := ⟨dataLen, []⟩
  decode d p := (d.add p, if (d.add p).Enough then some p.data else none)

theorem nodup_packets (data : Bytes) (start n : ℕ) : (packets data start n).Nodup := by
  apply List.Nodup.map
  · intro i j h
    exact congrArg Packet.index h
  · exact List.nodup_range'

theorem mem_packets {data : Bytes} {start n : ℕ} {p : Packet} (h : p ∈ packets data start n) :
    start ≤ p.index ∧ p.index < start + n := by
  obtain ⟨i, hi, rfl⟩ := List.mem_map.mp h
  exact List.mem_range'_1.mp hi

@[simp] theorem length_packets (data : Bytes) (start n : ℕ) :
    (packets data start n).length = n := by
  simp [packets]

theorem feed_eq (len sym : ℕ) (ps : List Packet) :
    raptorq.feed (raptorq.decoderNew len sym) ps = (⟨len, ps⟩ : Decoder) := by
  induction ps using List.reverseRecOn with
  | nil => rfl
  | append_singleton ps p ih =>
      rw [RaptorQ.feed_snoc, ih]
      rfl

theorem completes_iff {len : ℕ} {ps : List Packet} {p : Packet} :
    raptorq.Completes len ps p ↔ HasDistinct (realSymbols len) (ps ++ [p]) := by
  rw [RaptorQ.Completes, feed_eq, hasDistinct_iff]
  change (if realSymbols len ≤ (ps ++ [p]).dedup.length then some p.data else none).isSome ↔ _
  split
  · next h => exact iff_of_true rfl h
  · next h => exact iff_of_false (by simp) h

/-- The last of enough packets completes the data. -/
theorem completes_of_hasDistinct {data : Bytes} (hne : data ≠ []) {ps : List Packet}
    (h : HasDistinct (realSymbols data.length) ps) :
    ∃ pre q post, ps = pre ++ q :: post ∧ raptorq.Completes data.length pre q := by
  have hpos : 0 < realSymbols data.length :=
    Blocks.count_pos (by decide) (List.length_pos_iff.mpr hne)
  rcases List.eq_nil_or_concat ps with rfl | ⟨pre, q, rfl⟩
  · have hle := h.le_length
    rw [List.length_nil] at hle
    omega
  · rw [List.concat_eq_append] at h ⊢
    exact ⟨pre, q, [], rfl, completes_iff.mpr h⟩

theorem anyK : raptorq.AnyK where
  source_total {data} _ := by
    rw [show raptorq.blockEncoders data SYMBOL_SIZE = [data] from rfl, List.flatMap_singleton]
    exact length_packets data 0 _
  one_block {data} _ _ := ⟨data, rfl⟩
  decode_source {data ps} hne _ hall := by
    apply completes_of_hasDistinct hne
    refine ⟨packets data 0 (realSymbols data.length), nodup_packets _ _ _, ?_, length_packets _ _ _⟩
    exact hall data (List.mem_singleton.mpr rfl)
  decode_needs _ hcompletes := completes_iff.mp hcompletes
  nodup_source {data} _ := by
    rw [show raptorq.blockEncoders data SYMBOL_SIZE = [data] from rfl, List.flatMap_singleton]
    exact nodup_packets data 0 _
  repair_zero _ := rfl
  repair_fresh data {n} hn := by
    obtain ⟨n, rfl⟩ := Nat.exists_eq_succ_of_ne_zero hn.ne'
    refine ⟨⟨realSymbols data.length, data⟩, _, rfl, fun hmem => ?_⟩
    have hlt := (mem_packets hmem).2
    rw [Nat.zero_add] at hlt
    exact lt_irrefl _ hlt
  decode_any {data be ps} hne hbe _ hdistinct := by
    obtain rfl : data = be := List.singleton_inj.mp hbe
    rw [show (raptorq.sourcePackets data).length = realSymbols data.length from
      length_packets data 0 _] at hdistinct
    exact completes_of_hasDistinct hne hdistinct

end Updown.CountingCodec
