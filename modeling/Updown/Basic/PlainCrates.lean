import Updown.Basic.Crates
import Updown.Lib.Blocks

set_option autoImplicit false

/-! # Crates that can be run

A simple instance of `Crates`, with a proof of `Crates.Correct`: what the development assumes of
the third-party code is satisfiable, and a transfer over these crates can be evaluated. The AEAD
leaves the text readable and appends a checksum of key, nonce, associated data and text; the
erasure code cuts the data into symbols and repeats them as repair packets.
-/

namespace Updown.PlainCrates

/-- A 128-bit checksum. -/
def checksum (bs : Bytes) : ℕ :=
  bs.foldl (fun acc b => (acc * 257 + b.toNat + 1) % 2 ^ 128) 0

/-! ## The AEAD -/

def mac (key nonce aad text : Bytes) : Bytes :=
  LittleEndian.encode TAG_LEN (checksum (key ++ nonce ++ aad ++ text))

def aead : Aead where
  sealInPlaceSeparateTag key nonce aad text := some (text, mac key nonce aad text)
  openInPlace key nonce aad cipher :=
    let text := cipher.take (cipher.length - TAG_LEN)
    if cipher.drop (cipher.length - TAG_LEN) = mac key nonce aad text then some text else none

theorem aead_correct : aead.Correct where
  seal_some := by intros; rfl
  cipher_length := by
    intro k n a p c t h
    obtain ⟨rfl, -⟩ := Prod.mk.inj (Option.some.inj h)
    rfl
  tag_length := by
    intro k n a p c t h
    obtain ⟨-, rfl⟩ := Prod.mk.inj (Option.some.inj h)
    simp [mac]
  open_seal := by
    intro k n a p c t h
    obtain ⟨rfl, rfl⟩ := Prod.mk.inj (Option.some.inj h)
    have hlen : (p ++ mac k n a p).length - TAG_LEN = p.length := by simp [mac]
    simp only [aead, hlen, List.take_left, List.drop_left, if_true]

/-! ## The erasure code -/

/-- Symbol `index` of some data. -/
structure Packet where
  index : UInt32
  payload : Bytes
  deriving DecidableEq

/-- The source symbols of data. -/
def sourcePackets (data : Bytes) (symbolSize : ℕ) : List Packet :=
  (List.range (Blocks.count data.length symbolSize)).map fun i =>
    ⟨UInt32.ofNat i, Blocks.block symbolSize data i⟩

structure Decoder where
  dataLen : ℕ
  symbolSize : ℕ
  received : List Packet

namespace Decoder

/-- The payload received for symbol `i`. -/
def symbol (d : Decoder) (i : ℕ) : Option Bytes :=
  (d.received.find? fun p => p.index = UInt32.ofNat i).map Packet.payload

/-- The data, once every symbol has been received. -/
def assemble (d : Decoder) : Option Bytes :=
  ((List.range (Blocks.count d.dataLen d.symbolSize)).mapM d.symbol).map fun symbols =>
    Blocks.resize 0 d.dataLen symbols.flatten

def add (d : Decoder) (p : Packet) : Decoder := { d with received := d.received ++ [p] }

end Decoder

abbrev raptorq : RaptorQ where
  Packet := Packet
  BlockEncoder := Bytes × ℕ
  Decoder := Decoder
  serialize p := LittleEndian.encode 4 p.index.toNat ++ p.payload
  deserialize bs := ⟨UInt32.ofNat (LittleEndian.decode (bs.take 4)), bs.drop 4⟩
  blockEncoders data symbolSize := if data.length < 2 ^ 32 then [(data, symbolSize)] else []
  sourcePackets be := sourcePackets be.1 be.2
  repairPackets be start n := (sourcePackets be.1 be.2).drop start |>.take n
  noSourceBlocks dataLen _ := dataLen == 0
  decoderNew dataLen symbolSize := ⟨dataLen, symbolSize, []⟩
  decode d p := (d.add p, (d.add p).assemble)

/-- The packets of data are its source symbols. -/
theorem mem_of_isPacketOf {data : Bytes} {p : Packet} (h : raptorq.IsPacketOf data p) :
    data.length < 2 ^ 32 ∧ p ∈ sourcePackets data SYMBOL_SIZE := by
  obtain ⟨be, hbe, hp⟩ := h
  by_cases hlen : data.length < 2 ^ 32
  · have hbe' : be ∈ if data.length < 2 ^ 32 then [(data, SYMBOL_SIZE)] else [] := hbe
    rw [if_pos hlen, List.mem_singleton] at hbe'
    subst hbe'
    refine ⟨hlen, ?_⟩
    rcases hp with hp | ⟨start, n, hp⟩
    · exact hp
    · exact List.mem_of_mem_drop (List.mem_of_mem_take hp)
  · have hbe' : be ∈ if data.length < 2 ^ 32 then [(data, SYMBOL_SIZE)] else [] := hbe
    rw [if_neg hlen] at hbe'
    cases hbe'

/-- Below 4 GiB a symbol is known by its index. -/
theorem index_inj {data : Bytes} (hdata : data.length < 2 ^ 32) {i : ℕ}
    (hi : i < Blocks.count data.length SYMBOL_SIZE) {p : Packet}
    (hp : p ∈ sourcePackets data SYMBOL_SIZE) (hidx : p.index = UInt32.ofNat i) :
    p.payload = Blocks.block SYMBOL_SIZE data i := by
  obtain ⟨j, hj, rfl⟩ := List.mem_map.mp hp
  have hpos : 0 < SYMBOL_SIZE := by decide
  have hlt : ∀ k < Blocks.count data.length SYMBOL_SIZE, k < 2 ^ 32 := by
    intro k hk
    have := (Blocks.lt_count_iff hpos k).mp hk
    have : k ≤ k * SYMBOL_SIZE := Nat.le_mul_of_pos_right k hpos
    omega
  have hij : j = i := by
    have := congrArg UInt32.toNat hidx
    rwa [UInt32.toNat_ofNat_of_lt' (hlt j (List.mem_range.mp hj)),
      UInt32.toNat_ofNat_of_lt' (hlt i hi)] at this
  rw [hij]

theorem feed_eq (len sym : ℕ) (ps : List Packet) :
    raptorq.feed (raptorq.decoderNew len sym) ps = (⟨len, sym, ps⟩ : Decoder) := by
  induction ps using List.reverseRecOn with
  | nil => rfl
  | append_singleton ps p ih =>
      rw [RaptorQ.feed_snoc, ih]
      rfl

theorem mapM_sound {α β : Type} {f : α → Option β} {g : α → β} {l : List α} :
    ∀ {ys : List β}, (∀ i ∈ l, ∀ y, f i = some y → y = g i) → l.mapM f = some ys →
      ys = l.map g := by
  induction l with
  | nil =>
      intro ys _ h
      simpa using h.symm
  | cons i l ih =>
      intro ys hf h
      rw [List.mapM_cons] at h
      obtain ⟨y, hy, h⟩ := Option.bind_eq_some_iff.mp h
      obtain ⟨ys', hys', h⟩ := Option.bind_eq_some_iff.mp h
      rw [List.map_cons, ← hf i (by simp) y hy, ← ih (fun j hj => hf j (by simp [hj])) hys']
      exact (Option.some.inj h).symm

theorem mapM_complete {α β : Type} {f : α → Option β} {g : α → β} {l : List α}
    (hf : ∀ i ∈ l, f i = some (g i)) : l.mapM f = some (l.map g) := by
  induction l with
  | nil => rfl
  | cons i l ih =>
      rw [List.mapM_cons, hf i (by simp), ih fun j hj => hf j (by simp [hj])]
      rfl

/-- The symbol a decoder holds for an index is the one of the data. -/
theorem symbol_eq {data : Bytes} (hdata : data.length < 2 ^ 32) {ps : List Packet}
    (hps : ∀ q ∈ ps, q ∈ sourcePackets data SYMBOL_SIZE) {i : ℕ}
    (hi : i < Blocks.count data.length SYMBOL_SIZE) {y : Bytes}
    (h : (⟨data.length, SYMBOL_SIZE, ps⟩ : Decoder).symbol i = some y) :
    y = Blocks.block SYMBOL_SIZE data i := by
  obtain ⟨p, hp, rfl⟩ := Option.map_eq_some_iff.mp h
  have hidx : p.index = UInt32.ofNat i := by simpa using List.find?_some hp
  exact index_inj hdata hi (hps p (List.mem_of_find?_eq_some hp)) hidx

/-- A decoder that holds symbols of the data assembles nothing else. -/
theorem assemble_sound {data out : Bytes} (hdata : data.length < 2 ^ 32) {ps : List Packet}
    (hps : ∀ q ∈ ps, q ∈ sourcePackets data SYMBOL_SIZE)
    (h : (⟨data.length, SYMBOL_SIZE, ps⟩ : Decoder).assemble = some out) : out = data := by
  obtain ⟨symbols, hsymbols, rfl⟩ := Option.map_eq_some_iff.mp h
  have hall := mapM_sound (g := Blocks.block SYMBOL_SIZE data)
    (fun i hi y hy => symbol_eq hdata hps (List.mem_range.mp hi) hy) hsymbols
  rw [hall, Blocks.flatten_all_blocks (by decide), Blocks.resize_length_self]

/-- A decoder that holds every symbol assembles the data. -/
theorem assemble_complete {data : Bytes} (hdata : data.length < 2 ^ 32) {ps : List Packet}
    (hps : ∀ q ∈ ps, q ∈ sourcePackets data SYMBOL_SIZE)
    (hall : ∀ q ∈ sourcePackets data SYMBOL_SIZE, q ∈ ps) :
    (⟨data.length, SYMBOL_SIZE, ps⟩ : Decoder).assemble = some data := by
  have hsymbol : ∀ i ∈ List.range (Blocks.count data.length SYMBOL_SIZE),
      (⟨data.length, SYMBOL_SIZE, ps⟩ : Decoder).symbol i
        = some (Blocks.block SYMBOL_SIZE data i) := by
    intro i hi
    have hmem := hall _ (List.mem_map_of_mem hi)
    have hsome : (ps.find? fun p => p.index = UInt32.ofNat i).isSome := by
      rw [List.find?_isSome]
      exact ⟨_, hmem, by simp⟩
    obtain ⟨p, hp⟩ := Option.isSome_iff_exists.mp hsome
    have hsym : (⟨data.length, SYMBOL_SIZE, ps⟩ : Decoder).symbol i = some p.payload := by
      simp only [Decoder.symbol, hp, Option.map_some]
    rw [hsym, symbol_eq hdata hps (List.mem_range.mp hi) hsym]
  rw [Decoder.assemble, mapM_complete hsymbol, Option.map_some, Blocks.flatten_all_blocks (by decide),
    Blocks.resize_length_self]

theorem raptorq_correct : raptorq.Correct where
  deserialize_serialize := by
    intro p
    have h4 : (LittleEndian.encode 4 p.index.toNat).length = 4 := LittleEndian.length_encode 4 _
    have hlt : p.index.toNat < 256 ^ 4 := by
      have := p.index.toNat_lt
      norm_num at this ⊢
      exact this
    simp only [raptorq, List.take_left' h4, List.drop_left' h4,
      LittleEndian.decode_encode_of_lt hlt, UInt32.ofNat_toNat]
  serialize_length := by
    intro data p h
    obtain ⟨-, hp⟩ := mem_of_isPacketOf h
    obtain ⟨i, -, rfl⟩ := List.mem_map.mp hp
    simp
  decode_sound := by
    intro data ps p out hps hp h
    obtain ⟨hdata, hp⟩ := mem_of_isPacketOf hp
    rw [feed_eq] at h
    have hsource : ∀ q ∈ ps ++ [p], q ∈ sourcePackets data SYMBOL_SIZE :=
      List.forall_mem_append.mpr
        ⟨fun q hq => (mem_of_isPacketOf (hps q hq)).2, List.forall_mem_singleton.mpr hp⟩
    exact assemble_sound hdata hsource h
  decode_complete := by
    intro data ps hne hdata hps hall
    have hpos : 0 < SYMBOL_SIZE := by decide
    have hsource : ∀ q ∈ sourcePackets data SYMBOL_SIZE, q ∈ ps :=
      hall (data, SYMBOL_SIZE) (by simp only [raptorq, if_pos hdata, List.mem_singleton])
    have hcount := Blocks.count_pos hpos (List.length_pos_iff.mpr hne)
    -- the first source packet is among them, so there is a last one
    have hps_ne : ps ≠ [] := by
      have hmem : (⟨UInt32.ofNat 0, Blocks.block SYMBOL_SIZE data 0⟩ : Packet)
          ∈ sourcePackets data SYMBOL_SIZE :=
        List.mem_map.mpr ⟨0, List.mem_range.mpr hcount, rfl⟩
      exact List.ne_nil_of_mem (hsource _ hmem)
    have hsplit := List.dropLast_append_getLast hps_ne
    refine ⟨ps.dropLast, ps.getLast hps_ne, [], hsplit.symm, ?_⟩
    rw [feed_eq]
    have hassemble := assemble_complete hdata (fun q hq => (mem_of_isPacketOf (hps q hq)).2) hsource
    rw [← hassemble]
    show (Decoder.mk data.length SYMBOL_SIZE (ps.dropLast ++ [ps.getLast hps_ne])).assemble = _
    rw [hsplit]
  decode_length := by
    intro n ps p out h
    rw [feed_eq] at h
    obtain ⟨symbols, -, rfl⟩ := Option.map_eq_some_iff.mp h
    exact Blocks.length_resize 0 n symbols.flatten
  noSourceBlocks_zero := rfl
  noSourceBlocks_of_pos := fun hpos _ => beq_false_of_ne hpos.ne'

/-! ## All crates -/

/-- Length and byte of a run of equal bytes, else a zero and the text itself. -/
def zstd (bs : Bytes) : Option Bytes :=
  match bs with
  | [] => some []
  | b :: rest => if bs.length < 256 && rest.all (· == b) then some [UInt8.ofNat bs.length, b]
      else some (0 :: bs)

def plainCrates : Crates where
  aead := aead
  raptorq := raptorq
  blake3 bs := LittleEndian.encode 32 (checksum bs)
  zstd := zstd
  float := { powf := fun x _ => x, sqrt := fun x => x }

theorem plainCrates_correct : plainCrates.Correct := ⟨aead_correct, raptorq_correct⟩

end Updown.PlainCrates
