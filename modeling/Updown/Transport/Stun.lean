import Updown.Basic.Crates

set_option autoImplicit false

/-! # STUN responses

`parse_stun_response` of `transport/stun.rs`. The outer result is a panic or a return, the inner one
what is returned. The walk over the attributes reads a header only before the declared end of the
message, but a value up to the end of the datagram: `parse_binding_response` says that well-formed
responses are read right, `parse_take_iff` which datagrams are read differently without the bytes
behind the message.
-/

namespace Updown.Stun

/-- A `SocketAddr` with an IPv4 address. -/
structure SocketAddr where
  ip : UInt32
  port : UInt16
  deriving DecidableEq

def STUN_BINDING_RESPONSE : UInt16 := 0x0101

def STUN_MAGIC_COOKIE : UInt32 := 0x2112A442

def STUN_ATTR_XOR_MAPPED_ADDRESS : UInt16 := 0x0020

def STUN_ATTR_MAPPED_ADDRESS : UInt16 := 0x0001

/-- `u16::from_be_bytes`. -/
def u16FromBe (a b : UInt8) : UInt16 := UInt16.ofNat (a.toNat * 256 + b.toNat)

/-- `u32::from_be_bytes`. -/
def u32FromBe (a b c d : UInt8) : UInt32 :=
  UInt32.ofNat (((a.toNat * 256 + b.toNat) * 256 + c.toNat) * 256 + d.toNat)

/-- `data[i]`. -/
def byteAt (data : Bytes) (i : ℕ) : Except Fault UInt8 :=
  match data[i]? with
  | some b => .ok b
  | none => .error .indexOutOfRange

/-- `&data[a..b]`. -/
def slice (data : Bytes) (a b : ℕ) : Except Fault Bytes :=
  if a ≤ b ∧ b ≤ data.length then .ok ((data.drop a).take (b - a)) else .error .sliceOutOfRange

/-- `(STUN_MAGIC_COOKIE >> 16) as u16`. -/
def cookieHigh : UInt16 := (STUN_MAGIC_COOKIE >>> 16).toUInt16

def parseXorMappedAddress (data : Bytes) : Except Fault (Except String SocketAddr) :=
  if data.length < 8 then pure (.error "XOR-MAPPED-ADDRESS too short")
  else do
    let family ← byteAt data 1
    let xorPort := u16FromBe (← byteAt data 2) (← byteAt data 3) ^^^ cookieHigh
    if family = 0x01 then do
      let xorIp := u32FromBe (← byteAt data 4) (← byteAt data 5) (← byteAt data 6)
        (← byteAt data 7) ^^^ STUN_MAGIC_COOKIE
      pure (.ok { ip := xorIp, port := xorPort })
    else pure (.error ("Unsupported address family: " ++ toString family.toNat))

def parseMappedAddress (data : Bytes) : Except Fault (Except String SocketAddr) :=
  if data.length < 8 then pure (.error "MAPPED-ADDRESS too short")
  else do
    let family ← byteAt data 1
    let port := u16FromBe (← byteAt data 2) (← byteAt data 3)
    if family = 0x01 then do
      let ip := u32FromBe (← byteAt data 4) (← byteAt data 5) (← byteAt data 6) (← byteAt data 7)
      pure (.ok { ip := ip, port := port })
    else pure (.error ("Unsupported address family: " ++ toString family.toNat))

/-- `(n + 3) & !3`: attributes are padded to 4-byte boundaries. -/
def padded (n : ℕ) : ℕ := (n + 3) / 4 * 4

def noMappedAddress : Except Fault (Except String SocketAddr) :=
  .ok (.error "No mapped address in STUN response")

/-- The loop over the attributes, from `offset`. -/
def parseAttributes (data : Bytes) (msgEnd offset : ℕ) : Except Fault (Except String SocketAddr) :=
  if h : offset + 4 ≤ msgEnd ∧ offset + 4 ≤ data.length then do
    let attrType := u16FromBe (← byteAt data offset) (← byteAt data (offset + 1))
    let attrLen := (u16FromBe (← byteAt data (offset + 2)) (← byteAt data (offset + 3))).toNat
    if data.length < offset + 4 + attrLen then noMappedAddress
    else do
      let attrData ← slice data (offset + 4) (offset + 4 + attrLen)
      if attrType = STUN_ATTR_XOR_MAPPED_ADDRESS then parseXorMappedAddress attrData
      else if attrType = STUN_ATTR_MAPPED_ADDRESS then parseMappedAddress attrData
      else parseAttributes data msgEnd (offset + 4 + padded attrLen)
  else noMappedAddress
termination_by data.length - offset
decreasing_by omega

/-- Four hexadecimal digits: `{:04x}`. -/
def hex04 (w : UInt16) : String :=
  String.ofList [Nat.digitChar (w.toNat / 4096), Nat.digitChar (w.toNat / 256 % 16),
    Nat.digitChar (w.toNat / 16 % 16), Nat.digitChar (w.toNat % 16)]

def parseStunResponse (data : Bytes) (expectedTxn : Vector UInt8 12) :
    Except Fault (Except String SocketAddr) :=
  if data.length < 20 then pure (.error "STUN response too short")
  else do
    let msgType := u16FromBe (← byteAt data 0) (← byteAt data 1)
    if msgType ≠ STUN_BINDING_RESPONSE then
      pure (.error ("Not a binding response: 0x" ++ hex04 msgType))
    else do
      let msgLen := (u16FromBe (← byteAt data 2) (← byteAt data 3)).toNat
      let cookie := u32FromBe (← byteAt data 4) (← byteAt data 5) (← byteAt data 6)
        (← byteAt data 7)
      if cookie ≠ STUN_MAGIC_COOKIE then pure (.error "Bad magic cookie")
      else do
        let txn ← slice data 8 20
        if txn ≠ expectedTxn.toList then pure (.error "Transaction ID mismatch")
        else parseAttributes data (20 + msgLen) 20

/-! ## What the loop reads -/

/-- `u16::to_be_bytes`. -/
def u16ToBe (w : UInt16) : Bytes := [UInt8.ofNat (w.toNat / 256), UInt8.ofNat w.toNat]

/-- `u32::to_be_bytes`. -/
def u32ToBe (w : UInt32) : Bytes :=
  [UInt8.ofNat (w.toNat / 2 ^ 24), UInt8.ofNat (w.toNat / 2 ^ 16), UInt8.ofNat (w.toNat / 2 ^ 8),
    UInt8.ofNat w.toNat]

theorem u16FromBe_toBe (w : UInt16) :
    u16FromBe (UInt8.ofNat (w.toNat / 256)) (UInt8.ofNat w.toNat) = w := by
  have hw := w.toNat_lt
  apply UInt16.toNat_inj.mp
  simp only [u16FromBe, UInt16.toNat_ofNat', UInt8.toNat_ofNat']
  omega

theorem u32FromBe_toBe (w : UInt32) :
    u32FromBe (UInt8.ofNat (w.toNat / 2 ^ 24)) (UInt8.ofNat (w.toNat / 2 ^ 16))
      (UInt8.ofNat (w.toNat / 2 ^ 8)) (UInt8.ofNat w.toNat) = w := by
  have hw := w.toNat_lt
  apply UInt32.toNat_inj.mp
  simp only [u32FromBe, UInt32.toNat_ofNat', UInt8.toNat_ofNat']
  omega

theorem byteAt_of_lt {data : Bytes} {i : ℕ} (h : i < data.length) :
    byteAt data i = .ok (data.getD i 0) := by
  simp [byteAt, List.getD_eq_getElem?_getD, h]

theorem slice_of_le {data : Bytes} {a n : ℕ} (h : a + n ≤ data.length) :
    slice data a (a + n) = .ok ((data.drop a).take n) := by
  rw [slice, if_pos ⟨by omega, h⟩, Nat.add_sub_cancel_left]

/-- The type in the attribute header at `offset`. -/
def typeAt (data : Bytes) (offset : ℕ) : UInt16 :=
  u16FromBe (data.getD offset 0) (data.getD (offset + 1) 0)

/-- The length in the attribute header at `offset`. -/
def lenAt (data : Bytes) (offset : ℕ) : ℕ :=
  (u16FromBe (data.getD (offset + 2) 0) (data.getD (offset + 3) 0)).toNat

/-- The value of the attribute at `offset`. -/
def valueAt (data : Bytes) (offset : ℕ) : Bytes := (data.drop (offset + 4)).take (lenAt data offset)

/-- The attribute types that carry the answer. -/
def Mapped (attrType : UInt16) : Prop :=
  attrType = STUN_ATTR_XOR_MAPPED_ADDRESS ∨ attrType = STUN_ATTR_MAPPED_ADDRESS

instance (attrType : UInt16) : Decidable (Mapped attrType) :=
  inferInstanceAs (Decidable (_ ∨ _))

/-- The two arms of the loop that return. -/
def parseMapped (attrType : UInt16) (value : Bytes) : Except Fault (Except String SocketAddr) :=
  if attrType = STUN_ATTR_XOR_MAPPED_ADDRESS then parseXorMappedAddress value
  else parseMappedAddress value

theorem le_padded (n : ℕ) : n ≤ padded n := by
  unfold padded
  omega

theorem parseAttributes_stop {data : Bytes} {msgEnd offset : ℕ}
    (h : ¬ (offset + 4 ≤ msgEnd ∧ offset + 4 ≤ data.length)) :
    parseAttributes data msgEnd offset = noMappedAddress := by
  rw [parseAttributes, dif_neg h]

/-- One round of the loop. -/
theorem parseAttributes_round {data : Bytes} {msgEnd offset : ℕ} (hend : offset + 4 ≤ msgEnd)
    (hdata : offset + 4 ≤ data.length) :
    parseAttributes data msgEnd offset =
      if data.length < offset + 4 + lenAt data offset then noMappedAddress
      else if Mapped (typeAt data offset) then
        parseMapped (typeAt data offset) (valueAt data offset)
      else parseAttributes data msgEnd (offset + 4 + padded (lenAt data offset)) := by
  rw [parseAttributes, dif_pos ⟨hend, hdata⟩, byteAt_of_lt (by omega), byteAt_of_lt (by omega),
    byteAt_of_lt (by omega), byteAt_of_lt (by omega)]
  change (if data.length < offset + 4 + lenAt data offset then noMappedAddress else _) = _
  split
  · rfl
  · next hvalue =>
      rw [← lenAt, ← typeAt, slice_of_le (by omega)]
      change (if typeAt data offset = STUN_ATTR_XOR_MAPPED_ADDRESS then
          parseXorMappedAddress (valueAt data offset)
        else if typeAt data offset = STUN_ATTR_MAPPED_ADDRESS then
          parseMappedAddress (valueAt data offset) else _) = _
      by_cases hxor : typeAt data offset = STUN_ATTR_XOR_MAPPED_ADDRESS
      · have hmapped : Mapped (typeAt data offset) := Or.inl hxor
        rw [if_pos hxor, if_pos hmapped, parseMapped, if_pos hxor]
      · by_cases hplain : typeAt data offset = STUN_ATTR_MAPPED_ADDRESS
        · have hmapped : Mapped (typeAt data offset) := Or.inr hplain
          rw [if_neg hxor, if_pos hplain, if_pos hmapped, parseMapped, if_neg hxor]
        · have hother : ¬ Mapped (typeAt data offset) := not_or.mpr ⟨hxor, hplain⟩
          rw [if_neg hxor, if_neg hplain, if_neg hother]

/-! ## Addresses -/

/-- The value of a XOR-MAPPED-ADDRESS attribute. -/
def xorMappedValue (reserved : UInt8) (addr : SocketAddr) : Bytes :=
  [reserved, 0x01] ++ u16ToBe (addr.port ^^^ cookieHigh) ++ u32ToBe (addr.ip ^^^ STUN_MAGIC_COOKIE)

/-- The value of a MAPPED-ADDRESS attribute. -/
def mappedValue (reserved : UInt8) (addr : SocketAddr) : Bytes :=
  [reserved, 0x01] ++ u16ToBe addr.port ++ u32ToBe addr.ip

theorem parseXorMappedAddress_value (reserved : UInt8) (addr : SocketAddr) :
    parseXorMappedAddress (xorMappedValue reserved addr) = .ok (.ok addr) := by
  change Except.ok (Except.ok (SocketAddr.mk (u32FromBe _ _ _ _ ^^^ STUN_MAGIC_COOKIE)
    (u16FromBe _ _ ^^^ cookieHigh))) = _
  rw [u16FromBe_toBe, u32FromBe_toBe, UInt16.xor_assoc, UInt32.xor_assoc, UInt16.xor_self,
    UInt32.xor_self, UInt16.xor_zero, UInt32.xor_zero]

theorem parseMappedAddress_value (reserved : UInt8) (addr : SocketAddr) :
    parseMappedAddress (mappedValue reserved addr) = .ok (.ok addr) := by
  change Except.ok (Except.ok (SocketAddr.mk (u32FromBe _ _ _ _) (u16FromBe _ _))) = _
  rw [u16FromBe_toBe, u32FromBe_toBe]

/-- A refusal of `parse_xor_mapped_address` or `parse_mapped_address` is about the length or the
family. -/
def IsRefusal (message : String) : Prop :=
  message = "XOR-MAPPED-ADDRESS too short" ∨ message = "MAPPED-ADDRESS too short" ∨
    ∃ family : UInt8, message = "Unsupported address family: " ++ toString family.toNat

theorem IsRefusal.ne {message : String} (h : IsRefusal message) :
    message ≠ "No mapped address in STUN response" := by
  obtain rfl | rfl | ⟨family, rfl⟩ := h
  · decide
  · decide
  · intro heq
    -- the texts differ in their first character
    have hhead := congrArg (fun s => s.toList.head?) heq
    simp at hhead

theorem byteAt_of_not_short {value : Bytes} {i : ℕ} (h : ¬ value.length < 8) (hi : i < 8) :
    byteAt value i = .ok (value.getD i 0) := byteAt_of_lt (by omega)

/-- The two address parsers return, on every value. -/
theorem parseMapped_returns (attrType : UInt16) (value : Bytes) :
    (∃ addr, parseMapped attrType value = .ok (.ok addr)) ∨
      ∃ message, parseMapped attrType value = .ok (.error message) ∧ IsRefusal message := by
  unfold parseMapped
  split
  · by_cases hlen : value.length < 8
    · exact Or.inr ⟨_, if_pos hlen, Or.inl rfl⟩
    · rw [parseXorMappedAddress, if_neg hlen]
      simp (disch := decide) only [byteAt_of_not_short hlen, bind, Except.bind]
      split
      · exact Or.inl ⟨_, rfl⟩
      · exact Or.inr ⟨_, rfl, Or.inr (Or.inr ⟨_, rfl⟩)⟩
  · by_cases hlen : value.length < 8
    · exact Or.inr ⟨_, if_pos hlen, Or.inr (Or.inl rfl)⟩
    · rw [parseMappedAddress, if_neg hlen]
      simp (disch := decide) only [byteAt_of_not_short hlen, bind, Except.bind]
      split
      · exact Or.inl ⟨_, rfl⟩
      · exact Or.inr ⟨_, rfl, Or.inr (Or.inr ⟨_, rfl⟩)⟩

/-- An address parser's result is never the one the loop ends with. -/
theorem parseMapped_ne (attrType : UInt16) (value : Bytes) :
    parseMapped attrType value ≠ noMappedAddress := by
  intro heq
  obtain ⟨addr, h⟩ | ⟨message, h, hrefusal⟩ := parseMapped_returns attrType value
  · rw [h, noMappedAddress] at heq
    cases heq
  · rw [h, noMappedAddress] at heq
    exact hrefusal.ne (Except.error.inj (Except.ok.inj heq))

/-! ## Attributes and responses -/

/-- One attribute: its padding fills the value up to four bytes. -/
structure Attribute where
  attrType : UInt16
  value : Bytes
  padding : Bytes
  length_lt : value.length < 2 ^ 16
  length_padding : value.length + padding.length = padded value.length

def Attribute.encode (a : Attribute) : Bytes :=
  u16ToBe a.attrType ++ u16ToBe (UInt16.ofNat a.value.length) ++ a.value ++ a.padding

theorem Attribute.length_encode (a : Attribute) :
    a.encode.length = 4 + padded a.value.length := by
  have h := a.length_padding
  simp only [encode, u16ToBe, List.length_append, List.length_cons, List.length_nil]
  omega

theorem getD_of_drop {data : Bytes} {offset : ℕ} {bytes : Bytes} (h : data.drop offset = bytes)
    (i : ℕ) : data.getD (offset + i) 0 = bytes.getD i 0 := by
  rw [← h, List.getD_eq_getElem?_getD, List.getD_eq_getElem?_getD, List.getElem?_drop]

/-- The loop reads an attribute as it was written. -/
theorem Attribute.read {data rest : Bytes} {offset : ℕ} (a : Attribute)
    (h : data.drop offset = a.encode ++ rest) :
    typeAt data offset = a.attrType ∧ lenAt data offset = a.value.length ∧
      valueAt data offset = a.value ∧ offset + 4 + padded a.value.length ≤ data.length ∧
      data.drop (offset + 4 + padded a.value.length) = rest := by
  have hlen : offset + 4 + padded a.value.length ≤ data.length := by
    have hle := congrArg List.length h
    have henc := a.length_encode
    rw [List.length_drop, List.length_append] at hle
    omega
  have htype : typeAt data offset = a.attrType := by
    have h0 := getD_of_drop h 0
    have h1 := getD_of_drop h 1
    rw [Nat.add_zero] at h0
    rw [typeAt, h0, h1]
    exact u16FromBe_toBe a.attrType
  have hvalue : lenAt data offset = a.value.length := by
    rw [lenAt, getD_of_drop h 2, getD_of_drop h 3]
    change (u16FromBe (UInt8.ofNat _) (UInt8.ofNat _)).toNat = _
    rw [u16FromBe_toBe, UInt16.toNat_ofNat_of_lt' a.length_lt]
  have hfour : data.drop (offset + 4) = a.value ++ (a.padding ++ rest) := by
    rw [← List.drop_drop, h]
    simp [Attribute.encode, u16ToBe]
  refine ⟨htype, hvalue, ?_, hlen, ?_⟩
  · rw [valueAt, hvalue, hfour, List.take_left]
  · rw [Nat.add_assoc, ← List.drop_drop, h, ← a.length_encode, List.drop_left]

/-- The attributes before the address are skipped. -/
theorem parseAttributes_skip {data rest : Bytes} {msgEnd : ℕ} (before : List Attribute)
    (hother : ∀ a ∈ before, ¬ Mapped a.attrType) {offset : ℕ}
    (h : data.drop offset = before.flatMap Attribute.encode ++ rest)
    (hend : offset + (before.flatMap Attribute.encode).length ≤ msgEnd) :
    parseAttributes data msgEnd offset =
        parseAttributes data msgEnd (offset + (before.flatMap Attribute.encode).length) ∧
      data.drop (offset + (before.flatMap Attribute.encode).length) = rest := by
  induction before generalizing offset with
  | nil => exact ⟨rfl, h⟩
  | cons a before ih =>
      rw [List.flatMap_cons, List.append_assoc] at h
      obtain ⟨htype, hlen, -, hdata, hdrop⟩ := a.read h
      rw [List.flatMap_cons, List.length_append, a.length_encode, ← Nat.add_assoc,
        ← Nat.add_assoc] at hend ⊢
      have hle := le_padded a.value.length
      obtain ⟨hskip, hrest⟩ := ih (fun b hb => hother b (List.mem_cons_of_mem a hb)) hdrop hend
      refine ⟨?_, hrest⟩
      rw [parseAttributes_round (by omega) (by omega), hlen, htype, if_neg (by omega),
        if_neg (hother a List.mem_cons_self), hskip]

/-- An IPv4 address attribute for `addr`. -/
def Attribute.IsAddress (a : Attribute) (addr : SocketAddr) : Prop :=
  ∃ reserved, (a.attrType = STUN_ATTR_XOR_MAPPED_ADDRESS ∧ a.value = xorMappedValue reserved addr) ∨
    (a.attrType = STUN_ATTR_MAPPED_ADDRESS ∧ a.value = mappedValue reserved addr)

theorem Attribute.IsAddress.mapped {a : Attribute} {addr : SocketAddr} (h : a.IsAddress addr) :
    Mapped a.attrType := by
  obtain ⟨reserved, ⟨htype, -⟩ | ⟨htype, -⟩⟩ := h
  · exact Or.inl htype
  · exact Or.inr htype

theorem Attribute.IsAddress.parse {a : Attribute} {addr : SocketAddr} (h : a.IsAddress addr) :
    parseMapped a.attrType a.value = .ok (.ok addr) := by
  obtain ⟨reserved, ⟨htype, hvalue⟩ | ⟨htype, hvalue⟩⟩ := h
  · rw [parseMapped, if_pos htype, hvalue, parseXorMappedAddress_value]
  · rw [parseMapped, htype, if_neg (by decide), hvalue, parseMappedAddress_value]

/-- A binding response with an IPv4 address: `before` has attributes of other types, `after` any. -/
structure BindingResponse where
  txn : Vector UInt8 12
  addr : SocketAddr
  before : List Attribute
  address : Attribute
  after : List Attribute
  before_other : ∀ a ∈ before, ¬ Mapped a.attrType
  address_of : address.IsAddress addr
  length_lt : ((before ++ address :: after).flatMap Attribute.encode).length < 2 ^ 16

namespace BindingResponse

def attributes (r : BindingResponse) : Bytes :=
  (r.before ++ r.address :: r.after).flatMap Attribute.encode

def encode (r : BindingResponse) : Bytes :=
  u16ToBe STUN_BINDING_RESPONSE ++ u16ToBe (UInt16.ofNat r.attributes.length) ++
    u32ToBe STUN_MAGIC_COOKIE ++ r.txn.toList ++ r.attributes

end BindingResponse

/-- The magic cookie's place in the header. -/
def cookieAt (data : Bytes) : UInt32 :=
  u32FromBe (data.getD 4 0) (data.getD 5 0) (data.getD 6 0) (data.getD 7 0)

/-- Where the message ends, as its header says. The type and the length of a message stand where
those of an attribute would. -/
def messageEnd (data : Bytes) : ℕ := 20 + lenAt data 0

/-- The header of a binding response to the request `txn`. -/
def HeaderOk (data : Bytes) (txn : Vector UInt8 12) : Prop :=
  typeAt data 0 = STUN_BINDING_RESPONSE ∧ cookieAt data = STUN_MAGIC_COOKIE ∧
    (data.drop 8).take 12 = txn.toList

instance (data : Bytes) (txn : Vector UInt8 12) : Decidable (HeaderOk data txn) :=
  inferInstanceAs (Decidable (_ ∧ _ ∧ _))

/-- The checks of the header. -/
theorem parseStunResponse_eq {data : Bytes} {txn : Vector UInt8 12} (hlen : 20 ≤ data.length) :
    parseStunResponse data txn =
      if typeAt data 0 ≠ STUN_BINDING_RESPONSE then
        .ok (.error ("Not a binding response: 0x" ++ hex04 (typeAt data 0)))
      else if cookieAt data ≠ STUN_MAGIC_COOKIE then .ok (.error "Bad magic cookie")
      else if (data.drop 8).take 12 ≠ txn.toList then .ok (.error "Transaction ID mismatch")
      else parseAttributes data (messageEnd data) 20 := by
  rw [parseStunResponse, if_neg (by omega), byteAt_of_lt (by omega), byteAt_of_lt (by omega),
    byteAt_of_lt (by omega), byteAt_of_lt (by omega), byteAt_of_lt (by omega),
    byteAt_of_lt (by omega), byteAt_of_lt (by omega), byteAt_of_lt (by omega),
    show (20 : ℕ) = 8 + 12 from rfl, slice_of_le (by omega)]
  rfl

theorem parseStunResponse_of_header {data : Bytes} {txn : Vector UInt8 12}
    (hlen : 20 ≤ data.length) (h : HeaderOk data txn) :
    parseStunResponse data txn = parseAttributes data (messageEnd data) 20 := by
  obtain ⟨htype, hcookie, htxn⟩ := h
  rw [parseStunResponse_eq hlen, if_neg (not_not_intro htype), if_neg (not_not_intro hcookie),
    if_neg (not_not_intro htxn)]

/-- Another type, cookie or transaction is refused. -/
theorem parseStunResponse_of_not_header {data : Bytes} {txn : Vector UInt8 12}
    (h : ¬ HeaderOk data txn) : ∃ message, parseStunResponse data txn = .ok (.error message) := by
  by_cases hlen : 20 ≤ data.length
  · rw [parseStunResponse_eq hlen]
    split_ifs with htype hcookie htxn
    · exact ⟨_, rfl⟩
    · exact ⟨_, rfl⟩
    · exact ⟨_, rfl⟩
    · exact absurd ⟨not_not.mp htype, not_not.mp hcookie, not_not.mp htxn⟩ h
  · exact ⟨_, if_pos (by omega)⟩

/-! ## Every input is answered, and a well-formed response is read -/

theorem parseAttributes_returns (data : Bytes) (msgEnd offset : ℕ) :
    ∃ result, parseAttributes data msgEnd offset = .ok result := by
  induction hleft : data.length - offset using Nat.strong_induction_on generalizing offset with
  | _ left ih =>
      by_cases h : offset + 4 ≤ msgEnd ∧ offset + 4 ≤ data.length
      · rw [parseAttributes_round h.1 h.2]
        split_ifs
        · exact ⟨_, rfl⟩
        · obtain ⟨addr, h⟩ | ⟨message, h, -⟩ :=
            parseMapped_returns (typeAt data offset) (valueAt data offset)
          · exact ⟨_, h⟩
          · exact ⟨_, h⟩
        · exact ih _ (by omega) _ rfl
      · exact ⟨_, parseAttributes_stop h⟩

theorem parseStunResponse_returns (data : Bytes) (txn : Vector UInt8 12) :
    ∃ result, parseStunResponse data txn = .ok result := by
  by_cases h : HeaderOk data txn
  · by_cases hlen : 20 ≤ data.length
    · rw [parseStunResponse_of_header hlen h]
      exact parseAttributes_returns data _ _
    · exact ⟨_, if_pos (by omega)⟩
  · obtain ⟨message, hmessage⟩ := parseStunResponse_of_not_header h
    exact ⟨_, hmessage⟩

namespace BindingResponse

theorem encode_eq (r : BindingResponse) :
    ∃ header : Bytes, header.length = 20 ∧ r.encode = header ++ r.attributes :=
  ⟨_, by simp [u16ToBe, u32ToBe], rfl⟩

theorem drop_encode (r : BindingResponse) : r.encode.drop 20 = r.attributes := by
  obtain ⟨header, hlen, heq⟩ := r.encode_eq
  rw [heq, ← hlen, List.drop_left]

theorem length_encode (r : BindingResponse) : r.encode.length = 20 + r.attributes.length := by
  obtain ⟨header, hlen, heq⟩ := r.encode_eq
  rw [heq, List.length_append, hlen]

theorem headerOk (r : BindingResponse) : HeaderOk r.encode r.txn := by
  refine ⟨u16FromBe_toBe _, u32FromBe_toBe _, ?_⟩
  change List.take 12 (r.txn.toList ++ r.attributes) = r.txn.toList
  exact List.take_left' (by simp)

theorem messageEnd_encode (r : BindingResponse) : messageEnd r.encode = r.encode.length := by
  have hlt : r.attributes.length < 2 ^ 16 := r.length_lt
  rw [r.length_encode, messageEnd, lenAt]
  change 20 + (u16FromBe (UInt8.ofNat _) (UInt8.ofNat _)).toNat = _
  rw [u16FromBe_toBe, UInt16.toNat_ofNat_of_lt' hlt]

/-- A well-formed response is answered with its address. -/
theorem parse_encode (r : BindingResponse) :
    parseStunResponse r.encode r.txn = .ok (.ok r.addr) := by
  have hlen := r.length_encode
  rw [parseStunResponse_of_header (by omega) r.headerOk, r.messageEnd_encode]
  have hdrop : r.encode.drop 20 = r.before.flatMap Attribute.encode ++
      (r.address.encode ++ r.after.flatMap Attribute.encode) := by
    rw [r.drop_encode, attributes, List.flatMap_append, List.flatMap_cons]
  -- the loop skips to the address attribute and returns there: what follows is not looked at
  have hlength := congrArg List.length hdrop
  rw [List.length_drop, List.length_append] at hlength
  obtain ⟨hskip, hrest⟩ := parseAttributes_skip r.before r.before_other hdrop
    (show _ ≤ r.encode.length by omega)
  obtain ⟨htype, hvalueLen, hvalue, hdata, -⟩ := r.address.read hrest
  have hle := le_padded r.address.value.length
  rw [hskip, parseAttributes_round (by omega) (by omega), hvalueLen, htype, hvalue,
    if_neg (by omega), if_pos r.address_of.mapped, r.address_of.parse]

end BindingResponse

/-- `parse_stun_response` answers every input, reads the address of a well-formed response, and
refuses every other type, cookie or transaction. -/
theorem parse_binding_response :
    (∀ data txn, ∃ result, parseStunResponse data txn = .ok result) ∧
      (∀ r : BindingResponse, parseStunResponse r.encode r.txn = .ok (.ok r.addr)) ∧
      ∀ data txn, ¬ HeaderOk data txn →
        ∃ message, parseStunResponse data txn = .ok (.error message) :=
  ⟨parseStunResponse_returns, fun r => r.parse_encode, fun _ _ => parseStunResponse_of_not_header⟩

namespace Small

/-- The XOR-MAPPED-ADDRESS attribute of the address 192.0.2.1:32853. -/
def xorMapped : Attribute where
  attrType := STUN_ATTR_XOR_MAPPED_ADDRESS
  value := xorMappedValue 0 { ip := 0xC0000201, port := 32853 }
  padding := []
  length_lt := by decide
  length_padding := by decide

/-- A SOFTWARE attribute of three characters, filled up to four. -/
def software : Attribute where
  attrType := 0x8022
  value := [0x61, 0x62, 0x63]
  padding := [0]
  length_lt := by decide
  length_padding := by decide

/-- A response with the software before the address. -/
def response : BindingResponse where
  txn := Vector.replicate 12 7
  addr := { ip := 0xC0000201, port := 32853 }
  before := [software]
  address := xorMapped
  after := []
  before_other := by decide
  address_of := ⟨0, Or.inl ⟨rfl, rfl⟩⟩
  length_lt := by decide

/-- Its 40 bytes are read, and those of another transaction refused. -/
theorem parse_binding_response_software :
    response.encode.length = 40 ∧
      parseStunResponse response.encode (Vector.replicate 12 7) =
        .ok (.ok { ip := 0xC0000201, port := 32853 }) ∧
      ∃ message,
        parseStunResponse response.encode (Vector.replicate 12 8) = .ok (.error message) := by
  have hother : ¬ HeaderOk response.encode (Vector.replicate 12 8) := by decide
  exact ⟨by decide, parse_binding_response.2.1 response, parse_binding_response.2.2 _ _ hother⟩

end Small

/-! ## Bytes behind the message -/

theorem getD_take {data : Bytes} {e i : ℕ} (h : i < e) :
    (data.take e).getD i 0 = data.getD i 0 := by
  rw [List.getD_eq_getElem?_getD, List.getD_eq_getElem?_getD, List.getElem?_take_of_lt h]

theorem typeAt_take {data : Bytes} {e offset : ℕ} (h : offset + 4 ≤ e) :
    typeAt (data.take e) offset = typeAt data offset := by
  rw [typeAt, getD_take (by omega), getD_take (by omega), typeAt]

theorem lenAt_take {data : Bytes} {e offset : ℕ} (h : offset + 4 ≤ e) :
    lenAt (data.take e) offset = lenAt data offset := by
  rw [lenAt, getD_take (by omega), getD_take (by omega), lenAt]

theorem valueAt_take {data : Bytes} {e offset : ℕ} (h : offset + 4 + lenAt data offset ≤ e) :
    valueAt (data.take e) offset = valueAt data offset := by
  rw [valueAt, lenAt_take (by omega), List.drop_take, List.take_take, Nat.min_eq_left (by omega),
    valueAt]

/-- The loop steps over the attribute at `offset`, to `next`. -/
def StepsOver (data : Bytes) (offset next : ℕ) : Prop :=
  ¬ Mapped (typeAt data offset) ∧ next = offset + 4 + padded (lenAt data offset)

/-- Behind attributes of other types, from `start` on, an address attribute has its header before
`msgEnd` and the end of its value behind it, with the bytes of the value all there. -/
def StraddlesFrom (data : Bytes) (msgEnd start : ℕ) : Prop :=
  ∃ offset, Relation.ReflTransGen (StepsOver data) start offset ∧ offset + 4 ≤ msgEnd ∧
    Mapped (typeAt data offset) ∧ msgEnd < offset + 4 + lenAt data offset ∧
    offset + 4 + lenAt data offset ≤ data.length

/-- An address attribute straddles the end of the message. -/
def Straddles (data : Bytes) : Prop := StraddlesFrom data (messageEnd data) 20

theorem StepsOver.lt {data : Bytes} {offset next : ℕ} (h : StepsOver data offset next) :
    offset + 4 + lenAt data offset ≤ next := by
  have hle := le_padded (lenAt data offset)
  rw [h.2]
  omega

theorem le_of_stepsOver {data : Bytes} {start offset : ℕ}
    (h : Relation.ReflTransGen (StepsOver data) start offset) : start ≤ offset := by
  induction h with
  | refl => exact le_rfl
  | tail _ hstep ih =>
      have hlt := hstep.lt
      omega

/-- An address attribute at the start straddles alone. -/
theorem straddlesFrom_of_mapped {data : Bytes} {msgEnd start : ℕ}
    (h : Mapped (typeAt data start)) (hstart : start + 4 ≤ msgEnd) :
    StraddlesFrom data msgEnd start ↔
      msgEnd < start + 4 + lenAt data start ∧ start + 4 + lenAt data start ≤ data.length := by
  constructor
  · rintro ⟨offset, hsteps, -, -, hend, hdata⟩
    obtain rfl | ⟨next, hstep, -⟩ := Relation.ReflTransGen.cases_head hsteps
    · exact ⟨hend, hdata⟩
    · exact absurd h hstep.1
  · rintro ⟨hend, hdata⟩
    exact ⟨start, Relation.ReflTransGen.refl, hstart, h, hend, hdata⟩

/-- Past an attribute of another type, the next attributes decide. -/
theorem straddlesFrom_of_other {data : Bytes} {msgEnd start : ℕ}
    (h : ¬ Mapped (typeAt data start)) :
    StraddlesFrom data msgEnd start ↔
      StraddlesFrom data msgEnd (start + 4 + padded (lenAt data start)) := by
  constructor
  · rintro ⟨offset, hsteps, hhead, hmapped, hrest⟩
    obtain rfl | ⟨next, hstep, hsteps'⟩ := Relation.ReflTransGen.cases_head hsteps
    · exact absurd hmapped h
    · rw [hstep.2] at hsteps'
      exact ⟨offset, hsteps', hhead, hmapped, hrest⟩
  · rintro ⟨offset, hsteps, hrest⟩
    exact ⟨offset, Relation.ReflTransGen.head ⟨h, rfl⟩ hsteps, hrest⟩

theorem not_straddlesFrom_of_end {data : Bytes} {msgEnd start : ℕ} (h : msgEnd < start + 4) :
    ¬ StraddlesFrom data msgEnd start := by
  rintro ⟨offset, hsteps, hhead, -⟩
  have hle := le_of_stepsOver hsteps
  omega

/-- The loop with and without the bytes behind the message. -/
theorem parseAttributes_take_iff {data : Bytes} {msgEnd : ℕ} (hend : msgEnd ≤ data.length)
    (offset : ℕ) :
    parseAttributes data msgEnd offset = parseAttributes (data.take msgEnd) msgEnd offset ↔
      ¬ StraddlesFrom data msgEnd offset := by
  have hcut : (data.take msgEnd).length = msgEnd := List.length_take_of_le hend
  induction hleft : msgEnd - offset using Nat.strong_induction_on generalizing offset with
  | _ left ih =>
      by_cases hhead : offset + 4 ≤ msgEnd
      · rw [parseAttributes_round hhead (by omega), parseAttributes_round hhead (by omega),
          typeAt_take hhead, lenAt_take hhead, hcut]
        have hle := le_padded (lenAt data offset)
        by_cases hvalue : msgEnd < offset + 4 + lenAt data offset
        · rw [if_pos hvalue]
          by_cases hmapped : Mapped (typeAt data offset)
          · rw [straddlesFrom_of_mapped hmapped hhead, if_pos hmapped]
            by_cases hdata : data.length < offset + 4 + lenAt data offset
            · rw [if_pos hdata]
              exact iff_of_true rfl (by omega)
            · rw [if_neg hdata]
              exact iff_of_false (parseMapped_ne _ _) (not_not_intro ⟨hvalue, by omega⟩)
          -- the walk has left the message, with or without the value
          · rw [straddlesFrom_of_other hmapped, if_neg hmapped, parseAttributes_stop (by omega),
              ite_self]
            exact iff_of_true rfl (not_straddlesFrom_of_end (by omega))
        -- an attribute inside the message is read alike
        · rw [if_neg hvalue, if_neg (by omega), valueAt_take (by omega)]
          by_cases hmapped : Mapped (typeAt data offset)
          · rw [straddlesFrom_of_mapped hmapped hhead, if_pos hmapped, if_pos hmapped]
            exact iff_of_true rfl (by omega)
          · rw [straddlesFrom_of_other hmapped, if_neg hmapped, if_neg hmapped]
            exact ih _ (by omega) _ rfl
      · rw [parseAttributes_stop (by omega), parseAttributes_stop (by omega)]
        exact iff_of_true rfl (not_straddlesFrom_of_end (by omega))

/-- A datagram is read differently without the bytes behind its message exactly when an address
attribute straddles the end of the message. -/
theorem parse_take_iff {data : Bytes} {txn : Vector UInt8 12} (hlen : 20 ≤ data.length)
    (hend : messageEnd data ≤ data.length) :
    parseStunResponse data txn = parseStunResponse (data.take (messageEnd data)) txn ↔
      ¬ (HeaderOk data txn ∧ Straddles data) := by
  have hcut : (data.take (messageEnd data)).length = messageEnd data := List.length_take_of_le hend
  have hmin : 20 ≤ messageEnd data := Nat.le_add_right _ _
  have htype : typeAt (data.take (messageEnd data)) 0 = typeAt data 0 := typeAt_take (by omega)
  have hcookie : cookieAt (data.take (messageEnd data)) = cookieAt data := by
    rw [cookieAt, getD_take (by omega), getD_take (by omega), getD_take (by omega),
      getD_take (by omega), cookieAt]
  have htxn : ((data.take (messageEnd data)).drop 8).take 12 = (data.drop 8).take 12 := by
    rw [List.drop_take, List.take_take, Nat.min_eq_left (by omega)]
  have hmessage : messageEnd (data.take (messageEnd data)) = messageEnd data := by
    rw [messageEnd, lenAt_take (by omega), messageEnd]
  by_cases hheader : HeaderOk data txn
  · have hheader' : HeaderOk (data.take (messageEnd data)) txn := by
      rwa [HeaderOk, htype, hcookie, htxn]
    rw [parseStunResponse_of_header hlen hheader, parseStunResponse_of_header (by omega) hheader',
      hmessage, parseAttributes_take_iff hend]
    simp [hheader, Straddles]
  · rw [parseStunResponse_eq hlen, parseStunResponse_eq (by omega), htype, hcookie, htxn]
    split_ifs with htype' hcookie' htxn'
    · exact iff_of_true rfl (fun h => hheader h.1)
    · exact iff_of_true rfl (fun h => hheader h.1)
    · exact iff_of_true rfl (fun h => hheader h.1)
    · exact absurd ⟨not_not.mp htype', not_not.mp hcookie', not_not.mp htxn'⟩ hheader

/-- A response with no transaction id to speak of, four bytes long by its header: it ends behind
the header of the address attribute. -/
def straddlingResponse : Bytes :=
  [0x01, 0x01, 0, 4, 0x21, 0x12, 0xA4, 0x42] ++ List.replicate 12 0 ++
    [0, 0x20, 0, 8, 0, 1, 0x21, 0x12, 0x21, 0x12, 0xA4, 0x43]

theorem parse_take_iff_straddling :
    parseStunResponse straddlingResponse (Vector.replicate 12 0) =
        parseStunResponse (straddlingResponse.take (messageEnd straddlingResponse))
          (Vector.replicate 12 0) ↔
      ¬ (HeaderOk straddlingResponse (Vector.replicate 12 0) ∧ Straddles straddlingResponse) :=
  parse_take_iff (by decide) (by decide)

/-- The address behind the end of the message is returned. -/
theorem parse_straddling :
    20 ≤ straddlingResponse.length ∧ messageEnd straddlingResponse ≤ straddlingResponse.length ∧
      parseStunResponse straddlingResponse (Vector.replicate 12 0) =
        .ok (.ok { ip := 1, port := 0 }) ∧
      parseStunResponse (straddlingResponse.take (messageEnd straddlingResponse))
        (Vector.replicate 12 0) = .ok (.error "No mapped address in STUN response") := by
  refine ⟨by decide, by decide, ?_, ?_⟩
  · rw [parseStunResponse_of_header (by decide) (by decide),
      parseAttributes_round (by decide) (by decide), if_neg (by decide), if_pos (by decide)]
    rfl
  · rw [parseStunResponse_of_header (by decide) (by decide),
      parseAttributes_round (by decide) (by decide), if_pos (by decide)]
    rfl

end Updown.Stun
