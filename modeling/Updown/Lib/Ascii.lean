import Mathlib.Tactic

set_option autoImplicit false

/-! # ASCII text

The UTF-8 form of an ASCII text has one byte for each character, its code (`flatMap_utf8EncodeChar`
for a list of characters, `toList_toUTF8` for a string). `decode` reads such bytes as characters.
-/

namespace Ascii

/-- The characters are ASCII. -/
def IsAscii (text : List Char) : Prop := ∀ c ∈ text, c.toNat < 128

/-- The codes of the characters, as bytes. -/
def encode (text : List Char) : List UInt8 := text.map Char.toUInt8

/-- The characters whose codes are given. -/
def decode (bytes : List UInt8) : List Char := bytes.map fun b => Char.ofNat b.toNat

theorem IsAscii.append {text text' : List Char} (h : IsAscii text) (h' : IsAscii text') :
    IsAscii (text ++ text') := by
  intro c hc
  rcases List.mem_append.mp hc with hc | hc
  · exact h c hc
  · exact h' c hc

theorem toNat_toUInt8 {c : Char} (h : c.toNat < 128) : c.toUInt8.toNat = c.toNat := by
  rw [Char.toUInt8, UInt32.toNat_toUInt8]
  exact Nat.mod_eq_of_lt (lt_trans h (by decide))

/-- The bytes are read back. -/
theorem decode_encode {text : List Char} (h : IsAscii text) : decode (encode text) = text := by
  rw [decode, encode, List.map_map]
  conv_rhs => rw [← List.map_id text]
  apply List.map_congr_left
  intro c hc
  rw [Function.comp_apply, toNat_toUInt8 (h c hc), Char.ofNat_toNat]
  rfl

/-! ## UTF-8 -/

/-- An ASCII character is one byte. -/
theorem utf8EncodeChar_of_lt {c : Char} (h : c.toNat < 128) :
    String.utf8EncodeChar c = [c.toUInt8] := by
  have hle : c.val ≤ 127 := UInt32.le_iff_toNat_le.mpr (Nat.le_of_lt_succ h)
  exact String.utf8EncodeChar_eq_singleton (Char.utf8Size_eq_one_iff.mpr hle)

theorem flatMap_utf8EncodeChar {text : List Char} (h : IsAscii text) :
    text.flatMap String.utf8EncodeChar = encode text := by
  rw [encode, List.map_eq_flatMap]
  exact List.flatMap_congr fun c hc => utf8EncodeChar_of_lt (h c hc)

theorem toList_loop (bs : ByteArray) (i : ℕ) (acc : List UInt8) :
    ByteArray.toList.loop bs i acc = acc.reverse ++ bs.data.toList.drop i := by
  induction i, acc using ByteArray.toList.loop.induct bs with
  | case1 i acc hi ih =>
      have hlt : i < bs.data.toList.length := by simpa using hi
      have hget : bs.get! i = bs.data.toList[i] := by simp [ByteArray.get!, hi]
      rw [ByteArray.toList.loop, if_pos hi, ih, hget, List.drop_eq_getElem_cons hlt,
        List.reverse_cons, List.append_assoc, List.singleton_append]
  | case2 i acc hi =>
      have hle : bs.data.toList.length ≤ i := by simpa using hi
      rw [ByteArray.toList.loop, if_neg hi, List.drop_eq_nil_of_le hle, List.append_nil]

theorem toList_eq_data (bs : ByteArray) : bs.toList = bs.data.toList := by
  rw [ByteArray.toList, toList_loop]
  rfl

/-- The bytes of an ASCII string. -/
theorem toList_toUTF8 {s : String} (h : IsAscii s.toList) : s.toUTF8.toList = encode s.toList := by
  have hbytes : s.toUTF8 = (s.toList.flatMap String.utf8EncodeChar).toByteArray := by
    rw [String.toUTF8_eq_toByteArray, ← String.utf8Encode_toList]
    rfl
  rw [hbytes, toList_eq_data, List.toList_data_toByteArray, flatMap_utf8EncodeChar h]

end Ascii
