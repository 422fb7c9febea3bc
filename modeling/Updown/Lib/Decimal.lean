import Updown.Lib.Ascii

set_option autoImplicit false

/-! # Decimal numbers in a text

`join` writes numbers in decimal with a separator between them, and `read` takes such a text apart
again. A separator that is no digit keeps the numbers apart (`read_join`). With an ASCII separator
the numbers can be read from the bytes of the text (`read_decode_encode`).
-/

namespace Decimal

open Ascii (IsAscii)

/-- The numbers in decimal, with `sep` between them. -/
def join (sep : Char) (ns : List ℕ) : List Char := [sep].intercalate (ns.map (Nat.toDigits 10))

/-- The numbers between the separators of a text. -/
def read (sep : Char) (text : List Char) : List ℕ :=
  (text.splitOn sep).map fun digits => Nat.ofDigitChars 10 digits 0

/-- What is joined is read back. -/
theorem read_join {sep : Char} (hsep : sep.isDigit = false) {ns : List ℕ} (hns : ns ≠ []) :
    read sep (join sep ns) = ns := by
  have hfree : ∀ digits ∈ ns.map (Nat.toDigits 10), sep ∉ digits := by
    intro digits hdigits hmem
    obtain ⟨n, -, rfl⟩ := List.mem_map.mp hdigits
    have hdigit := Nat.isDigit_of_mem_toDigits (by decide) (by decide) hmem
    rw [hsep] at hdigit
    cases hdigit
  -- so splitting gives the decimals back, and each is read as its number
  have hne : ns.map (Nat.toDigits 10) ≠ [] := by simpa using hns
  rw [read, join, List.splitOn_intercalate sep hfree hne, List.map_map]
  conv_rhs => rw [← List.map_id ns]
  apply List.map_congr_left
  intro n _
  exact Nat.ofDigitChars_ten_toDigits

/-! ## The text as bytes -/

theorem isAscii_toDigits (n : ℕ) : IsAscii (Nat.toDigits 10 n) := by
  intro c hc
  have hdigit := Nat.isDigit_of_mem_toDigits (by decide) (by decide) hc
  have hle := (Char.isDigit_iff_toNat.mp hdigit).2
  exact lt_of_le_of_lt hle (by decide)

theorem isAscii_join {sep : Char} (hsep : sep.toNat < 128) (ns : List ℕ) :
    IsAscii (join sep ns) := by
  induction ns with
  | nil => simp [join, IsAscii]
  | cons n ns ih =>
      cases ns with
      | nil => simpa [join] using isAscii_toDigits n
      | cons m ns =>
          have hjoin : join sep (n :: m :: ns) =
              Nat.toDigits 10 n ++ sep :: join sep (m :: ns) := by simp [join]
          rw [hjoin]
          refine (isAscii_toDigits n).append ?_
          intro c hc
          rcases List.mem_cons.mp hc with rfl | hc
          · exact hsep
          · exact ih c hc

/-- Numbers are read from the bytes of a text. -/
theorem read_decode_encode {sep : Char} (hsep : sep.toNat < 128) (hdigit : sep.isDigit = false)
    {ns : List ℕ} (hns : ns ≠ []) : read sep (Ascii.decode (Ascii.encode (join sep ns))) = ns := by
  rw [Ascii.decode_encode (isAscii_join hsep ns), read_join hdigit hns]

end Decimal
