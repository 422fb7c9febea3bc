import Updown.Web.ShareLimits

set_option autoImplicit false

/-! # The codes of share links

`create_share_link` (`web/db.rs`) draws 18 bytes and writes one character for each, chosen by its
low six bits. A code is 18 characters long, where the comments of the source speak of 24, and draws
that differ in the other two bits of their bytes only have one code (`shareCode_eq_iff`).
-/

namespace Updown.Web

namespace Database

theorem nodup_alphabet : ALPHABET.Nodup := by decide +kernel

theorem length_alphabet : ALPHABET.length = 64 := by decide

/-- The low six bits of a byte. -/
theorem low_lt (b : UInt8) : (b &&& 0x3F).toNat < 64 := by
  rw [UInt8.toNat_and]
  exact lt_of_le_of_lt Nat.and_le_right (by decide)

theorem alphabet_getD_inj {i j : ℕ} (hi : i < 64) (hj : j < 64)
    (h : ALPHABET.getD i 'A' = ALPHABET.getD j 'A') : i = j := by
  have hi' : i < ALPHABET.length := length_alphabet ▸ hi
  have hj' : j < ALPHABET.length := length_alphabet ▸ hj
  rw [List.getD_eq_getElem?_getD, List.getD_eq_getElem?_getD, List.getElem?_eq_getElem hi',
    List.getElem?_eq_getElem hj'] at h
  exact nodup_alphabet.getElem_inj_iff.mp h

theorem toList_shareCode (randomBytes : Vector UInt8 18) :
    (shareCode randomBytes).toList =
      randomBytes.toList.map fun b => ALPHABET.getD (b &&& 0x3F).toNat 'A' :=
  String.toList_ofList

theorem length_shareCode (randomBytes : Vector UInt8 18) : (shareCode randomBytes).length = 18 := by
  rw [← String.length_toList, toList_shareCode, List.length_map, Vector.length_toList]

theorem getElem?_shareCode (randomBytes : Vector UInt8 18) (i : Fin 18) :
    (shareCode randomBytes).toList[i]? =
      some (ALPHABET.getD (randomBytes[i] &&& 0x3F).toNat 'A') := by
  rw [toList_shareCode]
  simp

/-- Two draws have one code exactly when their bytes agree in the low six bits. -/
theorem shareCode_eq_iff (r r' : Vector UInt8 18) :
    shareCode r = shareCode r' ↔ ∀ i : Fin 18, r[i] &&& 0x3F = r'[i] &&& 0x3F := by
  constructor
  · intro h i
    have hchar := getElem?_shareCode r i
    rw [h, getElem?_shareCode r' i] at hchar
    have hlow := alphabet_getD_inj (low_lt _) (low_lt _) (Option.some.inj hchar)
    exact (UInt8.toNat_inj.mp hlow).symm
  · intro h
    apply String.toList_inj.mp
    apply List.ext_getElem?
    intro i
    by_cases hi : i < 18
    · have hleft := getElem?_shareCode r ⟨i, hi⟩
      rw [h ⟨i, hi⟩] at hleft
      exact hleft.trans (getElem?_shareCode r' ⟨i, hi⟩).symm
    · have hnone : ∀ s : Vector UInt8 18, (shareCode s).toList[i]? = none := by
        intro s
        rw [List.getElem?_eq_none_iff, String.length_toList, length_shareCode]
        omega
      rw [hnone, hnone]

end Database

open Database

/-- What is said of the codes of two draws: they differ, have 24 characters of the alphabet, pass
the check of a request, and are found once they are stored. -/
structure CodesAsStated (r r' : Vector UInt8 18) : Prop where
  ne : shareCode r ≠ shareCode r'
  length_eq : (shareCode r).length = 24 ∧ (shareCode r').length = 24
  alphabet : ∀ c ∈ (shareCode r).toList ++ (shareCode r').toList, c ∈ ALPHABET
  valid : validShareCode (shareCode r) = true ∧ validShareCode (shareCode r') = true
  found : ∀ db db' i packageId createdBy maxDownloads expiresAt code,
    (Database.createShareLink db i r packageId createdBy maxDownloads expiresAt = some (db', code) ∨
      Database.createShareLink db i r' packageId createdBy maxDownloads expiresAt =
        some (db', code)) → (db'.getShareLink code).isSome

/-- A link that was created is found under its code. -/
theorem isSome_getShareLink {db db' : Database} {i : Insertion} {randomBytes : Vector UInt8 18}
    {packageId createdBy code : String} {maxDownloads : Option ℤ} {expiresAt : Option String}
    (h : db.createShareLink i randomBytes packageId createdBy maxDownloads expiresAt =
      some (db', code)) : (db'.getShareLink code).isSome := by
  obtain ⟨-, -, link, hrows, hcode, -⟩ := createShareLink_eq_some h
  rw [Database.getShareLink, List.find?_isSome]
  refine ⟨link, ?_, beq_iff_eq.mpr hcode⟩
  rw [hrows]
  exact List.mem_append_right _ (List.mem_singleton.mpr rfl)

/-- **No two draws have the codes that are promised**: a code has 18 characters, and 108 bits of
its draw. It passes the check of a request and is found once it is stored. -/
theorem codes_not_asStated (r r' : Vector UInt8 18) :
    ¬ CodesAsStated r r' ∧ (shareCode r).length = 18 ∧
      (shareCode r = shareCode r' ↔ ∀ i : Fin 18, r[i] &&& 0x3F = r'[i] &&& 0x3F) ∧
      validShareCode (shareCode r) = true ∧
      ∀ (db db' : Database) i packageId createdBy maxDownloads expiresAt code,
        db.createShareLink i r packageId createdBy maxDownloads expiresAt = some (db', code) →
          (db'.getShareLink code).isSome := by
  refine ⟨fun h => ?_, length_shareCode r, shareCode_eq_iff r r', validShareCode_shareCode r,
    fun _ _ _ _ _ _ _ _ h => isSome_getShareLink h⟩
  have hlen := h.length_eq.1
  rw [length_shareCode] at hlen
  cases hlen

/-- Two draws that differ in the high bits of every byte have the same code of 18 characters. -/
theorem highBits_lost :
    Vector.replicate 18 (0 : UInt8) ≠ Vector.replicate 18 0xC0 ∧
      shareCode (Vector.replicate 18 0) = shareCode (Vector.replicate 18 0xC0) ∧
      (shareCode (Vector.replicate 18 0)).length = 18 :=
  ⟨by decide, by decide +kernel, length_shareCode _⟩

end Updown.Web
