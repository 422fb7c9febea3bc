import Updown.Lib.Blocks

set_option autoImplicit false

/-! # Several versions of one list, written block by block

Several writers put their version of a list into one place, each in blocks of its own size and in
any order; a writer also sets the length when it starts. A position is disputed when the versions
differ there. `Mergeable` says that the disputed positions of each version lie in one of its blocks,
so that a single write decides all of them. Then what has been written stays `Right`, and when all
of a list has been written it is one of the versions (`exists_eq_of_right`).
-/

namespace Versions

open Blocks

variable {ι α : Type*} {S : ι → List α} {b : ι → ℕ}

/-- The versions differ in position `k`; that one of them ends before `k` is a difference too. -/
def Disputed (S : ι → List α) (k : ℕ) : Prop := ∃ i j, (S i)[k]? ≠ (S j)[k]?

/-- **No two blocks of a version are disputed.** If lengths differ there are two versions only, and
the shorter one is a prefix of the other. -/
structure Mergeable (S : ι → List α) (b : ι → ℕ) : Prop where
  pos : ∀ i, 0 < b i
  oneBlock : ∀ i, ∃ n, ∀ k < (S i).length, Disputed S k → k / b i = n
  prefixes : ∀ i j, (S i).length ≠ (S j).length →
    (∀ k, k < (S i).length → k < (S j).length → (S i)[k]? = (S j)[k]?) ∧ ∀ m, m = i ∨ m = j

/-- One version holds in all the disputed positions. -/
def Settled (S : ι → List α) (f : List α) : Prop :=
  ∃ i, ∀ k, Disputed S k → f[k]? = (S i)[k]?

/-- The list has the length of one of the versions. -/
def Sized (S : ι → List α) (f : List α) : Prop := ∃ i, f.length = (S i).length

/-- Position `k` holds what version `i` has there; if it is disputed, some version holds. -/
structure Right (S : ι → List α) (i : ι) (f : List α) (k : ℕ) : Prop where
  settled : Disputed S k → Settled S f
  agreed : ¬ Disputed S k → f[k]? = (S i)[k]?

theorem eq_of_not_disputed {k : ℕ} (h : ¬ Disputed S k) (i j : ι) : (S i)[k]? = (S j)[k]? := by
  by_contra hne
  exact h ⟨i, j, hne⟩

/-- One version alone is mergeable. -/
theorem Mergeable.of_unique (hb : ∀ i, 0 < b i) {i : ι} (h : ∀ j, j = i) : Mergeable S b where
  pos := hb
  oneBlock := by
    intro j
    refine ⟨0, fun k _ hk => ?_⟩
    obtain ⟨m, m', hne⟩ := hk
    rw [h m, h m'] at hne
    exact absurd rfl hne
  prefixes := by
    intro j j' hne
    rw [h j, h j'] at hne
    exact absurd rfl hne

theorem Right.of_agreed {i j : ι} {f : List α} {k : ℕ} (h : Right S i f k) : Right S j f k :=
  ⟨h.settled, fun hk => (h.agreed hk).trans (eq_of_not_disputed hk i j)⟩

/-- A position that one version has and another has not is disputed. -/
theorem disputed_of_length {i j : ι} {k : ℕ} (hi : k < (S i).length) (hj : (S j).length ≤ k) :
    Disputed S k := by
  refine ⟨i, j, ?_⟩
  rw [List.getElem?_eq_getElem hi, List.getElem?_eq_none hj]
  simp

/-- Where lengths differ, the shorter version is not disputed. -/
theorem Mergeable.not_disputed (h : Mergeable S b) {i j : ι} (hlen : (S i).length ≠ (S j).length)
    {k : ℕ} (hi : k < (S i).length) (hj : k < (S j).length) : ¬ Disputed S k := by
  obtain ⟨heq, htwo⟩ := h.prefixes i j hlen
  rintro ⟨m, m', hne⟩
  rcases htwo m with rfl | rfl <;> rcases htwo m' with rfl | rfl
  · exact hne rfl
  · exact hne (heq k hi hj)
  · exact hne (heq k hi hj).symm
  · exact hne rfl

/-- Two disputed positions of a version are in the same block. -/
theorem Mergeable.div_eq (h : Mergeable S b) {i : ι} {k k' : ℕ} (hk : k < (S i).length)
    (hk' : k' < (S i).length) (hd : Disputed S k) (hd' : Disputed S k') :
    k / b i = k' / b i := by
  obtain ⟨n, hn⟩ := h.oneBlock i
  rw [hn k hk hd, hn k' hk' hd']

/-- A version that has a disputed position ends after all of them. -/
theorem Mergeable.lt_of_disputed (h : Mergeable S b) {i : ι} {k k' : ℕ} (hk : k < (S i).length)
    (hd : Disputed S k) (hd' : Disputed S k') : k' < (S i).length := by
  by_contra hge
  -- another version goes on beyond the end of this one
  obtain ⟨j, hj⟩ : ∃ j, k' < (S j).length := by
    obtain ⟨m, m', hne⟩ := hd'
    by_contra hall
    push Not at hall
    exact hne (by rw [List.getElem?_eq_none (hall m), List.getElem?_eq_none (hall m')])
  exact h.not_disputed (i := i) (j := j) (by omega) hk (by omega) hd

/-! ## Writing a block -/

section

variable {z : α} {i j : ι} {f : List α} {n k : ℕ}

/-- The places a block of a version is written to. -/
def InBlock (S : ι → List α) (b : ι → ℕ) (i : ι) (n k : ℕ) : Prop :=
  k < (S i).length ∧ k / b i = n

theorem inBlock_iff (hb : 0 < b i) :
    InBlock S b i n k ↔
      n * b i ≤ k ∧ k < n * b i + (block (b i) (S i) n).length := by
  have hdiv : k / b i = n ↔ n * b i ≤ k ∧ k < (n + 1) * b i := by
    rw [Nat.div_eq_iff hb, Nat.add_one_mul]
    omega
  rw [InBlock, hdiv, length_block, Nat.add_one_mul]
  omega

/-- A block of a version starts inside the list. -/
theorem Mergeable.offset_le (h : Mergeable S b) (hf : Sized S f) (hn : n * b i < (S i).length) :
    n * b i ≤ f.length := by
  obtain ⟨m, hm⟩ := hf
  by_contra hlt
  -- the end of the list and the start of the block are both disputed
  have hend : Disputed S f.length := disputed_of_length (i := i) (j := m) (by omega) (by omega)
  have hstart : Disputed S (n * b i) := disputed_of_length (j := m) hn (by omega)
  have heq := h.div_eq (by omega) hn hend hstart
  rw [Nat.mul_div_cancel _ (h.pos i)] at heq
  have := Nat.div_mul_le_self f.length (b i)
  rw [heq] at this
  omega

/-- **What a write leaves**: the version's items in its block, the old ones elsewhere. -/
theorem Mergeable.getElem?_write (h : Mergeable S b) (hf : Sized S f)
    (hn : n * b i < (S i).length) (k : ℕ) :
    (InBlock S b i n k → (patch z f (n * b i) (block (b i) (S i) n))[k]? = (S i)[k]?) ∧
    (¬ InBlock S b i n k → (patch z f (n * b i) (block (b i) (S i) n))[k]? = f[k]?) := by
  rw [getElem?_patch_of_le (h.offset_le hf hn), inBlock_iff (h.pos i)]
  constructor
  · intro hin
    have hlen : (block (b i) (S i) n).length ≤ b i := by
      rw [length_block]
      exact min_le_left _ _
    rw [if_pos hin, getElem?_block, if_pos (by omega), Nat.add_sub_of_le hin.1]
  · intro hout
    rw [if_neg hout]

/-- If a block is disputed, writing it decides all that is disputed. -/
theorem Mergeable.settled_write (h : Mergeable S b) (hf : Sized S f)
    (hn : n * b i < (S i).length) (hin : InBlock S b i n k) (hk : Disputed S k) :
    Settled S (patch z f (n * b i) (block (b i) (S i) n)) := by
  refine ⟨i, fun k' hk' => ?_⟩
  have hlt := h.lt_of_disputed hin.1 hk hk'
  exact (h.getElem?_write hf hn k').1 ⟨hlt, (h.div_eq hlt hin.1 hk' hk).trans hin.2⟩

/-- **What is written is right.** -/
theorem Mergeable.right_write (h : Mergeable S b) (hf : Sized S f)
    (hn : n * b i < (S i).length) (hin : InBlock S b i n k) :
    Right S i (patch z f (n * b i) (block (b i) (S i) n)) k :=
  ⟨fun hk => h.settled_write hf hn hin hk, fun _ => (h.getElem?_write hf hn k).1 hin⟩

/-- **What was right stays right**, whoever writes. -/
theorem Mergeable.right_of_write (h : Mergeable S b) (hf : Sized S f)
    (hn : n * b i < (S i).length) (hright : Right S j f k) :
    Right S j (patch z f (n * b i) (block (b i) (S i) n)) k := by
  refine ⟨fun hk => ?_, fun hk => ?_⟩
  · by_cases hin : ∃ k', InBlock S b i n k' ∧ Disputed S k'
    · obtain ⟨k', hin, hk'⟩ := hin
      exact h.settled_write hf hn hin hk'
    · push Not at hin
      obtain ⟨m, hm⟩ := hright.settled hk
      refine ⟨m, fun k' hk' => ?_⟩
      rw [(h.getElem?_write hf hn k').2 fun hin' => hin k' hin' hk']
      exact hm k' hk'
  · by_cases hin : InBlock S b i n k
    · rw [(h.getElem?_write hf hn k).1 hin]
      exact eq_of_not_disputed hk i j
    · rw [(h.getElem?_write hf hn k).2 hin]
      exact hright.agreed hk

/-- A write does not change the length, or makes it that of the version. -/
theorem Mergeable.sized_write (h : Mergeable S b) (hf : Sized S f)
    (hn : n * b i < (S i).length) :
    Sized S (patch z f (n * b i) (block (b i) (S i) n)) := by
  have hlen := length_patch_of_le (z := z) (d := block (b i) (S i) n) (h.offset_le hf hn)
  have hblock := length_block (b i) (S i) n
  by_cases hle : n * b i + (block (b i) (S i) n).length ≤ f.length
  · obtain ⟨m, hm⟩ := hf
    exact ⟨m, by rw [hlen, max_eq_left hle, hm]⟩
  · obtain ⟨m, hm⟩ := hf
    -- the first position behind the list and the last of the version are in one block
    have hfirst : Disputed S f.length := disputed_of_length (i := i) (j := m) (by omega) (by omega)
    have hlast : Disputed S ((S i).length - 1) :=
      disputed_of_length (i := i) (j := m) (by omega) (by omega)
    have hin : InBlock S b i n f.length :=
      (inBlock_iff (h.pos i)).mpr ⟨h.offset_le ⟨m, hm⟩ hn, by omega⟩
    have hin' : InBlock S b i n ((S i).length - 1) :=
      ⟨by omega, (h.div_eq (by omega) hin.1 hlast hfirst).trans hin.2⟩
    have hend := ((inBlock_iff (h.pos i)).mp hin').2
    refine ⟨i, ?_⟩
    rw [hlen]
    omega

end

/-! ## Setting the length -/

section

variable {z : α} {i j : ι} {f : List α} {k : ℕ}

theorem sized_resize (S : ι → List α) (z : α) (i : ι) (f : List α) :
    Sized S (resize z (S i).length f) :=
  ⟨i, length_resize z _ f⟩

/-- **What was right stays right** when a writer starts, if lengths agree or what was right is
another's. -/
theorem Mergeable.right_of_resize (h : Mergeable S b) (hf : Sized S f) (hk : k < (S j).length)
    (hij : ∀ m, (S m).length ≠ (S i).length → j ≠ i) (hright : Right S j f k) :
    Right S j (resize z (S i).length f) k := by
  obtain ⟨m, hm⟩ := hf
  by_cases hlen : (S m).length = (S i).length
  · rw [← hlen, ← hm, resize_length_self]
    exact hright
  · -- the list has the length of the other version, which is `j`
    obtain rfl : j = m := ((h.prefixes m i hlen).2 j).resolve_right (hij m hlen)
    have hki : k < f.length := by omega
    refine ⟨fun hd => ⟨i, fun k' hk' => ?_⟩, fun hd => ?_⟩
    · have hi : (S i).length ≤ k' := by
        by_contra hlt
        exact h.not_disputed hlen (h.lt_of_disputed hk hd hk') (by omega) hk'
      rw [List.getElem?_eq_none hi, List.getElem?_eq_none (by rw [length_resize]; exact hi)]
    · rw [getElem?_resize hki, if_pos, hright.agreed hd]
      by_contra hge
      exact hd (disputed_of_length (i := j) (j := i) hk (by omega))

end

/-! ## The end -/

/-- **When all of every version has been written, one version is there.** -/
theorem exists_eq_of_right [Nonempty ι] {f : List α} (hf : Sized S f)
    (hright : ∀ i, ∀ k < (S i).length, Right S i f k) : ∃ i, f = S i := by
  -- the version that holds where there is a dispute; any, if there is none
  have hsettled : Settled S f := by
    by_cases hd : ∃ k, Disputed S k
    · obtain ⟨k, hk⟩ := hd
      obtain ⟨i, hi⟩ : ∃ i, k < (S i).length := by
        obtain ⟨m, m', hne⟩ := hk
        by_contra hall
        push Not at hall
        exact hne (by rw [List.getElem?_eq_none (hall m), List.getElem?_eq_none (hall m')])
      exact (hright i k hi).settled hk
    · exact ⟨Classical.arbitrary ι, fun k hk => absurd ⟨k, hk⟩ hd⟩
  obtain ⟨i, hi⟩ := hsettled
  refine ⟨i, List.ext_getElem? fun k => ?_⟩
  by_cases hk : Disputed S k
  · exact hi k hk
  · rcases Nat.lt_or_ge k (S i).length with hlt | hge
    · exact (hright i k hlt).agreed hk
    · obtain ⟨m, hm⟩ := hf
      have hnone : (S m)[k]? = none := by
        rw [eq_of_not_disputed hk m i, List.getElem?_eq_none hge]
      rw [List.getElem?_eq_none_iff] at hnone
      rw [List.getElem?_eq_none hge, List.getElem?_eq_none (by omega)]

end Versions
