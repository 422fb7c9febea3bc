import Mathlib.Data.List.Basic
import Mathlib.Tactic

set_option autoImplicit false

/-! # Lists cut into blocks

A list of `n` items is cut into `count n b` blocks of `b` items, the last one possibly shorter.
`block b S i` is block `i` of `S`. A random-access file is a list that is overwritten in place
(`patch`) and resized (`resize`); both extend a short file with a fill item `z`. The results say
which blocks a write changes, and that a list is determined by its blocks.
-/

namespace Blocks

variable {α : Type*}

/-! ## The partition -/

/-- The number of blocks of `b` items needed for `n` items. -/
def count (n b : ℕ) : ℕ := (n + b - 1) / b

/-- Block `i` of `S`. -/
def block (b : ℕ) (S : List α) (i : ℕ) : List α := (S.drop (i * b)).take b

theorem lt_count_iff {n b : ℕ} (hb : 0 < b) (i : ℕ) : i < count n b ↔ i * b < n := by
  unfold count
  rw [← Nat.succ_le_iff, Nat.le_div_iff_mul_le hb, Nat.succ_mul]
  omega

@[simp] theorem count_zero {b : ℕ} (hb : 0 < b) : count 0 b = 0 := by
  unfold count
  exact Nat.div_eq_of_lt (by omega)

theorem count_pos {n b : ℕ} (hb : 0 < b) (hn : 0 < n) : 0 < count n b :=
  (lt_count_iff hb 0).mpr (by simpa using hn)

theorem le_count_mul {n b : ℕ} (hb : 0 < b) : n ≤ count n b * b := by
  by_contra h
  exact absurd ((lt_count_iff hb (count n b)).mpr (by omega)) (lt_irrefl _)

@[simp] theorem length_block (b : ℕ) (S : List α) (i : ℕ) :
    (block b S i).length = min b (S.length - i * b) := by
  simp [block]

theorem getElem?_block (b : ℕ) (S : List α) (i k : ℕ) :
    (block b S i)[k]? = if k < b then S[i * b + k]? else none := by
  by_cases hk : k < b <;> simp [block, hk]

/-- From the last block on there is at most one block left. -/
theorem sub_le_of_last {n b i : ℕ} (hb : 0 < b) (hi : i + 1 = count n b) : n - i * b ≤ b := by
  have h : n ≤ (i + 1) * b := hi ▸ le_count_mul hb
  rw [Nat.succ_mul] at h
  omega

/-- Before the last block there is more than one block left. -/
theorem lt_sub_of_not_last {n b i : ℕ} (hb : 0 < b) (hi : i + 1 < count n b) : b < n - i * b := by
  have h := (lt_count_iff hb (i + 1)).mp hi
  rw [Nat.succ_mul] at h
  omega

/-- The last block runs to the end of the list. -/
theorem length_block_last {b : ℕ} (hb : 0 < b) (S : List α) {i : ℕ}
    (hi : i + 1 = count S.length b) : (block b S i).length = S.length - i * b := by
  rw [length_block]
  exact min_eq_right (sub_le_of_last hb hi)

/-- A block that is not the last one is full. -/
theorem length_block_of_lt {b : ℕ} (hb : 0 < b) (S : List α) {i : ℕ}
    (hi : i + 1 < count S.length b) : (block b S i).length = b := by
  rw [length_block]
  exact min_eq_left (lt_sub_of_not_last hb hi).le

/-- The ranges `(offset, length)` numbered below `T` tile `[0, n)`: each ends inside, and every
position lies in exactly one of them. -/
structure Tiles (n T : ℕ) (range : ℕ → ℕ × ℕ) : Prop where
  end_le : ∀ i < T, (range i).1 + (range i).2 ≤ n
  existsUnique : ∀ k < n, ∃! i, i < T ∧ (range i).1 ≤ k ∧ k < (range i).1 + (range i).2

/-- **The blocks tile the list**: position `k` lies in block `k / b` and in no other. -/
theorem tiles {b : ℕ} (hb : 0 < b) (n : ℕ) :
    Tiles n (count n b) fun i => (i * b, min (n - i * b) b) := by
  constructor
  · intro i hi
    have hoff := (lt_count_iff hb i).mp hi
    dsimp only
    omega
  · intro k hk
    have hle : k / b * b ≤ k := Nat.div_mul_le_self k b
    have hlt : k < k / b * b + b := Nat.lt_div_mul_add hb
    refine ⟨k / b, ⟨(lt_count_iff hb _).mpr (by omega), hle, ?_⟩, ?_⟩
    · dsimp only
      omega
    · rintro i ⟨-, hbefore, hafter⟩
      dsimp only at hbefore hafter
      have hend : k < (i + 1) * b := by
        rw [Nat.succ_mul]
        omega
      exact (Nat.div_eq_of_lt_le hbefore hend).symm

/-- **Blocks determine the list.** -/
theorem ext_blocks {b : ℕ} (hb : 0 < b) {S T : List α} (hlen : S.length = T.length)
    (h : ∀ i < count T.length b, block b S i = block b T i) : S = T := by
  apply List.ext_getElem? fun k => ?_
  have hdiv : k / b * b + k % b = k := Nat.div_add_mod' k b
  by_cases hk : k < T.length
  · have hi : k / b < count T.length b :=
      (lt_count_iff hb _).mpr (lt_of_le_of_lt (Nat.div_mul_le_self k b) hk)
    have := congrArg (fun l => l[k % b]?) (h _ hi)
    simpa [getElem?_block, Nat.mod_lt k hb, hdiv] using this
  · rw [List.getElem?_eq_none (by omega), List.getElem?_eq_none (by omega)]

/-- The first `n` blocks, joined. -/
theorem flatten_blocks (b n : ℕ) (S : List α) :
    ((List.range n).map (block b S)).flatten = S.take (n * b) := by
  induction n with
  | zero => simp
  | succ n ih =>
      rw [List.range_succ, List.map_append, List.flatten_append, ih, Nat.succ_mul, List.take_add]
      simp [block]

/-- **Joining all blocks gives the list back.** -/
theorem flatten_all_blocks {b : ℕ} (hb : 0 < b) (S : List α) :
    ((List.range (count S.length b)).map (block b S)).flatten = S := by
  rw [flatten_blocks, List.take_of_length_le (le_count_mul hb)]

/-- All blocks of a list, in order. -/
def blocks (b : ℕ) (S : List α) : List (List α) :=
  (List.range (count S.length b)).map (block b S)

theorem blocks_append {b : ℕ} (hb : 0 < b) {p : List α} (hp : p.length = b) (S : List α) :
    blocks b (p ++ S) = p :: blocks b S := by
  have hcount : count (p ++ S).length b = count S.length b + 1 := by
    rw [List.length_append, hp, count, count, ← Nat.add_div_right _ hb]
    congr 1
    omega
  have hfirst : block b (p ++ S) 0 = p := by
    rw [block, Nat.zero_mul, List.drop_zero, List.take_left' hp]
  have hnext : ∀ i, block b (p ++ S) (i + 1) = block b S i := by
    intro i
    rw [block, block, Nat.succ_mul, Nat.add_comm, ← List.drop_drop, List.drop_left' hp]
  rw [blocks, hcount, List.range_succ_eq_map, List.map_cons, List.map_map, hfirst, blocks]
  congr 1
  exact List.map_congr_left fun i _ => hnext i

/-- **Lists of one length are found again in what they were joined to.** -/
theorem blocks_flatten {b : ℕ} (hb : 0 < b) {parts : List (List α)}
    (h : ∀ p ∈ parts, p.length = b) : blocks b parts.flatten = parts := by
  induction parts with
  | nil => simp [blocks, hb]
  | cons p parts ih =>
      rw [List.flatten_cons, blocks_append hb (h p List.mem_cons_self),
        ih fun q hq => h q (List.mem_cons_of_mem p hq)]

/-! ## Writing in place -/

/-- Resize to `n` items, cutting off the end or filling up with `z`. -/
def resize (z : α) (n : ℕ) (f : List α) : List α := f.take n ++ List.replicate (n - f.length) z

/-- Write `d` at offset `off`. Nothing is written, and nothing extended, when `d` is empty. -/
def patch (z : α) (f : List α) (off : ℕ) (d : List α) : List α :=
  if d.isEmpty then f
  else f.take off ++ List.replicate (off - f.length) z ++ d ++ f.drop (off + d.length)

@[simp] theorem length_resize (z : α) (n : ℕ) (f : List α) : (resize z n f).length = n := by
  simp [resize]; omega

theorem resize_length_self (z : α) (f : List α) : resize z f.length f = f := by
  simp [resize]

/-- Resizing keeps what is below both lengths. -/
theorem getElem?_resize {z : α} {n : ℕ} {f : List α} {k : ℕ} (hk : k < f.length) :
    (resize z n f)[k]? = if k < n then f[k]? else none := by
  unfold resize
  by_cases hn : k < n
  · rw [if_pos hn, List.getElem?_append_left (by rw [List.length_take]; omega),
      List.getElem?_take, if_pos hn]
  · rw [if_neg hn]
    exact List.getElem?_eq_none (by simp; omega)

/-- A write that starts inside the list or at its end. -/
theorem length_patch_of_le {z : α} {f : List α} {off : ℕ} {d : List α} (h : off ≤ f.length) :
    (patch z f off d).length = max f.length (off + d.length) := by
  unfold patch
  split
  · next hd =>
      obtain rfl : d = [] := by simpa using hd
      simp [h]
  · simp
    omega

/-- A write that ends inside the list keeps its length. -/
theorem length_patch {z : α} {f : List α} {off : ℕ} {d : List α} (h : off + d.length ≤ f.length) :
    (patch z f off d).length = f.length := by
  rw [length_patch_of_le (by omega), max_eq_left h]

theorem getElem?_patch_of_le {z : α} {f : List α} {off : ℕ} {d : List α} (h : off ≤ f.length)
    (k : ℕ) :
    (patch z f off d)[k]? = if off ≤ k ∧ k < off + d.length then d[k - off]? else f[k]? := by
  unfold patch
  split
  · next hd =>
      obtain rfl : d = [] := by simpa using hd
      rw [if_neg (by simp)]
  · have h0 : off - f.length = 0 := by omega
    rw [h0, List.replicate_zero, List.append_nil, List.append_assoc]
    have hlen : (f.take off).length = off := by simp; omega
    rcases Nat.lt_or_ge k off with hk | hk
    · rw [if_neg (by omega), List.getElem?_append_left (by omega), List.getElem?_take, if_pos hk]
    · rw [List.getElem?_append_right (by omega), hlen]
      by_cases hk' : k < off + d.length
      · rw [if_pos ⟨hk, hk'⟩, List.getElem?_append_left (by omega)]
      · rw [if_neg (by omega), List.getElem?_append_right (by omega), List.getElem?_drop]
        congr 1
        omega

theorem getElem?_patch {z : α} {f : List α} {off : ℕ} {d : List α}
    (h : off + d.length ≤ f.length) (k : ℕ) :
    (patch z f off d)[k]? = if off ≤ k ∧ k < off + d.length then d[k - off]? else f[k]? :=
  getElem?_patch_of_le (by omega) k

/-- Writing a whole block: the block read back is what was written. -/
theorem block_patch_self {z : α} {b : ℕ} {f : List α} {i : ℕ} {d : List α}
    (hd : d.length = min b (f.length - i * b)) (hi : i * b ≤ f.length) :
    block b (patch z f (i * b) d) i = d := by
  have hle : i * b + d.length ≤ f.length := by omega
  apply List.ext_getElem? fun k => ?_
  rw [getElem?_block, getElem?_patch hle]
  by_cases hk : k < d.length
  · rw [if_pos (by omega), if_pos (by omega)]
    congr 1
    omega
  · have hnone : d[k]? = none := List.getElem?_eq_none (by omega)
    rw [hnone]
    by_cases hkb : k < b
    · rw [if_pos hkb, if_neg (by omega)]
      exact List.getElem?_eq_none (by omega)
    · rw [if_neg hkb]

/-- A write that does not touch block `j` leaves it alone. -/
theorem block_patch_of_disjoint {z : α} {b : ℕ} {f : List α} {off j : ℕ} {d : List α}
    (h : off + d.length ≤ f.length) (hj : (j + 1) * b ≤ off ∨ off + d.length ≤ j * b) :
    block b (patch z f off d) j = block b f j := by
  rw [Nat.succ_mul] at hj
  apply List.ext_getElem? fun k => ?_
  rw [getElem?_block, getElem?_block, getElem?_patch h]
  by_cases hk : k < b
  · rw [if_pos hk, if_pos hk, if_neg (by omega)]
  · rw [if_neg hk, if_neg hk]

/-! ## Ranges -/

/-- The `n` items from `off` on, as far as there are so many. -/
def slice (S : List α) (off n : ℕ) : List α := (S.drop off).take n

@[simp] theorem slice_zero (S : List α) (off : ℕ) : slice S off 0 = [] := by simp [slice]

theorem length_slice {S : List α} {off n : ℕ} (h : off + n ≤ S.length) :
    (slice S off n).length = n := by
  rw [slice, List.length_take, List.length_drop]
  omega

/-- What was written is read back, also beyond the end. -/
theorem slice_patch_self (z : α) (f : List α) (off : ℕ) (d : List α) :
    slice (patch z f off d) off d.length = d := by
  unfold patch
  split
  · next hd =>
      obtain rfl : d = [] := by simpa using hd
      exact slice_zero f off
  · have hlen : (f.take off ++ List.replicate (off - f.length) z).length = off := by
      simp
      omega
    rw [List.append_assoc, slice, List.drop_left' hlen, List.take_left]

/-- Writing what is there already changes nothing. -/
theorem patch_eq_self {z : α} {f d : List α} {off : ℕ} (h : slice f off d.length = d) :
    patch z f off d = f := by
  unfold patch
  split
  · rfl
  · next hd =>
      have hlen : off ≤ f.length := by
        by_contra hoff
        rw [slice, List.drop_eq_nil_of_le (by omega), List.take_nil] at h
        exact hd (by simp [← h])
      calc f.take off ++ List.replicate (off - f.length) z ++ d ++ f.drop (off + d.length)
          = f.take off ++ ((f.drop off).take d.length ++ (f.drop off).drop d.length) := by
            rw [Nat.sub_eq_zero_of_le hlen, List.replicate_zero, List.append_nil,
              List.append_assoc, List.drop_drop]
            rw [slice] at h
            rw [h]
        _ = f := by rw [List.take_append_drop, List.take_append_drop]

/-- Writing all of something over the beginning of it. -/
theorem patch_patch_take (z : α) (f d : List α) (off n : ℕ) :
    patch z (patch z f off (d.take n)) off d = patch z f off d := by
  rcases Nat.eq_zero_or_pos (d.take n).length with hnil | hpos
  · rw [List.length_eq_zero_iff.mp hnil]
    simp [patch]
  · have hne : (d.take n).isEmpty = false := by
      cases htake : d.take n with
      | nil => simp [htake] at hpos
      | cons x xs => rfl
    have hd : d.isEmpty = false := by
      cases d with
      | nil => simp at hpos
      | cons x xs => rfl
    have hbefore : (f.take off ++ List.replicate (off - f.length) z).length = off := by
      simp
      omega
    have hle : (d.take n).length ≤ d.length := by simp
    have hwritten : patch z f off (d.take n) = (f.take off ++ List.replicate (off - f.length) z)
        ++ (d.take n ++ f.drop (off + (d.take n).length)) := by
      rw [patch, hne, if_neg Bool.false_ne_true, List.append_assoc]
    have hafter : (d.take n ++ f.drop (off + (d.take n).length)).drop d.length
        = f.drop (off + d.length) := by
      rw [List.drop_append, List.drop_eq_nil_of_le hle, List.nil_append, List.drop_drop]
      congr 1
      omega
    rw [patch, hd, if_neg Bool.false_ne_true, hwritten, List.take_left' hbefore, List.length_append,
      hbefore, Nat.sub_eq_zero_of_le (Nat.le_add_right _ _), List.replicate_zero, List.append_nil,
      ← List.drop_drop, List.drop_left' hbefore, hafter, patch, hd, if_neg Bool.false_ne_true]

/-- A range that is filled and not written to is left alone. -/
theorem slice_patch_of_disjoint {z : α} {f d : List α} {off off' n : ℕ}
    (hfull : n ≤ f.length - off') (hdisj : off' + n ≤ off ∨ off + d.length ≤ off') :
    slice (patch z f off d) off' n = slice f off' n := by
  unfold patch
  split
  · rfl
  · rcases Nat.eq_zero_or_pos n with rfl | hn
    · rw [slice_zero, slice_zero]
    · rcases hdisj with hbefore | hafter
      · have hlen : off' + n ≤ (f.take off).length := by
          rw [List.length_take]
          omega
        rw [List.append_assoc, List.append_assoc, slice, List.drop_append_of_le_length (by omega),
          List.take_append_of_le_length (by rw [List.length_drop]; omega), List.drop_take,
          List.take_take, min_eq_left (by omega), slice]
      · have hlen : (f.take off ++ List.replicate (off - f.length) z ++ d).length
            = off + d.length := by
          simp
          omega
        rw [slice, List.drop_append, hlen, List.drop_eq_nil_of_le (by omega), List.nil_append,
          List.drop_drop, Nat.add_sub_of_le hafter, slice]

end Blocks
