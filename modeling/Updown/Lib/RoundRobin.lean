import Mathlib.Data.List.Duplicate
import Mathlib.Data.List.Nodup
import Mathlib.Tactic
import Updown.Lib.Blocks

set_option autoImplicit false

/-! # Queues served in rounds

Round `r` takes item `r` of every queue that has one, in the order of the queues; `serve` is all
rounds, one after the other. Every item is served once, the items of a queue in order
(`filter_serve`). While at least `m` queues have items left, two items of one queue are at least `m`
places apart, so a stretch of `b` places holds at most `⌈b / m⌉` of them (`countP_le`).
-/

namespace RoundRobin

open scoped List

variable {α β ι : Type*}

/-- An item as it is served. -/
structure Slot (α : Type*) where
  /-- The position of its queue. -/
  source : ℕ
  round : ℕ
  item : α

/-- Round `r`. -/
def round (queues : List (List α)) (r : ℕ) : List (Slot α) :=
  queues.zipIdx.filterMap fun q => q.1[r]?.map fun item => ⟨q.2, r, item⟩

/-- The length of the longest queue. -/
def longest (queues : List (List α)) : ℕ := (queues.map List.length).foldr max 0

def serve (queues : List (List α)) : List (Slot α) :=
  (List.range (longest queues)).flatMap (round queues)

/-- The queues that have an item in round `r`. -/
def active (queues : List (List α)) (r : ℕ) : ℕ := queues.countP fun q => r < q.length

/-- The part of `serve` in whose rounds at least `m` queues have an item. -/
def busyPart (queues : List (List α)) (m : ℕ) : List (Slot α) :=
  (serve queues).filter fun s => m ≤ active queues s.round

/-! ## Every item once, in order -/

theorem length_le_longest {queues : List (List α)} {q : List α} (h : q ∈ queues) :
    q.length ≤ longest queues := by
  induction queues with
  | nil => cases h
  | cons q' queues ih =>
      rcases List.mem_cons.mp h with rfl | h
      · exact le_max_left _ _
      · exact le_trans (ih h) (le_max_right _ _)

/-- Filtering by something that the items already have. -/
theorem filter_filterMap_of_iff {f : α → Option β} {p : β → Bool} {q : α → Bool}
    (h : ∀ a b, f a = some b → p b = q a) (l : List α) :
    (l.filterMap f).filter p = (l.filter q).filterMap f := by
  induction l with
  | nil => rfl
  | cons a l ih =>
      cases hf : f a with
      | none => cases hq : q a <;> simp [hf, hq, ih]
      | some b =>
          have hp := h a b hf
          cases hq : q a <;> simp [hf, hq, hp, ih]

theorem filter_zipIdx (l : List α) (i : ℕ) :
    ∀ k, (l.zipIdx k).filter (fun q => q.2 = k + i) = (l[i]?.map fun a => (a, k + i)).toList := by
  induction l generalizing i with
  | nil => simp
  | cons a l ih =>
      intro k
      rw [List.zipIdx_cons]
      cases i with
      | zero =>
          have hlater : (l.zipIdx (k + 1)).filter (fun q => q.2 = k + 0) = [] := by
            rw [List.filter_eq_nil_iff]
            intro q hq
            have := List.le_snd_of_mem_zipIdx hq
            simp only [decide_eq_true_eq]
            omega
          rw [List.filter_cons_of_pos (by simp), hlater]
          rfl
      | succ i =>
          have hshift : k + (i + 1) = k + 1 + i := by omega
          rw [List.filter_cons_of_neg (by simp), hshift, ih i (k + 1)]
          rfl

/-- What queue `i` has in round `r`. -/
theorem filter_round (queues : List (List α)) (r i : ℕ) :
    (round queues r).filter (fun s => s.source = i)
      = ((queues.getD i [])[r]?.map fun item => ⟨i, r, item⟩).toList := by
  have hsource : ∀ (q : List α × ℕ) (s : Slot α),
      (q.1[r]?.map fun item => (⟨q.2, r, item⟩ : Slot α)) = some s →
        decide (s.source = i) = decide (q.2 = i) := by
    intro q s h
    obtain ⟨item, -, rfl⟩ := Option.map_eq_some_iff.mp h
    rfl
  have hqueue := filter_zipIdx queues i 0
  rw [Nat.zero_add] at hqueue
  rw [round, filter_filterMap_of_iff hsource, hqueue, List.getD_eq_getElem?_getD]
  cases queues[i]? with
  | none => simp
  | some q => cases h : q[r]? <;> simp [h]

/-- Enough rounds take every item of a list, in order. -/
theorem flatMap_range_getElem? (f : ℕ → α → β) :
    ∀ {l : List α} {n : ℕ}, l.length ≤ n →
      ((List.range n).flatMap fun r => (l[r]?.map (f r)).toList) = l.mapIdx f := by
  intro l
  induction l generalizing f with
  | nil => simp
  | cons a l ih =>
      intro n hn
      obtain ⟨n, rfl⟩ : ∃ k, n = k + 1 := ⟨n - 1, by simp at hn; omega⟩
      rw [List.range_succ_eq_map, List.flatMap_cons, List.flatMap_map, List.mapIdx_cons]
      have hrest := ih (fun r => f (r + 1)) (show l.length ≤ n by simpa using hn)
      simpa using hrest

/-- **Every item of a queue is served once, in the order of the queue.** -/
theorem filter_serve (queues : List (List α)) (i : ℕ) :
    (serve queues).filter (fun s => s.source = i)
      = (queues.getD i []).mapIdx fun r item => ⟨i, r, item⟩ := by
  have hlen : (queues.getD i []).length ≤ longest queues := by
    rw [List.getD_eq_getElem?_getD]
    cases hq : queues[i]? with
    | none => simp
    | some q => exact length_le_longest (List.mem_of_getElem? hq)
  rw [serve, List.filter_flatMap, ← flatMap_range_getElem? _ hlen]
  congr 1
  funext r
  exact filter_round queues r i

/-- The rounds, with a name for the queues instead of their positions. -/
theorem map_serve (queues : List (ι × List α)) (f : ι → ℕ → α → β) (d : ι) :
    (serve (queues.map Prod.snd)).map
        (fun s => f ((queues.map Prod.fst).getD s.source d) s.round s.item)
      = (List.range (longest (queues.map Prod.snd))).flatMap fun r =>
          queues.filterMap fun q => q.2[r]?.map (f q.1 r) := by
  rw [serve, List.map_flatMap]
  congr 1
  funext r
  rw [round, List.map_filterMap, List.zipIdx_map, List.filterMap_map]
  conv_rhs => rw [← List.zipIdx_map_fst 0 queues, List.filterMap_map]
  apply List.filterMap_congr
  intro q hq
  have hget : queues[q.2]? = some q.1 := List.mem_zipIdx_iff_getElem?.mp hq
  cases h : q.1.2[r]? <;> simp [h, hget]

/-- Every queue has an item in as many rounds as it has items. -/
theorem sum_active (queues : List (List α)) {n : ℕ} (h : ∀ q ∈ queues, q.length ≤ n) :
    ((List.range n).map (active queues)).sum = (queues.map List.length).sum := by
  induction queues with
  | nil =>
      have hzero : active ([] : List (List α)) = fun _ => 0 := rfl
      simp [hzero]
  | cons q queues ih =>
      have hq : ∀ k, ((List.range k).map fun r => if r < q.length then 1 else 0).sum
          = min k q.length := by
        intro k
        induction k with
        | zero => simp
        | succ k ihk =>
            rw [List.range_succ, List.map_append, List.sum_append, ihk]
            simp only [List.map_cons, List.map_nil, List.sum_singleton]
            split <;> omega
      have hstep : active (q :: queues)
          = fun r => active queues r + if r < q.length then 1 else 0 := by
        funext r
        simp [active, List.countP_cons]
      have hlen := h q List.mem_cons_self
      rw [hstep, List.sum_map_add, ih fun q' hq' => h q' (List.mem_cons_of_mem q hq'), hq,
        min_eq_right hlen, List.map_cons, List.sum_cons, Nat.add_comm]

/-! ## Spaced lists -/

/-- Any two occurrences of `i` are at least `m` places apart. -/
def Spaced (m : ℕ) (i : ι) (l : List ι) : Prop :=
  ∀ j k, j < k → l[j]? = some i → l[k]? = some i → j + m ≤ k

theorem Spaced.of_isInfix {m : ℕ} {i : ι} {l w : List ι} (h : Spaced m i l) (hw : w <:+: l) :
    Spaced m i w := by
  obtain ⟨pre, post, rfl⟩ := hw
  intro j k hjk hj hk
  have hget : ∀ n, w[n]? = some i → (pre ++ w ++ post)[pre.length + n]? = some i := by
    intro n hn
    have hlt : n < w.length := (List.getElem?_eq_some_iff.mp hn).1
    rw [List.append_assoc, List.getElem?_append_right (by omega),
      List.getElem?_append_left (by omega), ← hn]
    congr 1
    omega
  have := h (pre.length + j) (pre.length + k) (by omega) (hget j hj) (hget k hk)
  omega

theorem Spaced.count_le_one [DecidableEq ι] {m : ℕ} {i : ι} {l : List ι} (h : Spaced m i l)
    (hlen : l.length ≤ m) : l.count i ≤ 1 := by
  by_contra hcount
  obtain ⟨j, k, hjk, hj, hk⟩ := List.duplicate_iff_exists_distinct_get.mp
    (List.duplicate_iff_two_le_count.mpr (show 2 ≤ l.count i by omega))
  have := h j k hjk (by simp [hj]) (by simp [hk])
  omega

/-- **A spaced list of `b` places has at most `⌈b / m⌉` occurrences.** -/
theorem Spaced.count_le [DecidableEq ι] {m : ℕ} (hm : 0 < m) {i : ι} {l : List ι}
    (h : Spaced m i l) : l.count i ≤ Blocks.count l.length m := by
  induction hn : l.length using Nat.strong_induction_on generalizing l with
  | _ n ih =>
      subst hn
      rcases Nat.lt_or_ge m l.length with hlong | hshort
      · -- the first `m` places hold one occurrence at most
        have hfirst : (l.take m).count i ≤ 1 :=
          (h.of_isInfix (List.take_prefix m l).isInfix).count_le_one (by simp)
        have hrest : (l.drop m).count i ≤ Blocks.count (l.drop m).length m :=
          ih _ (by rw [List.length_drop]; omega) (h.of_isInfix (List.drop_suffix m l).isInfix) rfl
        have hceil : Blocks.count l.length m = Blocks.count (l.drop m).length m + 1 := by
          rw [Blocks.count, Blocks.count, List.length_drop, ← Nat.add_div_right _ hm]
          congr 1
          omega
        calc l.count i = (l.take m).count i + (l.drop m).count i := by
              rw [← List.count_append, List.take_append_drop]
          _ ≤ 1 + Blocks.count (l.drop m).length m := Nat.add_le_add hfirst hrest
          _ = Blocks.count l.length m := by rw [hceil, Nat.add_comm]
      · rcases Nat.eq_zero_or_pos l.length with hzero | hpos
        · rw [List.length_eq_zero_iff.mp hzero]
          exact Nat.zero_le _
        · exact le_trans (h.count_le_one hshort) (Blocks.count_pos hm hpos)

/-- What stands behind `i` in a sublist stands behind it in the list. -/
theorem drop_sublist {a b : List ι} {i : ι} (hab : b <+ a) (ha : a.Nodup) {j k : ℕ}
    (hj : a[j]? = some i) (hk : b[k]? = some i) : b.drop k <+ a.drop j := by
  have hsplit : b <+ a.take j ++ a.drop j := by rwa [List.take_append_drop]
  obtain ⟨c, c', rfl, hc, hc'⟩ := List.sublist_append_iff.mp hsplit
  have hnot : i ∉ c := by
    intro hmem
    obtain ⟨n, hn⟩ := List.mem_iff_getElem?.mp (hc.subset hmem)
    rw [List.getElem?_take] at hn
    split at hn
    · have := (List.getElem?_inj (List.getElem?_eq_some_iff.mp hn).1 ha).mp (hn.trans hj.symm)
      omega
    · cases hn
  have hlen : c.length ≤ k := by
    by_contra hlt
    rw [List.getElem?_append_left (by omega)] at hk
    exact hnot (List.mem_of_getElem? hk)
  rw [List.drop_append, List.drop_eq_nil_of_le hlen, List.nil_append]
  exact (List.drop_sublist _ _).trans hc'

/-- **Rounds space out their members**: when every round has at least `m` members and those of a
later round are among those of an earlier one, in the same order. -/
theorem spaced_flatten {m : ℕ} (i : ι) {rounds : List (List ι)}
    (hshrink : rounds.Pairwise fun a b => b <+ a)
    (hround : ∀ a ∈ rounds, a.Nodup ∧ m ≤ a.length) : Spaced m i rounds.flatten := by
  induction rounds with
  | nil =>
      intro j k _ hj _
      cases hj
  | cons a rest ih =>
      obtain ⟨hfirst, hpair⟩ := List.pairwise_cons.mp hshrink
      obtain ⟨hnodup, hlen⟩ := hround a List.mem_cons_self
      have hrest := ih hpair fun b hb => hround b (List.mem_cons_of_mem a hb)
      intro j k hjk hj hk
      rw [List.flatten_cons] at hj hk
      rcases Nat.lt_or_ge j a.length with hja | hja
      · rw [List.getElem?_append_left hja] at hj
        rcases Nat.lt_or_ge k a.length with hka | hka
        · -- a round does not serve anybody twice
          rw [List.getElem?_append_left hka] at hk
          have := (List.getElem?_inj hja hnodup).mp (hj.trans hk.symm)
          omega
        · rw [List.getElem?_append_right hka] at hk
          cases rest with
          | nil => cases hk
          | cons b rest =>
              obtain ⟨-, hlen'⟩ := hround b (by simp)
              rw [List.flatten_cons] at hk
              rcases Nat.lt_or_ge (k - a.length) b.length with hkb | hkb
              · -- from one round to the next
                rw [List.getElem?_append_left hkb] at hk
                have := (drop_sublist (hfirst b (by simp)) hnodup hj hk).length_le
                rw [List.length_drop, List.length_drop] at this
                omega
              · omega
      · rw [List.getElem?_append_right hja] at hj
        rw [List.getElem?_append_right (by omega)] at hk
        have := hrest (j - a.length) (k - a.length) (by omega) hj hk
        omega

/-! ## Bursts -/

theorem map_source_round (queues : List (List α)) (r : ℕ) :
    (round queues r).map Slot.source
      = (queues.zipIdx.filter fun q => r < q.1.length).map Prod.snd := by
  rw [round]
  induction queues.zipIdx with
  | nil => rfl
  | cons q l ih =>
      rw [List.filterMap_cons, List.filter_cons]
      cases hr : q.1[r]? with
      | none =>
          have : ¬ r < q.1.length := by simpa using hr
          simp [this, ih]
      | some item =>
          have : r < q.1.length := (List.getElem?_eq_some_iff.mp hr).1
          simp [this, ih]

theorem round_of_mem {queues : List (List α)} {r : ℕ} {s : Slot α} (h : s ∈ round queues r) :
    s.round = r := by
  obtain ⟨q, -, hq⟩ := List.mem_filterMap.mp h
  obtain ⟨item, -, rfl⟩ := Option.map_eq_some_iff.mp hq
  rfl

theorem length_round (queues : List (List α)) (r : ℕ) :
    ((round queues r).map Slot.source).length = active queues r := by
  rw [map_source_round, List.length_map, ← List.countP_eq_length_filter, active]
  conv_rhs => rw [← List.zipIdx_map_fst 0 queues, List.countP_map]
  rfl

/-- All items are served. -/
theorem length_serve (queues : List (List α)) :
    (serve queues).length = (queues.map List.length).sum := by
  rw [serve, List.length_flatMap, ← sum_active queues fun q hq => length_le_longest hq]
  congr 1
  apply List.map_congr_left
  intro r _
  rw [← length_round, List.length_map]

theorem nodup_round (queues : List (List α)) (r : ℕ) :
    ((round queues r).map Slot.source).Nodup := by
  rw [map_source_round]
  apply List.Nodup.sublist (List.filter_sublist.map Prod.snd)
  rw [List.zipIdx_map_snd]
  exact List.nodup_range'

/-- A queue that has an item has had one in every round before. -/
theorem round_sublist (queues : List (List α)) {r r' : ℕ} (h : r ≤ r') :
    (round queues r').map Slot.source <+ (round queues r).map Slot.source := by
  rw [map_source_round, map_source_round]
  apply List.Sublist.map
  apply List.monotone_filter_right
  intro q hq
  simp only [decide_eq_true_eq] at hq ⊢
  omega

/-- Filtering groups by something that the members of a group share. -/
theorem filter_flatMap_of_iff {g : α → List β} {p : β → Bool} {q : α → Bool}
    (h : ∀ a, ∀ b ∈ g a, p b = q a) (l : List α) :
    (l.flatMap g).filter p = (l.filter q).flatMap g := by
  induction l with
  | nil => rfl
  | cons a l ih =>
      have hgroup : (g a).filter p = if q a then g a else [] := by
        cases hq : q a with
        | true => simpa using fun b hb => (h a b hb).trans hq
        | false => simpa using fun b hb => (h a b hb).trans hq
      rw [List.flatMap_cons, List.filter_append, ih, hgroup]
      cases hq : q a <;> simp [hq]

theorem busyPart_eq (queues : List (List α)) (m : ℕ) :
    busyPart queues m = ((List.range (longest queues)).filter fun r =>
      m ≤ active queues r).flatMap (round queues) := by
  rw [busyPart, serve]
  apply filter_flatMap_of_iff
  intro r s hs
  rw [round_of_mem hs]

theorem spaced_busyPart (queues : List (List α)) (m i : ℕ) :
    Spaced m i ((busyPart queues m).map Slot.source) := by
  rw [busyPart_eq, List.map_flatMap, List.flatMap_def]
  apply spaced_flatten
  · rw [List.pairwise_map]
    apply List.Pairwise.filter
    exact List.pairwise_lt_range.imp fun h => round_sublist queues h.le
  · intro a ha
    obtain ⟨r, hr, rfl⟩ := List.mem_map.mp ha
    constructor
    · exact nodup_round queues r
    · rw [length_round]
      simpa using (List.mem_filter.mp hr).2

/-- **A burst of `b` places holds at most `⌈b / m⌉` items of one queue**, where at least `m` queues
have items. -/
theorem countP_le {m : ℕ} (hm : 0 < m) (queues : List (List α)) {w : List (Slot α)}
    (hw : w <:+: busyPart queues m) (i : ℕ) :
    w.countP (fun s => s.source = i) ≤ Blocks.count w.length m := by
  have hspaced := (spaced_busyPart queues m i).of_isInfix (hw.map Slot.source)
  have hcount := hspaced.count_le hm
  rw [List.length_map, List.count, List.countP_map] at hcount
  refine le_trans (le_of_eq ?_) hcount
  apply List.countP_congr
  intro s _
  simp

end RoundRobin
