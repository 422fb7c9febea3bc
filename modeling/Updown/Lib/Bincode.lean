import Updown.Lib.LittleEndian

set_option autoImplicit false

/-! # Prefix formats

A `Format` writes a value in front of an input and takes it off again; what it accepts is exactly
what it writes (`get_put`, `get_some`). The combinators are the encoding of `bincode` with its
default options: fixed-width little-endian numbers, one byte for a `bool` and for the tag of an
`Option`, eight bytes for the length of a `Vec`, and the fields of a struct in order.
-/

namespace Bincode

/-- A writer and the reader that inverts it, for the values that are `Valid`. -/
structure Format (α : Type) where
  put : α → List UInt8
  get : List UInt8 → Option (α × List UInt8)
  Valid : α → Prop
  get_put : ∀ {x : α}, Valid x → ∀ rest, get (put x ++ rest) = some (x, rest)
  get_some : ∀ {bs : List UInt8} {x : α} {rest : List UInt8}, get bs = some (x, rest) →
    Valid x ∧ bs = put x ++ rest

namespace Format

variable {α β : Type}

/-- The value at the front of an input, whatever follows it. -/
def read (f : Format α) (bs : List UInt8) : Option α := (f.get bs).map Prod.fst

/-- **Read is what the input begins with.** -/
theorem read_eq_some (f : Format α) {bs : List UInt8} {x : α} :
    f.read bs = some x ↔ f.Valid x ∧ f.put x <+: bs := by
  constructor
  · intro h
    obtain ⟨⟨y, rest⟩, hget, rfl⟩ := Option.map_eq_some_iff.mp h
    obtain ⟨hvalid, rfl⟩ := f.get_some hget
    exact ⟨hvalid, rest, rfl⟩
  · rintro ⟨hvalid, rest, rfl⟩
    rw [read, f.get_put hvalid, Option.map_some]

/-- A number of `k` bytes. -/
def uint (k : ℕ) : Format ℕ where
  put := LittleEndian.encode k
  get := LittleEndian.read k
  Valid n := n < 256 ^ k
  get_put h rest := LittleEndian.read_encode_append h rest
  get_some h := LittleEndian.read_eq_some h

/-- An array of `k` bytes. -/
def bytes (k : ℕ) : Format (List UInt8) where
  put bs := bs
  get bs := if bs.length < k then none else some (bs.take k, bs.drop k)
  Valid bs := bs.length = k
  get_put := by
    intro bs h rest
    have hlen : ¬ (bs ++ rest).length < k := by
      rw [List.length_append]
      omega
    rw [if_neg hlen, List.take_left' h, List.drop_left' h]
  get_some := by
    intro bs x rest h
    split at h
    · cases h
    · obtain ⟨rfl, rfl⟩ := Prod.mk.inj (Option.some.inj h)
      exact ⟨by rw [List.length_take]; omega, (List.take_append_drop k bs).symm⟩

def bool : Format Bool where
  put b := [if b then 1 else 0]
  get
    | b :: rest => if b = 0 then some (false, rest) else if b = 1 then some (true, rest) else none
    | [] => none
  Valid _ := True
  get_put := by
    intro b _ rest
    cases b <;> rfl
  get_some := by
    intro bs x rest h
    cases bs with
    | nil => cases h
    | cons b bs =>
        dsimp only at h
        split at h
        · next hzero =>
            obtain ⟨rfl, rfl⟩ := Prod.mk.inj (Option.some.inj h)
            exact ⟨trivial, by rw [hzero]; rfl⟩
        · split at h
          · next hone =>
              obtain ⟨rfl, rfl⟩ := Prod.mk.inj (Option.some.inj h)
              exact ⟨trivial, by rw [hone]; rfl⟩
          · cases h

/-- One field after the other. -/
def pair (f : Format α) (g : Format β) : Format (α × β) where
  put x := f.put x.1 ++ g.put x.2
  get bs := (f.get bs).bind fun x => (g.get x.2).map fun y => ((x.1, y.1), y.2)
  Valid x := f.Valid x.1 ∧ g.Valid x.2
  get_put := by
    intro x h rest
    rw [List.append_assoc, f.get_put h.1, Option.bind_some, g.get_put h.2]
    rfl
  get_some := by
    intro bs x rest h
    obtain ⟨⟨a, bs'⟩, ha, h⟩ := Option.bind_eq_some_iff.mp h
    obtain ⟨⟨b, bs''⟩, hb, h⟩ := Option.map_eq_some_iff.mp h
    obtain ⟨rfl, rfl⟩ := Prod.mk.inj h
    obtain ⟨hva, rfl⟩ := f.get_some ha
    obtain ⟨hvb, rfl⟩ := g.get_some hb
    exact ⟨⟨hva, hvb⟩, (List.append_assoc _ _ _).symm⟩

/-- Another representation of the same values. -/
def map (f : Format α) (pack : α → β) (unpack : β → α) (pack_unpack : ∀ y, pack (unpack y) = y)
    (unpack_pack : ∀ x, f.Valid x → unpack (pack x) = x) : Format β where
  put y := f.put (unpack y)
  get bs := (f.get bs).map fun x => (pack x.1, x.2)
  Valid y := f.Valid (unpack y)
  get_put := by
    intro y h rest
    rw [f.get_put h, Option.map_some, pack_unpack]
  get_some := by
    intro bs y rest h
    obtain ⟨⟨x, bs'⟩, hx, h⟩ := Option.map_eq_some_iff.mp h
    obtain ⟨rfl, rfl⟩ := Prod.mk.inj h
    obtain ⟨hv, rfl⟩ := f.get_some hx
    rw [unpack_pack x hv]
    exact ⟨hv, rfl⟩

/-- A tag byte, and the value if there is one. -/
def option (f : Format α) : Format (Option α) where
  put
    | none => [0]
    | some x => 1 :: f.put x
  get
    | b :: rest =>
        if b = 0 then some (none, rest)
        else if b = 1 then (f.get rest).map fun x => (some x.1, x.2)
        else none
    | [] => none
  Valid o := ∀ x, o = some x → f.Valid x
  get_put := by
    intro o h rest
    cases o with
    | none => rfl
    | some x =>
        show (f.get (f.put x ++ rest)).map _ = _
        rw [f.get_put (h x rfl)]
        rfl
  get_some := by
    intro bs o rest h
    cases bs with
    | nil => cases h
    | cons b bs =>
        dsimp only at h
        split at h
        · next hzero =>
            obtain ⟨rfl, rfl⟩ := Prod.mk.inj (Option.some.inj h)
            refine ⟨fun x hx => ?_, by rw [hzero]; rfl⟩
            cases hx
        · split at h
          · next hone =>
              obtain ⟨⟨x, bs'⟩, hx, h⟩ := Option.map_eq_some_iff.mp h
              obtain ⟨rfl, rfl⟩ := Prod.mk.inj h
              obtain ⟨hv, rfl⟩ := f.get_some hx
              exact ⟨fun y hy => Option.some.inj hy ▸ hv, by rw [hone]; rfl⟩
          · cases h

/-! ## Sequences -/

/-- Take `n` values off the front. -/
def getMany (f : Format α) : ℕ → List UInt8 → Option (List α × List UInt8)
  | 0, bs => some ([], bs)
  | n + 1, bs => (f.get bs).bind fun x => (getMany f n x.2).map fun xs => (x.1 :: xs.1, xs.2)

theorem getMany_put (f : Format α) {xs : List α} (h : ∀ x ∈ xs, f.Valid x) (rest : List UInt8) :
    f.getMany xs.length (xs.flatMap f.put ++ rest) = some (xs, rest) := by
  induction xs with
  | nil => rfl
  | cons x xs ih =>
      have hx := f.get_put (h x List.mem_cons_self) (xs.flatMap f.put ++ rest)
      rw [List.length_cons, List.flatMap_cons, List.append_assoc, getMany, hx, Option.bind_some,
        ih fun y hy => h y (List.mem_cons_of_mem _ hy)]
      rfl

theorem getMany_some (f : Format α) {n : ℕ} {bs rest : List UInt8} {xs : List α}
    (h : f.getMany n bs = some (xs, rest)) :
    xs.length = n ∧ (∀ x ∈ xs, f.Valid x) ∧ bs = xs.flatMap f.put ++ rest := by
  induction n generalizing bs xs with
  | zero =>
      obtain ⟨rfl, rfl⟩ := Prod.mk.inj (Option.some.inj h)
      exact ⟨rfl, by simp, rfl⟩
  | succ n ih =>
      obtain ⟨⟨x, bs'⟩, hx, h⟩ := Option.bind_eq_some_iff.mp h
      obtain ⟨⟨ys, bs''⟩, hys, h⟩ := Option.map_eq_some_iff.mp h
      obtain ⟨rfl, rfl⟩ := Prod.mk.inj h
      obtain ⟨hv, rfl⟩ := f.get_some hx
      obtain ⟨hlen, hall, rfl⟩ := ih hys
      refine ⟨by rw [List.length_cons, hlen], ?_, ?_⟩
      · intro y hy
        rcases List.mem_cons.mp hy with rfl | hy
        · exact hv
        · exact hall y hy
      · rw [List.flatMap_cons, List.append_assoc]

/-- The number of elements, and the elements. -/
def vec (f : Format α) : Format (List α) where
  put xs := LittleEndian.encode 8 xs.length ++ xs.flatMap f.put
  get bs := (LittleEndian.read 8 bs).bind fun n => f.getMany n.1 n.2
  Valid xs := xs.length < 256 ^ 8 ∧ ∀ x ∈ xs, f.Valid x
  get_put := by
    intro xs h rest
    rw [List.append_assoc, LittleEndian.read_encode_append h.1, Option.bind_some]
    exact f.getMany_put h.2 rest
  get_some := by
    intro bs xs rest h
    obtain ⟨n, hn, hmany⟩ := Option.bind_eq_some_iff.mp h
    have hread := LittleEndian.read_eq_some hn
    have helems := f.getMany_some hmany
    refine ⟨⟨helems.1.trans_lt hread.1, helems.2.1⟩, ?_⟩
    rw [hread.2, helems.1, helems.2.2, List.append_assoc]

theorem length_vec_put (f : Format α) {k : ℕ} {xs : List α} (h : ∀ x ∈ xs, (f.put x).length = k) :
    (f.vec.put xs).length = 8 + xs.length * k := by
  have hbody : (xs.flatMap f.put).length = xs.length * k := by
    induction xs with
    | nil => simp
    | cons x xs ih =>
        rw [List.flatMap_cons, List.length_append, h x List.mem_cons_self,
          ih fun y hy => h y (List.mem_cons_of_mem _ hy), List.length_cons, Nat.succ_mul,
          Nat.add_comm]
  rw [← hbody]
  simp [vec]

/-! ## Strings and enumerations -/

def byte : Format UInt8 where
  put b := [b]
  get
    | b :: rest => some (b, rest)
    | [] => none
  Valid _ := True
  get_put _ _ := rfl
  get_some := by
    intro bs b rest h
    cases bs with
    | nil => cases h
    | cons c bs =>
        obtain ⟨rfl, rfl⟩ := Prod.mk.inj (Option.some.inj h)
        exact ⟨trivial, rfl⟩

/-- A representation that not every value of `f` has. -/
def refine (f : Format α) (pack : α → Option β) (unpack : β → α)
    (pack_unpack : ∀ y, pack (unpack y) = some y)
    (unpack_pack : ∀ x y, pack x = some y → unpack y = x) : Format β where
  put y := f.put (unpack y)
  get bs := (f.get bs).bind fun x => (pack x.1).map fun y => (y, x.2)
  Valid y := f.Valid (unpack y)
  get_put := by
    intro y h rest
    rw [f.get_put h, Option.bind_some, pack_unpack, Option.map_some]
  get_some := by
    intro bs y rest h
    obtain ⟨⟨x, bs'⟩, hx, h⟩ := Option.bind_eq_some_iff.mp h
    obtain ⟨z, hz, h⟩ := Option.map_eq_some_iff.mp h
    obtain ⟨rfl, rfl⟩ := Prod.mk.inj h
    obtain ⟨hv, rfl⟩ := f.get_some hx
    rw [unpack_pack x z hz]
    exact ⟨hv, rfl⟩

/-- The UTF-8 bytes of a string, with their number in front. -/
def string : Format String :=
  byte.vec.refine (fun bs => String.fromUTF8? bs.toByteArray) (fun s => s.toUTF8.data.toList)
    (by
      intro s
      have hbytes : s.toUTF8.data.toList.toByteArray = s.toByteArray := by
        apply ByteArray.ext
        apply Array.ext'
        rw [List.toList_data_toByteArray]
        rfl
      rw [hbytes, String.fromUTF8?, dif_pos s.isValidUTF8]
      rfl)
    (by
      intro bs s h
      unfold String.fromUTF8? at h
      split at h
      · obtain rfl := Option.some.inj h
        exact List.toList_data_toByteArray
      · cases h)

/-- The payload `f` of one case of an enumeration, as a value of the enumeration. -/
def variant (f : Format β) (inj : β → α) (proj : α → Option β)
    (proj_inj : ∀ y, proj (inj y) = some y) (inj_proj : ∀ x y, proj x = some y → inj y = x) :
    Format α where
  put x := ((proj x).map f.put).getD []
  get bs := (f.get bs).map fun y => (inj y.1, y.2)
  Valid x := ∃ y, proj x = some y ∧ f.Valid y
  get_put := by
    rintro x ⟨y, hy, hv⟩ rest
    rw [hy, Option.map_some, Option.getD_some, f.get_put hv, Option.map_some, inj_proj x y hy]
  get_some := by
    intro bs x rest h
    obtain ⟨⟨y, bs'⟩, hy, h⟩ := Option.map_eq_some_iff.mp h
    obtain ⟨rfl, rfl⟩ := Prod.mk.inj h
    obtain ⟨hv, rfl⟩ := f.get_some hy
    rw [proj_inj]
    exact ⟨⟨y, rfl, hv⟩, rfl⟩

/-- No value at all. -/
def never : Format α where
  put _ := []
  get _ := none
  Valid _ := False
  get_put h := h.elim
  get_some h := nomatch h

/-- The index of the case in four bytes, and its payload. -/
def enum (index : α → ℕ) (variants : ℕ → Format α)
    (index_of_valid : ∀ i x, (variants i).Valid x → index x = i) : Format α where
  put x := LittleEndian.encode 4 (index x) ++ (variants (index x)).put x
  get bs := (LittleEndian.read 4 bs).bind fun i => (variants i.1).get i.2
  Valid x := index x < 256 ^ 4 ∧ (variants (index x)).Valid x
  get_put := by
    intro x h rest
    rw [List.append_assoc, LittleEndian.read_encode_append h.1, Option.bind_some]
    exact (variants (index x)).get_put h.2 rest
  get_some := by
    intro bs x rest h
    obtain ⟨⟨i, bs'⟩, hi, hget⟩ := Option.bind_eq_some_iff.mp h
    obtain ⟨hlt, rfl⟩ := LittleEndian.read_eq_some hi
    obtain ⟨hv, rfl⟩ := (variants i).get_some hget
    rw [index_of_valid i x hv]
    exact ⟨⟨hlt, hv⟩, (List.append_assoc _ _ _).symm⟩

end Format

end Bincode
