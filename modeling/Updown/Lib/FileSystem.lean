import Mathlib.Data.List.Basic
import Mathlib.Logic.Function.Basic
import Mathlib.Tactic

set_option autoImplicit false

/-! # Files and names

A file system with hard-link count one: a name leads to the number of a file, and a file that is
open is used by its number. Removing a name leaves the file to those who have it open. What the
users of a development need is said by name: `read` after each operation, at the name the
operation is about and at the others.
-/

/-- Files with contents `ν` under names `κ`. Different names lead to different files. -/
structure FileSystem (κ ν : Type*) where
  entries : κ → Option ℕ
  files : List ν
  lt_length : ∀ l n, entries l = some n → n < files.length
  injective : ∀ l l' n, entries l = some n → entries l' = some n → l = l'

namespace FileSystem

variable {κ ν : Type*}

/-- No files. -/
def empty (κ ν : Type*) : FileSystem κ ν :=
  { entries := fun _ => none, files := [], lt_length := by simp, injective := by simp }

/-- The contents of an open file. -/
def get (fs : FileSystem κ ν) (n : ℕ) : Option ν := fs.files[n]?

/-- The contents of the file with a name. -/
def read (fs : FileSystem κ ν) (l : κ) : Option ν := (fs.entries l).bind fs.get

@[simp] theorem read_empty (l : κ) : (empty κ ν).read l = none := rfl

/-- Overwrite an open file. -/
def write (fs : FileSystem κ ν) (n : ℕ) (x : ν) : FileSystem κ ν :=
  { fs with
    files := fs.files.set n x
    lt_length := by
      intro l m h
      rw [List.length_set]
      exact fs.lt_length l m h }

/-- An open file that still has its name. -/
def Linked (fs : FileSystem κ ν) (l : κ) (n : ℕ) : Prop := fs.entries l = some n

section

variable {fs : FileSystem κ ν} {l l' : κ} {n : ℕ} {x : ν}

theorem Linked.read_eq (h : fs.Linked l n) : fs.read l = fs.get n := by
  rw [read, h]
  rfl

/-- A name that leads to a file has contents. -/
theorem Linked.exists_read (h : fs.Linked l n) : ∃ x, fs.read l = some x := by
  rw [h.read_eq, get]
  exact ⟨_, List.getElem?_eq_getElem (fs.lt_length l n h)⟩

theorem Linked.write (h : fs.Linked l n) (m : ℕ) (x : ν) : (fs.write m x).Linked l n := h

/-- A file that is written to shows under its name. -/
theorem read_write_self (h : fs.Linked l n) (x : ν) : (fs.write n x).read l = some x := by
  rw [(h.write n x).read_eq, get, write, List.getElem?_set_self (fs.lt_length l n h)]

/-- … and under no name that does not lead to it. -/
theorem read_write_of_not_linked (h : ¬ fs.Linked l n) (x : ν) :
    (fs.write n x).read l = fs.read l := by
  cases hentry : fs.entries l with
  | none =>
      have hnone : (fs.write n x).entries l = none := hentry
      rw [read, read, hentry, hnone]
      rfl
  | some m =>
      have hm : fs.Linked l m := hentry
      have hne : n ≠ m := by
        rintro rfl
        exact h hm
      rw [(hm.write n x).read_eq, hm.read_eq, get, get, write, List.getElem?_set_ne hne]

end

/-! ## Old and new files -/

/-- A later file system: names lead to the files they led to, or to new ones. -/
structure Grows (fs fs' : FileSystem κ ν) : Prop where
  length_le : fs.files.length ≤ fs'.files.length
  linked : ∀ l n, fs'.Linked l n → fs.Linked l n ∨ fs.files.length ≤ n

/-- An open file that has no name but `l`. -/
structure Owns (fs : FileSystem κ ν) (l : κ) (n : ℕ) : Prop where
  lt_length : n < fs.files.length
  name_eq : ∀ l', fs.Linked l' n → l' = l

section

variable {fs fs' fs'' : FileSystem κ ν} {l : κ} {n : ℕ}

theorem Grows.refl (fs : FileSystem κ ν) : fs.Grows fs := ⟨le_rfl, fun _ _ => Or.inl⟩

theorem Grows.trans (h : fs.Grows fs') (h' : fs'.Grows fs'') : fs.Grows fs'' := by
  refine ⟨h.length_le.trans h'.length_le, fun l n hn => ?_⟩
  rcases h'.linked l n hn with hn' | hnew
  · exact h.linked l n hn'
  · exact Or.inr (h.length_le.trans hnew)

/-- **An open file gets no new name.** -/
theorem Owns.of_grows (h : fs.Owns l n) (hgrows : fs.Grows fs') : fs'.Owns l n := by
  refine ⟨lt_of_lt_of_le h.lt_length hgrows.length_le, fun l' hl' => ?_⟩
  rcases hgrows.linked l' n hl' with hold | hnew
  · exact h.name_eq l' hold
  · exact absurd h.lt_length (Nat.not_lt.mpr hnew)

theorem Linked.owns (h : fs.Linked l n) : fs.Owns l n :=
  ⟨fs.lt_length l n h, fun l' hl' => fs.injective l' l n hl' h⟩

theorem grows_write (fs : FileSystem κ ν) (n : ℕ) (x : ν) : fs.Grows (fs.write n x) :=
  ⟨by simp [write], fun _ _ => Or.inl⟩

/-- Writing to a file that is open shows under its own name only. -/
theorem Owns.read_write_of_ne {l' : κ} (h : fs.Owns l n) (hl : l' ≠ l) (x : ν) :
    (fs.write n x).read l' = fs.read l' :=
  read_write_of_not_linked (fun hl' => hl (h.name_eq l' hl')) x

/-! Writing on a condition. -/

theorem grows_write_if (fs : FileSystem κ ν) (c : Bool) (n : ℕ) (x : ν) :
    fs.Grows (if c then fs.write n x else fs) := by
  split
  · exact grows_write fs n x
  · exact Grows.refl fs

theorem Linked.write_if (h : fs.Linked l n) (c : Bool) (m : ℕ) (x : ν) :
    (if c then fs.write m x else fs).Linked l n := by
  split
  · exact h.write m x
  · exact h

theorem Owns.read_write_if_of_ne {l' : κ} (h : fs.Owns l n) (hl : l' ≠ l) (c : Bool) (x : ν) :
    (if c then fs.write n x else fs).read l' = fs.read l' := by
  split
  · exact h.read_write_of_ne hl x
  · rfl

end

variable [DecidableEq κ]

/-- A new file under a name that leads nowhere. -/
def create (fs : FileSystem κ ν) (l : κ) (x : ν) : FileSystem κ ν :=
  { entries := Function.update fs.entries l (some fs.files.length)
    files := fs.files ++ [x]
    lt_length := by
      intro l' n h
      rw [List.length_append, List.length_singleton]
      by_cases hl : l' = l
      · subst hl
        rw [Function.update_self] at h
        obtain rfl := Option.some.inj h
        exact Nat.lt_succ_self _
      · rw [Function.update_of_ne hl] at h
        exact Nat.lt_succ_of_lt (fs.lt_length l' n h)
    injective := by
      intro l₁ l₂ n h₁ h₂
      -- the new number is beyond all that are in use
      have hnew : ∀ l', l' ≠ l → fs.entries l' ≠ some fs.files.length := by
        intro l' _ h
        exact absurd (fs.lt_length l' _ h) (lt_irrefl _)
      by_cases hl₁ : l₁ = l <;> by_cases hl₂ : l₂ = l
      · rw [hl₁, hl₂]
      · subst hl₁
        rw [Function.update_self] at h₁
        rw [Function.update_of_ne hl₂, ← h₁] at h₂
        exact absurd h₂ (hnew l₂ hl₂)
      · subst hl₂
        rw [Function.update_self] at h₂
        rw [Function.update_of_ne hl₁, ← h₂] at h₁
        exact absurd h₁ (hnew l₁ hl₁)
      · rw [Function.update_of_ne hl₁] at h₁
        rw [Function.update_of_ne hl₂] at h₂
        exact fs.injective l₁ l₂ n h₁ h₂ }

/-- Open the file with a name, with contents `x` if there is none. -/
def openAt (fs : FileSystem κ ν) (l : κ) (x : ν) : FileSystem κ ν × ℕ :=
  match fs.entries l with
  | some n => (fs, n)
  | none => (fs.create l x, fs.files.length)

/-- Replace the contents of the file with a name, or create it. -/
def put (fs : FileSystem κ ν) (l : κ) (x : ν) : FileSystem κ ν :=
  match fs.entries l with
  | some n => fs.write n x
  | none => fs.create l x

/-- Remove a name, if it is there. -/
def remove (fs : FileSystem κ ν) (l : κ) : FileSystem κ ν :=
  { fs with
    entries := Function.update fs.entries l none
    lt_length := by
      intro l' n h
      by_cases hl : l' = l
      · subst hl
        simp at h
      · rw [Function.update_of_ne hl] at h
        exact fs.lt_length l' n h
    injective := by
      intro l₁ l₂ n h₁ h₂
      by_cases hl₁ : l₁ = l
      · subst hl₁
        simp at h₁
      · by_cases hl₂ : l₂ = l
        · subst hl₂
          simp at h₂
        · rw [Function.update_of_ne hl₁] at h₁
          rw [Function.update_of_ne hl₂] at h₂
          exact fs.injective l₁ l₂ n h₁ h₂ }

variable {fs : FileSystem κ ν} {l l' : κ} {n : ℕ} {x : ν}

/-! ## Open files -/

theorem entries_create_self (fs : FileSystem κ ν) (l : κ) (x : ν) :
    (fs.create l x).entries l = some fs.files.length := Function.update_self _ _ _

theorem entries_create_of_ne (fs : FileSystem κ ν) (hl : l' ≠ l) (x : ν) :
    (fs.create l x).entries l' = fs.entries l' := Function.update_of_ne hl _ _

theorem entries_remove_self (fs : FileSystem κ ν) (l : κ) : (fs.remove l).entries l = none :=
  Function.update_self _ _ _

theorem entries_remove_of_ne (fs : FileSystem κ ν) (hl : l' ≠ l) :
    (fs.remove l).entries l' = fs.entries l' := Function.update_of_ne hl _ _

theorem Linked.create (h : fs.Linked l n) (hl : l' ≠ l) (x : ν) : (fs.create l' x).Linked l n :=
  (entries_create_of_ne fs hl.symm x).trans h

theorem Linked.put (h : fs.Linked l n) (hl : l' ≠ l) (x : ν) : (fs.put l' x).Linked l n := by
  unfold FileSystem.put
  split
  · exact h.write _ x
  · exact h.create hl x

theorem Linked.remove (h : fs.Linked l n) (hl : l' ≠ l) : (fs.remove l').Linked l n :=
  (entries_remove_of_ne fs hl.symm).trans h

/-- Opening leaves the files that are open. -/
theorem Linked.openAt (h : fs.Linked l n) (l' : κ) (x : ν) :
    (fs.openAt l' x).1.Linked l n := by
  unfold FileSystem.openAt
  split
  · exact h
  · next hnone =>
      refine h.create ?_ x
      rintro rfl
      rw [h] at hnone
      cases hnone

/-- What is opened has its name. -/
theorem linked_openAt (fs : FileSystem κ ν) (l : κ) (x : ν) :
    (fs.openAt l x).1.Linked l (fs.openAt l x).2 := by
  unfold openAt
  split
  · next hn => exact hn
  · exact entries_create_self fs l x

theorem grows_create (fs : FileSystem κ ν) (l : κ) (x : ν) : fs.Grows (fs.create l x) := by
  refine ⟨by simp [create], fun l' n hn => ?_⟩
  by_cases hl : l' = l
  · subst hl
    rw [Linked, entries_create_self] at hn
    exact Or.inr (Option.some.inj hn).le
  · rw [Linked, entries_create_of_ne fs hl] at hn
    exact Or.inl hn

theorem grows_openAt (fs : FileSystem κ ν) (l : κ) (x : ν) : fs.Grows (fs.openAt l x).1 := by
  unfold openAt
  split
  · exact Grows.refl fs
  · exact grows_create fs l x

theorem grows_put (fs : FileSystem κ ν) (l : κ) (x : ν) : fs.Grows (fs.put l x) := by
  unfold put
  split
  · exact grows_write fs _ x
  · exact grows_create fs l x

theorem grows_remove (fs : FileSystem κ ν) (l : κ) : fs.Grows (fs.remove l) := by
  refine ⟨le_rfl, fun l' n hn => Or.inl ?_⟩
  by_cases hl : l' = l
  · subst hl
    rw [Linked, entries_remove_self] at hn
    cases hn
  · rwa [Linked, entries_remove_of_ne fs hl] at hn

/-! ## Contents by name -/

theorem read_create_self (fs : FileSystem κ ν) (l : κ) (x : ν) :
    (fs.create l x).read l = some x := by
  simp [read, create, get]

theorem read_create_of_ne (fs : FileSystem κ ν) (hl : l' ≠ l) (x : ν) :
    (fs.create l x).read l' = fs.read l' := by
  rw [read, read, entries_create_of_ne fs hl]
  cases hentry : fs.entries l' with
  | none => rfl
  | some m =>
      show (fs.files ++ [x])[m]? = fs.files[m]?
      exact List.getElem?_append_left (fs.lt_length l' m hentry)

theorem read_put_self (fs : FileSystem κ ν) (l : κ) (x : ν) : (fs.put l x).read l = some x := by
  unfold put
  split
  · next n hn => exact read_write_self hn x
  · exact read_create_self fs l x

theorem read_put_of_ne (fs : FileSystem κ ν) (hl : l' ≠ l) (x : ν) :
    (fs.put l x).read l' = fs.read l' := by
  unfold put
  split
  · next n hn => exact (show fs.Linked l n from hn).owns.read_write_of_ne hl x
  · exact read_create_of_ne fs hl x

theorem read_remove_self (fs : FileSystem κ ν) (l : κ) : (fs.remove l).read l = none := by
  simp [read, remove]

theorem read_remove_of_ne (fs : FileSystem κ ν) (hl : l' ≠ l) :
    (fs.remove l).read l' = fs.read l' := by
  rw [read, read, entries_remove_of_ne fs hl]
  rfl

/-- Opening shows what was there, or what it creates. -/
theorem read_openAt_self (fs : FileSystem κ ν) (l : κ) (x : ν) :
    (fs.openAt l x).1.read l = some ((fs.read l).getD x) := by
  unfold openAt
  split
  · next n hn =>
      obtain ⟨y, hy⟩ := (show fs.Linked l n from hn).exists_read
      rw [hy]
      rfl
  · next hnone =>
      rw [read_create_self, read, hnone]
      rfl

theorem read_openAt_of_ne (fs : FileSystem κ ν) (hl : l' ≠ l) (x : ν) :
    (fs.openAt l x).1.read l' = fs.read l' := by
  unfold openAt
  split
  · rfl
  · exact read_create_of_ne fs hl x

/-! ## Opening a file and setting its contents -/

section

variable {fs' : FileSystem κ ν} {m : ℕ} (hopen : fs.openAt l x = (fs', n))

include hopen

theorem linked_openWrite (y : ν) : (fs'.write n y).Linked l n := by
  have hnew := linked_openAt fs l x
  rw [hopen] at hnew
  exact hnew.write n y

theorem grows_openWrite (y : ν) : fs.Grows (fs'.write n y) := by
  have hgrows := grows_openAt fs l x
  rw [hopen] at hgrows
  exact hgrows.trans (grows_write fs' n y)

/-- The files that are open stay where they are. -/
theorem Linked.openWrite (h : fs.Linked l' m) (y : ν) : (fs'.write n y).Linked l' m := by
  have hkept := h.openAt l x
  rw [hopen] at hkept
  exact hkept.write n y

theorem read_openWrite_self (y : ν) : (fs'.write n y).read l = some y := by
  have hnew := linked_openAt fs l x
  rw [hopen] at hnew
  exact read_write_self hnew y

theorem read_openWrite_of_ne (hl : l' ≠ l) (y : ν) : (fs'.write n y).read l' = fs.read l' := by
  have hkept := read_openAt_of_ne fs hl x
  have hnew := linked_openAt fs l x
  rw [hopen] at hkept hnew
  rw [hnew.owns.read_write_of_ne hl, hkept]

end

end FileSystem
