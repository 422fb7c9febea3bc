import Mathlib.Data.Int.Notation
import Updown.Lib.FilePath

set_option autoImplicit false

/-! # The server's database

The tables of `web/db.rs` that uploads and share links use. A table is the list of its rows in the
order they were inserted; inserting a row whose key is taken fails, as does a statement that cannot
be executed. A column that holds JSON is the value it encodes. Identifiers and times are texts that
the caller draws.
-/

namespace Updown.Web

open FilePath (Name)

structure Transfer where
  id : String
  filename : Name
  fileSize : ℕ
  /-- "pending", "active", "completed", "failed". -/
  status : String
  /-- "upload" or "download". -/
  direction : String
  peer : String
  createdAt : String
  deriving DecidableEq

structure Package where
  id : String
  name : String
  description : String
  files : List Name
  totalSize : ℕ
  shareLink : Option String
  createdBy : String
  createdAt : String
  expiresAt : Option String
  deriving DecidableEq

structure ShareLink where
  id : String
  code : String
  packageId : String
  createdBy : String
  downloadCount : ℕ
  maxDownloads : Option ℤ
  expiresAt : Option String
  createdAt : String
  deriving DecidableEq

structure Database where
  transfers : List Transfer
  packages : List Package
  shareLinks : List ShareLink

/-- What a statement that inserts a row needs from outside: an identifier, the time, and that the
statement can be executed. -/
structure Insertion where
  id : String
  now : String
  executed : Bool

namespace Database

/-- Insert a row, unless a row agrees with it in a key. -/
def insert {ρ : Type} (clash : ρ → ρ → Bool) (rows : List ρ) (row : ρ) : Option (List ρ) :=
  if rows.any (clash row) then none else some (rows ++ [row])

def createTransfer (db : Database) (i : Insertion) (filename : Name) (fileSize : ℕ)
    (direction peer : String) : Option (Database × String) :=
  let row : Transfer :=
    { id := i.id, filename := filename, fileSize := fileSize, status := "pending",
      direction := direction, peer := peer, createdAt := i.now }
  if i.executed then
    (insert (fun a b => a.id == b.id) db.transfers row).map fun rows =>
      ({ db with transfers := rows }, i.id)
  else none

def createPackage (db : Database) (i : Insertion) (name description : String) (files : List Name)
    (totalSize : ℕ) (createdBy : String) : Option (Database × String) :=
  let row : Package :=
    { id := i.id, name := name, description := description, files := files, totalSize := totalSize,
      shareLink := none, createdBy := createdBy, createdAt := i.now, expiresAt := none }
  if i.executed then
    (insert (fun a b => a.id == b.id) db.packages row).map fun rows =>
      ({ db with packages := rows }, i.id)
  else none

def getPackage (db : Database) (id : String) : Option Package :=
  db.packages.find? fun pkg => pkg.id == id

/-- The characters of a share code. -/
def ALPHABET : List Char :=
  "ABCDEFGHIJKLMNOPQRSTUVWXYZabcdefghijklmnopqrstuvwxyz0123456789-_".toList

/-- The code made of 18 random bytes. -/
def shareCode (randomBytes : Vector UInt8 18) : String :=
  String.ofList (randomBytes.toList.map fun b => ALPHABET.getD (b &&& 0x3F).toNat 'A')

def createShareLink (db : Database) (i : Insertion) (randomBytes : Vector UInt8 18)
    (packageId createdBy : String) (maxDownloads : Option ℤ) (expiresAt : Option String) :
    Option (Database × String) :=
  let row : ShareLink :=
    { id := i.id, code := shareCode randomBytes, packageId := packageId, createdBy := createdBy,
      downloadCount := 0, maxDownloads := maxDownloads, expiresAt := expiresAt, createdAt := i.now }
  if i.executed then
    (insert (fun a b => a.id == b.id || a.code == b.code) db.shareLinks row).map fun rows =>
      ({ db with shareLinks := rows }, row.code)
  else none

/-! ## Packages -/

variable {db db' : Database} {i : Insertion}

/-- **What `create_package` does**: one more row, under an identifier that was free. -/
theorem createPackage_eq_some {name description createdBy id : String} {files : List Name}
    {totalSize : ℕ}
    (h : db.createPackage i name description files totalSize createdBy = some (db', id)) :
    id = i.id ∧ db.getPackage i.id = none ∧ db'.shareLinks = db.shareLinks ∧
      db'.transfers = db.transfers ∧ db'.packages = db.packages ++
        [{ id := i.id, name := name, description := description, files := files,
           totalSize := totalSize, shareLink := none, createdBy := createdBy, createdAt := i.now,
           expiresAt := none }] := by
  unfold createPackage insert at h
  dsimp only at h
  split at h
  · split at h
    · cases h
    · next hfree =>
        obtain ⟨rfl, rfl⟩ := Prod.mk.inj (Option.some.inj h)
        refine ⟨rfl, ?_, rfl, rfl, rfl⟩
        rw [getPackage, List.find?_eq_none]
        intro pkg hpkg heq
        refine hfree (List.any_eq_true.mpr ⟨pkg, hpkg, ?_⟩)
        simpa using (beq_iff_eq.mp heq).symm
  · cases h

/-- A package is found under its own identifier, the others as before. -/
theorem getPackage_append {packages : List Package} {row : Package} {id : String}
    (hdb : db'.packages = packages ++ [row]) (hold : db.packages = packages) :
    db'.getPackage id =
      (db.getPackage id).or (if row.id = id then some row else none) := by
  rw [getPackage, hdb, List.find?_append, getPackage, hold]
  congr 1
  by_cases hid : row.id = id
  · simp [hid]
  · simp [hid]

/-! ## Transfers -/

/-- **What `create_transfer` does**: one more row, or nothing, if the statement cannot be executed
or the identifier is taken. -/
theorem createTransfer_cases (db : Database) (i : Insertion) (filename : Name) (fileSize : ℕ)
    (direction peer : String) :
    (i.executed = true ∧ (∀ row ∈ db.transfers, row.id ≠ i.id) ∧
      db.createTransfer i filename fileSize direction peer
        = some ({ db with transfers := db.transfers ++
            [{ id := i.id, filename := filename, fileSize := fileSize, status := "pending",
               direction := direction, peer := peer, createdAt := i.now }] }, i.id)) ∨
    ((i.executed = true → ∃ row ∈ db.transfers, row.id = i.id) ∧
      db.createTransfer i filename fileSize direction peer = none) := by
  unfold createTransfer insert
  dsimp only
  by_cases hexec : i.executed = true
  · rw [if_pos hexec]
    by_cases htaken : ∃ row ∈ db.transfers, row.id = i.id
    · refine Or.inr ⟨fun _ => htaken, ?_⟩
      obtain ⟨row, hrow, hid⟩ := htaken
      rw [if_pos (List.any_eq_true.mpr ⟨row, hrow, by simp [hid]⟩)]
      rfl
    · have hfree : ∀ row ∈ db.transfers, row.id ≠ i.id :=
        fun row hrow hid => htaken ⟨row, hrow, hid⟩
      refine Or.inl ⟨hexec, hfree, ?_⟩
      rw [if_neg]
      · rfl
      · intro hany
        obtain ⟨row, hrow, hid⟩ := List.any_eq_true.mp hany
        exact hfree row hrow (beq_iff_eq.mp hid).symm
  · exact Or.inr ⟨fun h => absurd h hexec, if_neg hexec⟩

/-- Recording a transfer leaves packages and links alone. -/
theorem createTransfer_frame {filename : Name} {fileSize : ℕ} {direction peer id : String}
    (h : db.createTransfer i filename fileSize direction peer = some (db', id)) :
    db'.packages = db.packages ∧ db'.shareLinks = db.shareLinks := by
  rcases db.createTransfer_cases i filename fileSize direction peer with ⟨-, -, hrow⟩ | ⟨-, hrow⟩
  · obtain ⟨rfl, -⟩ := Prod.mk.inj (Option.some.inj (hrow.symm.trans h))
    exact ⟨rfl, rfl⟩
  · cases hrow.symm.trans h

end Database

/-- A new row with a new key. -/
theorem nodup_snoc {ρ κ : Type} {key : ρ → κ} {rows : List ρ} {row : ρ}
    (h : (rows.map key).Nodup) (hnew : ∀ r ∈ rows, key r ≠ key row) :
    ((rows ++ [row]).map key).Nodup := by
  rw [List.map_append, List.nodup_append]
  refine ⟨h, List.pairwise_singleton _ _, fun k hk k' hk' => ?_⟩
  obtain ⟨r, hr, rfl⟩ := List.mem_map.mp hk
  rw [List.map_singleton, List.mem_singleton] at hk'
  exact hk' ▸ hnew r hr

end Updown.Web
