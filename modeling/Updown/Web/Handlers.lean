import Updown.Web.Sessions
import Updown.Web.ShareLimits

set_option autoImplicit false

/-! # The handlers that read, and the packages without files

The handlers of `web/api.rs` that are answered at once: `health`, the two lists, `get_package`,
`create_package`, which makes a package without files, and `trigger_agent_transfer`, which checks a
request for the desktop agent and hands it back.
-/

namespace Updown.Web

open FilePath (Name)

namespace Database

/-- `… ORDER BY created_at DESC LIMIT …`; rows of one time stay in the order of insertion. -/
def newest {ρ : Type} (createdAt : ρ → String) (rows : List ρ) (limit : ℕ) : List ρ :=
  (rows.mergeSort fun a b => decide (createdAt b ≤ createdAt a)).take limit

def listTransfers (db : Database) (limit : ℕ) : List Transfer :=
  newest Transfer.createdAt db.transfers limit

def listPackages (db : Database) (limit : ℕ) : List Package :=
  newest Package.createdAt db.packages limit

end Database

/-- `unwrap_or(50).min(1000).max(1)`. -/
def clampLimit (limit : Option ℤ) : ℕ := (max (min (limit.getD 50) 1000) 1).toNat

/-- `health`: the number of completed transfers. -/
def health (db : Database) (executed : Bool) : ℕ :=
  (if executed then db.listTransfers 10000 else []).countP fun row => row.status == "completed"

def listTransfers (db : Database) (executed : Bool) (limit : Option ℤ) : List Transfer :=
  if executed then db.listTransfers (clampLimit limit) else []

def listPackages (db : Database) (executed : Bool) (limit : Option ℤ) : List Package :=
  if executed then db.listPackages (clampLimit limit) else []

structure CreatePackageReq where
  name : String
  description : Option String

/-- `create_package`. The new row is read back: nothing that could come in between changes it. -/
def createPackage (s : AppState) (i : Insertion) (lookup : Lookup) (req : CreatePackageReq) :
    AppState × Except ApiError Package :=
  if 500 < req.name.utf8ByteSize then
    (s, .error (errJson "Package name too long (max 500 chars)"))
  else if 5000 < (req.description.getD "").utf8ByteSize then
    (s, .error (errJson "Description too long (max 5000 chars)"))
  else
    match s.db.createPackage i req.name (req.description.getD "") [] 0 "api" with
    | none => (s, .error (errJson "Failed to create package"))
    | some (db, id) =>
        ({ s with db := db },
          match lookup with
          | .failed => .error (errJson "Failed to read package")
          | .unreadable => .error (errJson "Package not found after creation")
          | .executed =>
              match db.getPackage id with
              | none => .error (errJson "Package not found after creation")
              | some pkg => .ok pkg)

def getPackage (db : Database) (lookup : Lookup) (id : String) : Except ApiError Package :=
  if validPackageId id = false then .error (errJson "Invalid package ID format")
  else
    match lookup with
    | .failed => .error (errJson "Database error")
    | .unreadable => .error (errJson "Package not found")
    | .executed =>
        match db.getPackage id with
        | none => .error (errJson "Package not found")
        | some pkg => .ok pkg

structure FileInfo where
  name : Name
  size : ℤ
  path : String

structure AgentTransferReq where
  /-- "download" or "upload". -/
  action : String
  packageId : String
  files : List FileInfo
  serverHost : String
  serverPort : UInt16
  sessionKey : String

def triggerAgentTransfer (req : AgentTransferReq) : Except ApiError AgentTransferReq :=
  if req.action ≠ "download" ∧ req.action ≠ "upload" then
    .error (errJson "action must be 'download' or 'upload'")
  else if validPackageId req.packageId = false then
    .error (errJson "Invalid package ID format")
  else if req.files.any fun f => (sanitizeFilename f.name).isNone then
    .error (errJson "Invalid filename in file list")
  else .ok req

/-! ## What they do to the database -/

/-- `create_package` changes nothing, or adds a package without files. -/
theorem createPackage_cases (s : AppState) (i : Insertion) (lookup : Lookup)
    (req : CreatePackageReq) :
    (createPackage s i lookup req).1 = s ∨
      ∃ db id, s.db.createPackage i req.name (req.description.getD "") [] 0 "api" = some (db, id) ∧
        (createPackage s i lookup req).1 = { s with db := db } := by
  unfold createPackage
  split
  · exact Or.inl rfl
  · split
    · exact Or.inl rfl
    · cases hcreate : s.db.createPackage i req.name (req.description.getD "") [] 0 "api" with
      | none => exact Or.inl rfl
      | some res => exact Or.inr ⟨res.1, res.2, rfl, rfl⟩

theorem mem_newest {ρ : Type} {createdAt : ρ → String} {rows : List ρ} {limit : ℕ} {row : ρ}
    (h : row ∈ Database.newest createdAt rows limit) : row ∈ rows :=
  (List.mergeSort_perm rows _).mem_iff.mp (List.mem_of_mem_take h)

/-- Without completed transfers `health` counts none. -/
theorem health_eq_zero {db : Database} (h : ∀ row ∈ db.transfers, row.status = "pending")
    (executed : Bool) : health db executed = 0 := by
  unfold health
  rw [List.countP_eq_zero]
  intro row hrow hcompleted
  cases executed with
  | false => cases hrow
  | true =>
      have hpending := h row (mem_newest hrow)
      rw [hpending] at hcompleted
      exact absurd hcompleted (by decide)

end Updown.Web
