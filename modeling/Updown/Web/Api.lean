import Mathlib.Data.Int.Notation
import Updown.Protocol.Wire
import Updown.Web.Db
import Updown.Web.Filename
import Updown.Web.RateLimiter

set_option autoImplicit false

/-! # Uploads and share links

`upload_files` and `create_share_link` of `web/api.rs`. The storage directory holds one directory
for each upload. A sanitized name is a single component, so the checks of canonical paths that
`upload_files` makes for each file hold and are left out; the one for the directory is
`DirOutcome`. What the file system, the clock, the random generator and the database engine decide
is in `UploadEnv` and `ShareEnv`.
-/

namespace Updown.Web

open FilePath (Name)

/-- Maximum upload size: 10 GiB. -/
def MAX_UPLOAD_SIZE : ℕ := 10 * 1024 * 1024 * 1024

/-- Maximum individual file size in a single upload: 5 GiB. -/
def MAX_FILE_SIZE : ℕ := 5 * 1024 * 1024 * 1024

def RATE_LIMIT_UPLOAD_MAX : ℕ := 30

def RATE_LIMIT_SHARE_MAX : ℕ := 60

/-- The files of a directory. -/
abbrev Dir := Name → Option Bytes

structure AppState where
  db : Database
  /-- The directories under `storage_dir`. -/
  storage : String → Option Dir
  host : String
  rateLimiter : RateLimiter

/-- An error response. -/
structure ApiError where
  status : ℕ
  error : String
  deriving DecidableEq

def errJson (msg : String) : ApiError := { status := 400, error := msg }

def errStatus (status : ℕ) (msg : String) : ApiError := { status := status, error := msg }

structure UploadResponse where
  packageId : String
  files : List Name
  totalSize : ℕ
  deriving DecidableEq

/-! ## Uploads -/

/-- A field of a multipart form; its body may not arrive. -/
structure Field where
  fileName : Option Name
  body : Option Bytes

/-- What `next_field` returns, call after call: a field, or an error. -/
abbrev Multipart := List (Option Field)

/-- How `create_dir_all` ends; without the directory, `inside` says whether the path as it is
written lies in the storage directory. -/
inductive DirOutcome where
  | created
  | missing (inside : Bool)
  deriving DecidableEq

/-- How `fs::write` ends. -/
inductive WriteOutcome where
  | written
  /-- The file could not be opened. -/
  | refused
  /-- Writing failed after `n` bytes. -/
  | torn (n : ℕ)

/-- What is decided outside during an upload. -/
structure UploadEnv where
  now : ℕ
  /-- The UUID of the upload. -/
  pkgId : String
  dir : DirOutcome
  /-- How the `i`-th file is written. -/
  write : ℕ → WriteOutcome
  package : Insertion
  transfer : ℕ → Insertion

/-- The loop over the fields: the directory it leaves, and names and total size of the files. -/
def storeFields (write : ℕ → WriteOutcome) : Multipart → ℕ → Dir → List Name → ℕ →
    Dir × Except ApiError (List Name × ℕ)
  | [], _, dir, files, totalSize => (dir, .ok (files, totalSize))
  | none :: _, _, dir, files, totalSize => (dir, .ok (files, totalSize))
  | some field :: fields, i, dir, files, totalSize =>
      match sanitizeFilename (field.fileName.getD "unknown".toList) with
      | none =>
          (dir, .error (errJson ("Invalid filename. Filenames must not contain path separators " ++
            "or special characters.")))
      | some name =>
          match field.body with
          | none => (dir, .error (errJson "Failed to read upload"))
          | some data =>
              if MAX_FILE_SIZE < data.length then
                (dir, .error (errJson "File too large. Maximum file size is 5 GiB."))
              else if MAX_UPLOAD_SIZE < totalSize + data.length then
                (dir, .error (errJson "Total upload size exceeds 10 GiB limit."))
              else
                match write i with
                | .refused => (dir, .error (errJson "Failed to save file"))
                | .torn n =>
                    (Function.update dir name (some (data.take n)),
                      .error (errJson "Failed to save file"))
                | .written =>
                    storeFields write fields (i + 1) (Function.update dir name (some data))
                      (files ++ [name]) (totalSize + data.length)

/-- One round of the loop, for the `i`-th field if `write` is how the `i`-th file is written. -/
def storeField (write : WriteOutcome) (field : Field) (dir : Dir) (files : List Name)
    (totalSize : ℕ) : Dir × Except ApiError (List Name × ℕ) :=
  match sanitizeFilename (field.fileName.getD "unknown".toList) with
  | none =>
      (dir, .error (errJson ("Invalid filename. Filenames must not contain path separators " ++
        "or special characters.")))
  | some name =>
      match field.body with
      | none => (dir, .error (errJson "Failed to read upload"))
      | some data =>
          if MAX_FILE_SIZE < data.length then
            (dir, .error (errJson "File too large. Maximum file size is 5 GiB."))
          else if MAX_UPLOAD_SIZE < totalSize + data.length then
            (dir, .error (errJson "Total upload size exceeds 10 GiB limit."))
          else
            match write with
            | .refused => (dir, .error (errJson "Failed to save file"))
            | .torn n =>
                (Function.update dir name (some (data.take n)),
                  .error (errJson "Failed to save file"))
            | .written =>
                (Function.update dir name (some data), .ok (files ++ [name], totalSize + data.length))

/-- One transfer for each file; an error is ignored. -/
def recordTransfers (insertion : ℕ → Insertion) (totalSize : ℕ) : List Name → ℕ → Database →
    Database
  | [], _, db => db
  | file :: files, i, db =>
      match db.createTransfer (insertion i) file totalSize "upload" "web" with
      | some (db, _) => recordTransfers insertion totalSize files (i + 1) db
      | none => recordTransfers insertion totalSize files (i + 1) db

/-- The end of `upload_files`, after the loop over the fields: the package and its transfers. -/
def AppState.recordUpload (s : AppState) (env : UploadEnv) :
    Except ApiError (List Name × ℕ) → AppState × Except ApiError UploadResponse
  | .error e => (s, .error e)
  | .ok (files, totalSize) =>
      if files = [] then (s, .error (errJson "No files uploaded"))
      else
        match s.db.createPackage env.package env.pkgId "" files totalSize "upload" with
        | none => (s, .error (errJson "Failed to create package record"))
        | some (db, _) =>
            ({ s with db := recordTransfers env.transfer totalSize files 0 db },
              .ok { packageId := env.pkgId, files := files, totalSize := totalSize })

def uploadFiles (s : AppState) (env : UploadEnv) (multipart : Multipart) :
    AppState × Except ApiError UploadResponse :=
  let (limiter, allowed) := s.rateLimiter.check env.now "upload" "global" RATE_LIMIT_UPLOAD_MAX
  let s := { s with rateLimiter := limiter }
  if allowed = false then
    (s, .error (errStatus 429 "Upload rate limit exceeded. Try again later."))
  else
    match env.dir with
    | .missing false => (s, .error (errJson "Invalid storage path"))
    | .missing true =>
        -- without the directory no file in it can be opened
        let stored := storeFields (fun _ => .refused) multipart 0 (fun _ => none) [] 0
        s.recordUpload env stored.2
    | .created =>
        let dir := (s.storage env.pkgId).getD fun _ => none
        let stored := storeFields env.write multipart 0 dir [] 0
        let s := { s with storage := Function.update s.storage env.pkgId (some stored.1) }
        s.recordUpload env stored.2

/-! ## Share links -/

structure CreateShareReq where
  packageId : String
  maxDownloads : Option ℤ
  expiresHours : Option ℤ

structure ShareLinkResponse where
  code : String
  url : String
  packageId : String
  deriving DecidableEq

/-- What is decided outside while a share link is created. -/
structure ShareEnv where
  now : ℕ
  /-- The lookup of the package can be executed. -/
  lookup : Bool
  link : Insertion
  randomBytes : Vector UInt8 18
  /-- The text of the time so many hours from now. -/
  hoursFromNow : ℤ → String

/-- The check of a package identifier in a request. -/
def validPackageId (id : String) : Bool :=
  decide (id.utf8ByteSize ≤ 50) && id.toList.all fun c => c.isAlphanum || c == '-'

def createShareLink (s : AppState) (env : ShareEnv) (req : CreateShareReq) :
    AppState × Except ApiError ShareLinkResponse :=
  let (limiter, allowed) := s.rateLimiter.check env.now "share" "global" RATE_LIMIT_SHARE_MAX
  let s := { s with rateLimiter := limiter }
  if allowed = false then
    (s, .error (errStatus 429 "Share link creation rate limit exceeded. Try again later."))
  else if validPackageId req.packageId = false then
    (s, .error (errJson "Invalid package ID format"))
  else if req.expiresHours.any fun h => h ≤ 0 || 8760 < h then
    (s, .error (errJson "expires_hours must be between 1 and 8760 (1 year)"))
  else if req.maxDownloads.any fun m => m ≤ 0 then
    (s, .error (errJson "max_downloads must be positive"))
  else
    let found := if env.lookup then s.db.getPackage req.packageId else none
    if found.isNone then (s, .error (errJson "Package not found"))
    else
      match s.db.createShareLink env.link env.randomBytes req.packageId "api" req.maxDownloads
          (req.expiresHours.map env.hoursFromNow) with
      | none => (s, .error (errJson "Failed to create share link"))
      | some (db, code) =>
          ({ s with db := db },
            .ok { code := code, url := "http://" ++ s.host ++ "/d/" ++ code,
                  packageId := req.packageId })

/-! ## What an upload leaves -/

/-- The names of the fields, sanitized, up to where the form breaks off. -/
def Multipart.names : Multipart → List Name
  | [] => []
  | none :: _ => []
  | some field :: fields =>
      (sanitizeFilename (field.fileName.getD "unknown".toList)).toList ++ names fields

/-- The total size of the fields, up to where the form breaks off. -/
def Multipart.size : Multipart → ℕ
  | [] => 0
  | none :: _ => 0
  | some field :: fields => (field.body.getD []).length + size fields

/-- The name of a stored file is safe, and a field only adds to its directory. -/
theorem storeField_cases (write : WriteOutcome) (field : Field) (dir : Dir) (files : List Name)
    (totalSize : ℕ) :
    (∃ e, storeField write field dir files totalSize = (dir, .error e)) ∨
    (∃ name data e, write ≠ .refused ∧ storeField write field dir files totalSize
      = (Function.update dir name (some data), .error e)) ∨
    ∃ name data, sanitizeFilename (field.fileName.getD "unknown".toList) = some name ∧
      field.body = some data ∧ write = .written ∧ storeField write field dir files totalSize
        = (Function.update dir name (some data), .ok (files ++ [name], totalSize + data.length)) := by
  rw [storeField]
  cases hname : sanitizeFilename (field.fileName.getD "unknown".toList) with
  | none => exact Or.inl ⟨_, rfl⟩
  | some name =>
      cases hbody : field.body with
      | none => exact Or.inl ⟨_, rfl⟩
      | some data =>
          dsimp only
          split
          · exact Or.inl ⟨_, rfl⟩
          · split
            · exact Or.inl ⟨_, rfl⟩
            · cases write with
              | refused => exact Or.inl ⟨_, rfl⟩
              | torn n => exact Or.inr (Or.inl ⟨name, data.take n, _, by simp, rfl⟩)
              | written => exact Or.inr (Or.inr ⟨name, data, rfl, rfl, rfl, rfl⟩)

/-- The loop over the fields takes them one by one. -/
theorem storeFields_eq_storeField (write : ℕ → WriteOutcome) (field : Field) (fields : Multipart)
    (i : ℕ) (dir : Dir) (files : List Name) (totalSize : ℕ) :
    storeFields write (some field :: fields) i dir files totalSize =
      match storeField (write i) field dir files totalSize with
      | (dir, .error e) => (dir, .error e)
      | (dir, .ok (files, totalSize)) => storeFields write fields (i + 1) dir files totalSize := by
  rw [storeFields, storeField]
  cases sanitizeFilename (field.fileName.getD "unknown".toList) with
  | none => rfl
  | some name =>
      cases field.body with
      | none => rfl
      | some data =>
          dsimp only
          split
          · rfl
          · split
            · rfl
            · cases write i <;> rfl

/-- **What one field does**: it ends the loop and leaves the directory alone, it is written in part,
or it has a safe name, arrives whole, is within the limits and is written. -/
theorem storeFields_cons (write : ℕ → WriteOutcome) (field : Field) (fields : Multipart) (i : ℕ)
    (dir : Dir) (files : List Name) (totalSize : ℕ) :
    (∃ e, storeFields write (some field :: fields) i dir files totalSize = (dir, .error e)) ∨
    (∃ name data n, sanitizeFilename (field.fileName.getD "unknown".toList) = some name ∧
      field.body = some data ∧
      storeFields write (some field :: fields) i dir files totalSize
        = (Function.update dir name (some (data.take n)),
            .error (errJson "Failed to save file"))) ∨
    ∃ name data, sanitizeFilename (field.fileName.getD "unknown".toList) = some name ∧
      field.body = some data ∧ data.length ≤ MAX_FILE_SIZE ∧
      totalSize + data.length ≤ MAX_UPLOAD_SIZE ∧ write i = .written ∧
      storeFields write (some field :: fields) i dir files totalSize
        = storeFields write fields (i + 1) (Function.update dir name (some data)) (files ++ [name])
            (totalSize + data.length) := by
  rw [storeFields]
  cases hname : sanitizeFilename (field.fileName.getD "unknown".toList) with
  | none => exact Or.inl ⟨_, rfl⟩
  | some name =>
      cases hbody : field.body with
      | none => exact Or.inl ⟨_, rfl⟩
      | some data =>
          dsimp only
          by_cases hfile : MAX_FILE_SIZE < data.length
          · exact Or.inl ⟨_, by rw [if_pos hfile]⟩
          · rw [if_neg hfile]
            by_cases hupload : MAX_UPLOAD_SIZE < totalSize + data.length
            · exact Or.inl ⟨_, by rw [if_pos hupload]⟩
            · rw [if_neg hupload]
              cases hwrite : write i with
              | refused => exact Or.inl ⟨_, rfl⟩
              | torn n => exact Or.inr (Or.inl ⟨name, data, n, rfl, rfl, rfl⟩)
              | written =>
                  exact Or.inr (Or.inr ⟨name, data, rfl, rfl, Nat.le_of_not_lt hfile,
                    Nat.le_of_not_lt hupload, rfl, rfl⟩)

/-- A field that does not end the loop. -/
theorem storeFields_cons_ok {write : ℕ → WriteOutcome} {field : Field} {fields : Multipart} {i : ℕ}
    {dir dir' : Dir} {files : List Name} {totalSize : ℕ} {res : List Name × ℕ}
    (h : storeFields write (some field :: fields) i dir files totalSize = (dir', .ok res)) :
    ∃ name data, sanitizeFilename (field.fileName.getD "unknown".toList) = some name ∧
      field.body = some data ∧ write i = .written ∧
      storeFields write fields (i + 1) (Function.update dir name (some data)) (files ++ [name])
        (totalSize + data.length) = (dir', .ok res) := by
  rcases storeFields_cons write field fields i dir files totalSize with
    ⟨e, hstop⟩ | ⟨name, data, n, -, -, htorn⟩ | ⟨name, data, hname, hbody, -, -, hwrite, hrest⟩
  · rw [hstop] at h
    cases (Prod.mk.inj h).2
  · rw [htorn] at h
    cases (Prod.mk.inj h).2
  · exact ⟨name, data, hname, hbody, hwrite, hrest ▸ h⟩

/-- **The loop over the fields**, if it ends well: the names, the sizes, and a file for each
name. -/
theorem storeFields_ok {write : ℕ → WriteOutcome} (multipart : Multipart) :
    ∀ {i : ℕ} {dir dir' : Dir} {files files' : List Name} {totalSize totalSize' : ℕ},
      storeFields write multipart i dir files totalSize = (dir', .ok (files', totalSize')) →
      files' = files ++ multipart.names ∧ totalSize' = totalSize + multipart.size ∧
        ∀ name, (dir name).isSome ∨ name ∈ multipart.names → (dir' name).isSome := by
  induction multipart with
  | nil =>
      intro i dir dir' files files' totalSize totalSize' h
      obtain ⟨rfl, hres⟩ := Prod.mk.inj h
      obtain ⟨rfl, rfl⟩ := Prod.mk.inj (Except.ok.inj hres)
      simp [Multipart.names, Multipart.size]
  | cons field fields ih =>
      intro i dir dir' files files' totalSize totalSize' h
      cases field with
      | none =>
          obtain ⟨rfl, hres⟩ := Prod.mk.inj h
          obtain ⟨rfl, rfl⟩ := Prod.mk.inj (Except.ok.inj hres)
          simp [Multipart.names, Multipart.size]
      | some field =>
          obtain ⟨name, data, hname, hbody, -, hrest⟩ := storeFields_cons_ok h
          obtain ⟨hfiles, htotal, hstored⟩ := ih hrest
          rw [Multipart.names, hname, Multipart.size, hbody]
          refine ⟨?_, ?_, fun other hor => hstored other ?_⟩
          · rw [hfiles, List.append_assoc]
            rfl
          · rw [htotal, Nat.add_assoc]
            rfl
          -- a later field of the same name writes the same file
          · by_cases heq : other = name
            · exact Or.inl (by simp [heq])
            · rw [Function.update_of_ne heq]
              simpa [heq] using hor

theorem recordTransfers_packages (insertion : ℕ → Insertion) (totalSize : ℕ) (files : List Name) :
    ∀ (i : ℕ) (db : Database),
      (recordTransfers insertion totalSize files i db).packages = db.packages := by
  induction files with
  | nil =>
      intro i db
      rfl
  | cons file files ih =>
      intro i db
      rw [recordTransfers]
      cases hrow : db.createTransfer (insertion i) file totalSize "upload" "web" with
      | none => exact ih (i + 1) db
      | some res =>
          calc (recordTransfers insertion totalSize files (i + 1) res.1).packages
              = res.1.packages := ih (i + 1) res.1
            _ = db.packages := (Database.createTransfer_frame hrow).1

/-- What an upload that is answered with `Ok` has done. -/
structure Uploaded (s : AppState) (env : UploadEnv) (multipart : Multipart) (s' : AppState)
    (resp : UploadResponse) : Prop where
  response : resp =
    { packageId := env.pkgId, files := multipart.names, totalSize := multipart.size }
  free : s.db.getPackage env.package.id = none
  packages : s'.db.packages = s.db.packages ++
    [{ id := env.package.id, name := env.pkgId, description := "", files := multipart.names,
       totalSize := multipart.size, shareLink := none, createdBy := "upload",
       createdAt := env.package.now, expiresAt := none }]
  stored : ∃ dir, s'.storage env.pkgId = some dir ∧
    ∀ name ∈ multipart.names, (dir name).isSome

/-- Without a directory no file is stored. -/
theorem storeFields_refused {multipart : Multipart} {i : ℕ} {dir dir' : Dir} {totalSize : ℕ}
    {res : List Name × ℕ}
    (h : storeFields (fun _ => .refused) multipart i dir [] totalSize = (dir', .ok res)) :
    res.1 = [] := by
  match multipart with
  | [] | none :: _ =>
      obtain ⟨-, hres⟩ := Prod.mk.inj h
      exact (congrArg Prod.fst (Except.ok.inj hres)).symm
  | some field :: fields =>
      obtain ⟨-, -, -, -, hwrite, -⟩ := storeFields_cons_ok h
      cases hwrite

/-- What the end of `upload_files` does if it ends well. -/
theorem recordUpload_ok {s s' : AppState} {env : UploadEnv}
    {stored : Except ApiError (List Name × ℕ)} {resp : UploadResponse}
    (h : s.recordUpload env stored = (s', .ok resp)) :
    ∃ files totalSize db id, stored = .ok (files, totalSize) ∧ files ≠ [] ∧
      s.db.createPackage env.package env.pkgId "" files totalSize "upload" = some (db, id) ∧
      s' = { s with db := recordTransfers env.transfer totalSize files 0 db } ∧
      resp = { packageId := env.pkgId, files := files, totalSize := totalSize } := by
  cases stored with
  | error e => cases (Prod.mk.inj h).2
  | ok res =>
      obtain ⟨files, totalSize⟩ := res
      rw [AppState.recordUpload] at h
      split at h
      · cases (Prod.mk.inj h).2
      · next hfiles =>
          split at h
          · cases (Prod.mk.inj h).2
          · next db id hcreate =>
              obtain ⟨hs', hresp⟩ := Prod.mk.inj h
              exact ⟨files, totalSize, db, id, rfl, hfiles, hcreate, hs'.symm,
                (Except.ok.inj hresp).symm⟩

/-- What an upload does that is answered with `Ok`. -/
theorem uploadFiles_ok {s s' : AppState} {env : UploadEnv} {multipart : Multipart}
    {resp : UploadResponse} (h : uploadFiles s env multipart = (s', .ok resp)) :
    ∃ dir dir' db id,
      storeFields env.write multipart 0 dir [] 0
        = (dir', .ok (multipart.names, multipart.size)) ∧
      s.db.createPackage env.package env.pkgId "" multipart.names multipart.size "upload"
        = some (db, id) ∧
      s'.storage = Function.update s.storage env.pkgId (some dir') ∧
      s'.db = recordTransfers env.transfer multipart.size multipart.names 0 db ∧
      resp = { packageId := env.pkgId, files := multipart.names, totalSize := multipart.size } := by
  unfold uploadFiles at h
  dsimp only at h
  split at h
  · cases (Prod.mk.inj h).2
  · split at h
    · cases (Prod.mk.inj h).2
    · obtain ⟨files, totalSize, db, id, hstored, hfiles, -⟩ := recordUpload_ok h
      exact absurd (storeFields_refused (Prod.ext rfl hstored)) hfiles
    · obtain ⟨files, totalSize, db, id, hstored, -, hcreate, rfl, rfl⟩ := recordUpload_ok h
      have hloop : storeFields env.write multipart 0 ((s.storage env.pkgId).getD fun _ => none) [] 0
          = (_, .ok (files, totalSize)) := Prod.ext rfl hstored
      obtain ⟨hnames, hsize, -⟩ := storeFields_ok multipart hloop
      rw [List.nil_append] at hnames
      rw [Nat.zero_add] at hsize
      rw [hnames, hsize] at hcreate hloop ⊢
      exact ⟨_, _, db, id, hloop, hcreate, rfl, rfl, rfl⟩

theorem uploaded_of_ok {s s' : AppState} {env : UploadEnv} {multipart : Multipart}
    {resp : UploadResponse} (h : uploadFiles s env multipart = (s', .ok resp)) :
    Uploaded s env multipart s' resp := by
  obtain ⟨dir, dir', db, id, hloop, hcreate, hstorage, hdb, hresp⟩ := uploadFiles_ok h
  obtain ⟨-, hfree, -, -, hpackages⟩ := Database.createPackage_eq_some hcreate
  obtain ⟨-, -, hdir⟩ := storeFields_ok multipart hloop
  refine ⟨hresp, hfree, ?_, dir', ?_, fun name hname => hdir name (Or.inr hname)⟩
  · rw [hdb, recordTransfers_packages, hpackages]
  · rw [hstorage]
    exact Function.update_self _ _ _

end Updown.Web
