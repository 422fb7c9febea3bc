import Updown.Web.Handlers

set_option autoImplicit false

/-! # The server, with its requests in flight

`api_router` of `web/api.rs`: which requests need a key, and what they do. A request is answered at
once, or it is an upload or a new share link, which take several steps; between them the server
handles other requests. What the file system, the clock, the random generator and the database
engine decide is part of the events.
-/

namespace Updown.Web

open FilePath (Name)

/-- A request, by its route. -/
inductive Call where
  | health (executed : Bool)
  | shareInfo (env : InfoEnv) (code : String)
  | login (executed : Bool) (apiKey : String)
  | logout
  | me (executed : Bool)
  | transfers (executed : Bool) (limit : Option ℤ)
  | packages (executed : Bool) (limit : Option ℤ)
  | createPackage (i : Insertion) (lookup : Lookup) (req : CreatePackageReq)
  | package (lookup : Lookup) (id : String)
  | upload (now : ℕ) (pkgId : String) (dir : DirOutcome) (multipart : Multipart)
  | share (now : ℕ) (lookup : Bool) (hoursFromNow : ℤ → String) (req : CreateShareReq)
  | agentTransfer (req : AgentTransferReq)

/-- The routes behind `auth_middleware`. -/
def Call.isProtected : Call → Bool
  | .health _ | .shareInfo _ _ | .login _ _ | .logout | .me _ => false
  | _ => true

/-- The data of an `Ok` response. -/
inductive Answer where
  | health (completed : ℕ)
  | shareInfo (link : ShareLink)
  | loggedIn (user : LoginResponse) (cookie : List Char)
  | loggedOut
  | me (user : LoginResponse)
  | transfers (rows : List Transfer)
  | packages (rows : List Package)
  | package (pkg : Package)
  | uploaded (resp : UploadResponse)
  | shared (resp : ShareLinkResponse)
  | agentTransfer (req : AgentTransferReq)

/-- Where a request is that has not been answered yet. -/
inductive InFlight where
  /-- In the loop over the fields of an upload; `created` says that its directory exists. -/
  | fields (pkgId : String) (created : Bool) (rest : Multipart) (files : List Name) (totalSize : ℕ)
  /-- The package is recorded; `rest` are the files whose transfers are not. -/
  | recording (pkgId : String) (rest files : List Name) (totalSize : ℕ)
  /-- The package of a share link has been found. -/
  | link (req : CreateShareReq) (expires : Option String)

structure Server where
  app : AppState
  users : Users
  /-- The requests that have not been answered. -/
  inFlight : ℕ → Option InFlight
  /-- The answers so far; `none` is a handler that panicked. No step depends on them. -/
  answers : List (ℕ × Option (Except ApiError Answer))

inductive Event where
  /-- A request arrives; `auth` says whether its key can be looked up. -/
  | request (p : ℕ) (headers : Request) (auth : Bool) (call : Call)
  /-- An upload goes on with its next field. -/
  | field (p : ℕ) (write : WriteOutcome)
  /-- An upload records its package, or a transfer, or ends. -/
  | record (p : ℕ) (i : Insertion)
  | link (p : ℕ) (i : Insertion) (randomBytes : Vector UInt8 18)
  /-- A call of `create_user`, which no request makes. -/
  | createUser (c : UserCall)

/-- The connection of an event. -/
def Event.connection : Event → Option ℕ
  | .request p _ _ _ | .field p _ | .record p _ | .link p _ _ => some p
  | .createUser _ => none

/-- The checks of `create_share_link`, up to the lookup of the package. -/
def checkShare (s : AppState) (now : ℕ) (lookup : Bool) (req : CreateShareReq) :
    AppState × Except ApiError Unit :=
  let (limiter, allowed) := s.rateLimiter.check now "share" "global" RATE_LIMIT_SHARE_MAX
  let s := { s with rateLimiter := limiter }
  if allowed = false then
    (s, .error (errStatus 429 "Share link creation rate limit exceeded. Try again later."))
  else if validPackageId req.packageId = false then
    (s, .error (errJson "Invalid package ID format"))
  else if req.expiresHours.any fun h => h ≤ 0 || 8760 < h then
    (s, .error (errJson "expires_hours must be between 1 and 8760 (1 year)"))
  else if req.maxDownloads.any fun m => m ≤ 0 then
    (s, .error (errJson "max_downloads must be positive"))
  else if (if lookup then s.db.getPackage req.packageId else none).isNone then
    (s, .error (errJson "Package not found"))
  else (s, .ok ())

namespace Server

/-- A server with an empty storage directory. -/
def start (host : String) : Server :=
  { app := { db := ⟨[], [], []⟩, storage := fun _ => none, host := host, rateLimiter := .new }
    users := []
    inFlight := fun _ => none
    answers := [] }

def reply (s : Server) (p : ℕ) (answer : Except ApiError Answer) : Server :=
  { s with answers := s.answers ++ [(p, some answer)] }

def setFlight (s : Server) (p : ℕ) (flight : Option InFlight) : Server :=
  { s with inFlight := Function.update s.inFlight p flight }

/-- The last step of a request in flight. -/
def finish (s : Server) (p : ℕ) (answer : Except ApiError Answer) : Server :=
  (s.setFlight p none).reply p answer

def setApp (s : Server) (app : AppState) : Server := { s with app := app }

def setStorage (s : Server) (id : String) (dir : Dir) : Server :=
  { s with app := { s.app with storage := Function.update s.app.storage id (some dir) } }

def setDb (s : Server) (db : Database) : Server := { s with app := { s.app with db := db } }

/-- The beginning of `upload_files`. -/
def beginUpload (s : Server) (p now : ℕ) (pkgId : String) (dir : DirOutcome)
    (multipart : Multipart) : Server :=
  let (limiter, allowed) := s.app.rateLimiter.check now "upload" "global" RATE_LIMIT_UPLOAD_MAX
  let s := s.setApp { s.app with rateLimiter := limiter }
  if allowed = false then
    s.reply p (.error (errStatus 429 "Upload rate limit exceeded. Try again later."))
  else
    match dir with
    | .missing false => s.reply p (.error (errJson "Invalid storage path"))
    | .missing true => s.setFlight p (some (.fields pkgId false multipart [] 0))
    | .created =>
        (s.setStorage pkgId ((s.app.storage pkgId).getD fun _ => none)).setFlight p
          (some (.fields pkgId true multipart [] 0))

/-- A request that has come to its handler. `parse` is `DateTime::parse_from_rfc3339`. -/
def handle (parse : String → Option ℤ) (s : Server) (p : ℕ) (headers : Request) : Call → Server
  | .health executed => s.reply p (.ok (.health (health s.app.db executed)))
  | .shareInfo env code => s.reply p ((getShareInfo parse s.app.db env code).map .shareInfo)
  | .login executed apiKey =>
      match login s.users executed apiKey with
      | none => { s with answers := s.answers ++ [(p, none)] }
      | some answer => s.reply p (answer.map fun res => .loggedIn res.1 res.2)
  | .logout => s.reply p (.ok .loggedOut)
  | .me executed => s.reply p ((me s.users executed headers).map .me)
  | .transfers executed limit =>
      s.reply p (.ok (.transfers (listTransfers s.app.db executed limit)))
  | .packages executed limit => s.reply p (.ok (.packages (listPackages s.app.db executed limit)))
  | .createPackage i lookup req =>
      (s.setApp (createPackage s.app i lookup req).1).reply p
        ((createPackage s.app i lookup req).2.map .package)
  | .package lookup id => s.reply p ((getPackage s.app.db lookup id).map .package)
  | .upload now pkgId dir multipart => s.beginUpload p now pkgId dir multipart
  | .share now lookup hoursFromNow req =>
      match checkShare s.app now lookup req with
      | (app, .error e) => (s.setApp app).reply p (.error e)
      | (app, .ok ()) =>
          (s.setApp app).setFlight p (some (.link req (req.expiresHours.map hoursFromNow)))
  | .agentTransfer req => s.reply p ((triggerAgentTransfer req).map .agentTransfer)

/-- An upload goes on with a field. -/
def stepField (s : Server) (p : ℕ) (write : WriteOutcome) : Option Server :=
  match s.inFlight p with
  | some (.fields pkgId true (some field :: rest) files totalSize) =>
      match storeField write field ((s.app.storage pkgId).getD fun _ => none) files totalSize with
      | (dir, .error e) => some ((s.setStorage pkgId dir).finish p (.error e))
      | (dir, .ok (files, totalSize)) =>
          some ((s.setStorage pkgId dir).setFlight p
            (some (.fields pkgId true rest files totalSize)))
  | some (.fields _ false (some field :: _) files totalSize) =>
      -- without the directory no file in it can be opened
      match (storeField .refused field (fun _ => none) files totalSize).2 with
      | .error e => some (s.finish p (.error e))
      | .ok _ => none
  | _ => none

/-- An upload records its package, the next transfer, or ends. -/
def stepRecord (s : Server) (p : ℕ) (i : Insertion) : Option Server :=
  match s.inFlight p with
  | some (.fields pkgId _ [] files totalSize)
  | some (.fields pkgId _ (none :: _) files totalSize) =>
      if files = [] then some (s.finish p (.error (errJson "No files uploaded")))
      else
        match s.app.db.createPackage i pkgId "" files totalSize "upload" with
        | none => some (s.finish p (.error (errJson "Failed to create package record")))
        | some (db, _) =>
            some ((s.setDb db).setFlight p (some (.recording pkgId files files totalSize)))
  | some (.recording pkgId (file :: rest) files totalSize) =>
      match s.app.db.createTransfer i file totalSize "upload" "web" with
      | none => some (s.setFlight p (some (.recording pkgId rest files totalSize)))
      | some (db, _) =>
          some ((s.setDb db).setFlight p (some (.recording pkgId rest files totalSize)))
  | some (.recording pkgId [] files totalSize) =>
      some (s.finish p (.ok (.uploaded
        { packageId := pkgId, files := files, totalSize := totalSize })))
  | _ => none

/-- A share link is inserted. -/
def stepLink (s : Server) (p : ℕ) (i : Insertion) (randomBytes : Vector UInt8 18) :
    Option Server :=
  match s.inFlight p with
  | some (.link req expires) =>
      match s.app.db.createShareLink i randomBytes req.packageId "api" req.maxDownloads expires with
      | none => some (s.finish p (.error (errJson "Failed to create share link")))
      | some (db, code) =>
          some ((s.setDb db).finish p (.ok (.shared
            { code := code, url := "http://" ++ s.app.host ++ "/d/" ++ code,
              packageId := req.packageId })))
  | _ => none

/-- One step; `none` when the event is not possible in the state. -/
def step (parse : String → Option ℤ) (s : Server) : Event → Option Server
  | .request p headers auth call =>
      if (s.inFlight p).isSome then none
      else if call.isProtected then
        match authMiddleware s.users auth headers with
        | .error e => some (s.reply p (.error e))
        | .ok () => some (s.handle parse p headers call)
      else some (s.handle parse p headers call)
  | .field p write => s.stepField p write
  | .record p i => s.stepRecord p i
  | .link p i randomBytes => s.stepLink p i randomBytes
  | .createUser c => some { s with users := usersAfter s.users [c] }

variable {s : Server} {p : ℕ} {pkgId : String} {created : Bool} {rest : Multipart}
  {files : List Name} {totalSize : ℕ}

/-- The next field of an upload. -/
theorem stepField_eq {field : Field} {dir : Dir} (write : WriteOutcome)
    (hflight : s.inFlight p = some (.fields pkgId true (some field :: rest) files totalSize))
    (hdir : s.app.storage pkgId = some dir) : s.stepField p write =
      match storeField write field dir files totalSize with
      | (dir, .error e) => some ((s.setStorage pkgId dir).finish p (.error e))
      | (dir, .ok (files, totalSize)) =>
          some ((s.setStorage pkgId dir).setFlight p
            (some (.fields pkgId true rest files totalSize))) := by
  simp only [stepField, hflight, hdir, Option.getD_some]

/-- The package of an upload, when no field is left. -/
theorem stepRecord_eq (i : Insertion) (hrest : ∀ field ∈ rest.head?, field = none)
    (hflight : s.inFlight p = some (.fields pkgId created rest files totalSize)) :
    s.stepRecord p i =
      if files = [] then some (s.finish p (.error (errJson "No files uploaded")))
      else
        match s.app.db.createPackage i pkgId "" files totalSize "upload" with
        | none => some (s.finish p (.error (errJson "Failed to create package record")))
        | some (db, _) =>
            some ((s.setDb db).setFlight p (some (.recording pkgId files files totalSize))) := by
  cases rest with
  | nil => simp only [stepRecord, hflight]
  | cons field rest =>
      obtain rfl := hrest field rfl
      simp only [stepRecord, hflight]

end Server

/-! ## The checks of a share link -/

theorem checkShare_frame (s : AppState) (now : ℕ) (lookup : Bool) (req : CreateShareReq) :
    ∃ limiter, (checkShare s now lookup req).1 = { s with rateLimiter := limiter } := by
  unfold checkShare
  dsimp only
  refine ⟨(s.rateLimiter.check now "share" "global" RATE_LIMIT_SHARE_MAX).1, ?_⟩
  split
  · rfl
  · split
    · rfl
    · split
      · rfl
      · split
        · rfl
        · generalize (if lookup then s.db.getPackage req.packageId else none) = found
          cases found <;> rfl

/-- A share link that passes the checks has its package, and room for a download. -/
theorem checkShare_ok {s : AppState} {now : ℕ} {lookup : Bool} {req : CreateShareReq}
    (h : (checkShare s now lookup req).2 = .ok ()) :
    (∃ pkg ∈ s.db.packages, pkg.id = req.packageId) ∧ ∀ m ∈ req.maxDownloads, 0 < m := by
  unfold checkShare at h
  dsimp only at h
  split at h
  · cases h
  · split at h
    · cases h
    · split at h
      · cases h
      · split at h
        · cases h
        · next hpos =>
            refine ⟨?_, fun m hm => ?_⟩
            · cases hget : (if lookup then s.db.getPackage req.packageId else none) with
              | none =>
                  rw [hget] at h
                  cases h
              | some pkg =>
                  have hfound : s.db.getPackage req.packageId = some pkg := by
                    cases lookup with
                    | false => cases hget
                    | true => exact hget
                  have hid : (pkg.id == req.packageId) = true := by
                    simpa using List.find?_some hfound
                  exact ⟨pkg, List.mem_of_find?_eq_some hfound, beq_iff_eq.mp hid⟩
            · by_contra hneg
              refine hpos ((Option.any_eq_true _ _).mpr ⟨m, hm, ?_⟩)
              simpa using hneg

end Updown.Web
