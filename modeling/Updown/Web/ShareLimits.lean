import Updown.Web.Api

set_option autoImplicit false

/-! # Download limits of share links

`get_share_info` (`web/api.rs`) refuses a link whose `download_count` has reached `max_downloads`.
`increment_download_count` (`web/db.rs`) would raise the count, but no request calls it: an `Access`
is what a request does to the database under one lock, and the row of a link is the same after all
of them (`getShareLink_run`). So what a link answers depends on its expiry alone, and
`downloads_le_iff` says for which sequences of accesses the limit is kept.
-/

namespace Updown.Web

open FilePath (Name)

namespace Database

def getShareLink (db : Database) (code : String) : Option ShareLink :=
  db.shareLinks.find? fun link => link.code == code

def incrementDownloadCount (db : Database) (code : String) : Database :=
  { db with
    shareLinks := db.shareLinks.map fun link =>
      if link.code == code then { link with downloadCount := link.downloadCount + 1 } else link }

end Database

/-! ## Answering a request for a link -/

/-- How the lookup of a row ends. -/
inductive Lookup where
  | executed
  /-- The row cannot be read. -/
  | unreadable
  | failed
  deriving DecidableEq

/-- What is decided outside while a request for a share link is answered. -/
structure InfoEnv where
  lookup : Lookup
  /-- The time when the expiry is checked. -/
  now : ℤ

/-- The check of a share code in a request. -/
def validShareCode (code : String) : Bool :=
  decide (code.utf8ByteSize ≤ 50) && code.toList.all fun c => c.isAlphanum || c == '-' || c == '_'

/-- The link has a time of expiry that can be read and has passed. `parse` is
`DateTime::parse_from_rfc3339`. -/
def hasExpired (parse : String → Option ℤ) (expiresAt : Option String) (now : ℤ) : Bool :=
  expiresAt.any fun text => (parse text).any fun time => time < now

def getShareInfo (parse : String → Option ℤ) (db : Database) (env : InfoEnv) (code : String) :
    Except ApiError ShareLink :=
  if validShareCode code = false then .error (errJson "Invalid share code format")
  else
    match env.lookup with
    | .failed => .error (errJson "Database error")
    | .unreadable => .error (errJson "Share link not found")
    | .executed =>
        match db.getShareLink code with
        | none => .error (errJson "Share link not found")
        | some link =>
            if hasExpired parse link.expiresAt env.now then
              .error (errJson "Share link has expired")
            else if link.maxDownloads.any fun m => m ≤ (link.downloadCount : ℤ) then
              .error (errJson "Share link download limit reached")
            else .ok link

/-! ## What the requests do to the database -/

/-- An access of a request to the database, under its lock. -/
inductive Access where
  | createTransfer (i : Insertion) (filename : Name) (fileSize : ℕ) (direction peer : String)
  | createPackage (i : Insertion) (name description : String) (files : List Name) (totalSize : ℕ)
      (createdBy : String)
  | createShareLink (i : Insertion) (randomBytes : Vector UInt8 18) (packageId createdBy : String)
      (maxDownloads : Option ℤ) (expiresAt : Option String)
  | getShareInfo (env : InfoEnv) (code : String)
  /-- `list_transfers`, `list_packages`, `get_package` and the lookup of an API key. -/
  | read

def Access.run (db : Database) : Access → Database
  | .createTransfer i filename fileSize direction peer =>
      ((db.createTransfer i filename fileSize direction peer).map Prod.fst).getD db
  | .createPackage i name description files totalSize createdBy =>
      ((db.createPackage i name description files totalSize createdBy).map Prod.fst).getD db
  | .createShareLink i randomBytes packageId createdBy maxDownloads expiresAt =>
      ((db.createShareLink i randomBytes packageId createdBy maxDownloads expiresAt).map
        Prod.fst).getD db
  | .getShareInfo _ _ => db
  | .read => db

def runAccesses (db : Database) (accesses : List Access) : Database := accesses.foldl Access.run db

/-- The answer to a request for a code. -/
def Access.answer (parse : String → Option ℤ) (code : String) (db : Database) :
    Access → Option (Except ApiError ShareLink)
  | .getShareInfo env c => if c = code then some (Web.getShareInfo parse db env c) else none
  | _ => none

/-- The answers to the requests for a code, in order. -/
def answers (parse : String → Option ℤ) (code : String) :
    Database → List Access → List (Except ApiError ShareLink)
  | _, [] => []
  | db, a :: as => (a.answer parse code db).toList ++ answers parse code (a.run db) as

/-- The number of requests for a code that are answered with `Ok`. -/
def downloads (parse : String → Option ℤ) (code : String) (db : Database)
    (accesses : List Access) : ℕ :=
  (answers parse code db accesses).countP fun answer => answer.isOk

/-- A request for the code that meets a working database before the expiry. -/
def Access.timely (parse : String → Option ℤ) (code : String) (expiresAt : Option String) :
    Access → Bool
  | .getShareInfo env c =>
      c = code && env.lookup = .executed && !hasExpired parse expiresAt env.now
  | _ => false

/-! ## The requests are made of these accesses -/

theorem recordTransfers_eq_run (insertion : ℕ → Insertion) (totalSize : ℕ) (files : List Name) :
    ∀ (i : ℕ) (db : Database), ∃ accesses,
      recordTransfers insertion totalSize files i db = runAccesses db accesses := by
  induction files with
  | nil =>
      intro i db
      exact ⟨[], rfl⟩
  | cons file files ih =>
      intro i db
      rw [recordTransfers]
      cases hrow : db.createTransfer (insertion i) file totalSize "upload" "web" with
      | none => exact ih (i + 1) db
      | some res =>
          obtain ⟨accesses, hrest⟩ := ih (i + 1) res.1
          refine ⟨.createTransfer (insertion i) file totalSize "upload" "web" :: accesses, ?_⟩
          simpa [runAccesses, Access.run, hrow] using hrest

theorem recordUpload_eq_run (s : AppState) (env : UploadEnv)
    (stored : Except ApiError (List Name × ℕ)) :
    ∃ accesses, (s.recordUpload env stored).1.db = runAccesses s.db accesses := by
  cases stored with
  | error e => exact ⟨[], rfl⟩
  | ok res =>
      obtain ⟨files, totalSize⟩ := res
      rw [AppState.recordUpload]
      split
      · exact ⟨[], rfl⟩
      · split
        · exact ⟨[], rfl⟩
        · next db id hcreate =>
            obtain ⟨accesses, hrest⟩ :=
              recordTransfers_eq_run env.transfer totalSize files 0 db
            refine ⟨.createPackage env.package env.pkgId "" files totalSize "upload" :: accesses, ?_⟩
            simpa [runAccesses, Access.run, hcreate] using hrest

/-- **An upload is a sequence of accesses** … -/
theorem uploadFiles_eq_run (s : AppState) (env : UploadEnv) (multipart : Multipart) :
    ∃ accesses, (uploadFiles s env multipart).1.db = runAccesses s.db accesses := by
  unfold uploadFiles
  dsimp only
  split
  · exact ⟨[], rfl⟩
  · split
    · exact ⟨[], rfl⟩
    · exact recordUpload_eq_run _ env _
    · exact recordUpload_eq_run _ env _

/-- How `create_share_link` ends: without a change of the database, or with one more link, whose
limit is positive if it has one. -/
theorem createShareLink_cases (s : AppState) (env : ShareEnv) (req : CreateShareReq) :
    ((createShareLink s env req).1.db = s.db ∧ ∃ e, (createShareLink s env req).2 = .error e) ∨
      ∃ db code, s.db.createShareLink env.link env.randomBytes req.packageId "api"
          req.maxDownloads (req.expiresHours.map env.hoursFromNow) = some (db, code) ∧
        (createShareLink s env req).1.db = db ∧
        (createShareLink s env req).2 = .ok
          { code := code, url := "http://" ++ s.host ++ "/d/" ++ code,
            packageId := req.packageId } ∧
        ∀ m ∈ req.maxDownloads, 0 < m := by
  unfold createShareLink
  dsimp only
  split
  · exact Or.inl ⟨rfl, _, rfl⟩
  · split
    · exact Or.inl ⟨rfl, _, rfl⟩
    · split
      · exact Or.inl ⟨rfl, _, rfl⟩
      · split
        · exact Or.inl ⟨rfl, _, rfl⟩
        · next hpos =>
            generalize (if env.lookup then s.db.getPackage req.packageId else none) = found
            cases found with
            | none => exact Or.inl ⟨rfl, _, rfl⟩
            | some pkg =>
                dsimp only [Option.isNone_some]
                rw [if_neg Bool.false_ne_true]
                cases hcreate : s.db.createShareLink env.link env.randomBytes req.packageId "api"
                    req.maxDownloads (req.expiresHours.map env.hoursFromNow) with
                | none => exact Or.inl ⟨rfl, _, rfl⟩
                | some res =>
                    refine Or.inr ⟨res.1, res.2, rfl, rfl, rfl, fun m hm => ?_⟩
                    by_contra hneg
                    refine hpos ((Option.any_eq_true _ _).mpr ⟨m, hm, ?_⟩)
                    simpa using hneg

/-- … **and so is the creation of a link.** -/
theorem createShareLink_eq_run (s : AppState) (env : ShareEnv) (req : CreateShareReq) :
    ∃ accesses, (createShareLink s env req).1.db = runAccesses s.db accesses := by
  rcases createShareLink_cases s env req with ⟨hdb, -⟩ | ⟨db, code, hcreate, hdb, -⟩
  · exact ⟨[], hdb⟩
  · refine ⟨[.createShareLink env.link env.randomBytes req.packageId "api" req.maxDownloads
      (req.expiresHours.map env.hoursFromNow)], ?_⟩
    rw [hdb]
    simp [runAccesses, Access.run, hcreate]

/-! ## The link that is created -/

theorem utf8ByteSize_ofList {l : List Char} (h : ∀ c ∈ l, c.utf8Size = 1) :
    (String.ofList l).utf8ByteSize = l.length := by
  induction l using List.reverseRecOn with
  | nil => rfl
  | append_singleton l c ih =>
      have hc : c.utf8Size = 1 := h c (by simp)
      have hl := ih fun c' hc' => h c' (by simp [hc'])
      rw [String.ofList_append, String.utf8ByteSize_append, hl]
      simp [hc]

/-- The characters of a code are of one byte, and those that `get_share_info` accepts. -/
theorem mem_alphabet {c : Char} (h : c ∈ Database.ALPHABET) :
    c.utf8Size = 1 ∧ (c.isAlphanum || c == '-' || c == '_') = true := by
  have hall : (Database.ALPHABET.all fun c =>
      c.utf8Size == 1 && (c.isAlphanum || c == '-' || c == '_')) = true := by decide +kernel
  have hc := List.all_eq_true.mp hall c h
  rwa [Bool.and_eq_true, beq_iff_eq] at hc

/-- **`get_share_info` accepts every code that is handed out.** -/
theorem validShareCode_shareCode (randomBytes : Vector UInt8 18) :
    validShareCode (Database.shareCode randomBytes) = true := by
  have hchar : ∀ c ∈ randomBytes.toList.map fun b =>
      Database.ALPHABET.getD (b &&& 0x3F).toNat 'A', c ∈ Database.ALPHABET := by
    intro c hc
    obtain ⟨b, -, rfl⟩ := List.mem_map.mp hc
    rw [List.getD_eq_getElem?_getD]
    cases hget : Database.ALPHABET[(b &&& 0x3F).toNat]? with
    | none => exact (by decide : 'A' ∈ Database.ALPHABET)
    | some c => exact List.mem_of_getElem? hget
  have hsize := utf8ByteSize_ofList fun c hc => (mem_alphabet (hchar c hc)).1
  unfold validShareCode Database.shareCode
  rw [hsize, Bool.and_eq_true, List.all_eq_true, String.toList_ofList]
  refine ⟨?_, fun c hc => (mem_alphabet (hchar c hc)).2⟩
  simp

/-- The row of a link with the limit `m`: nobody has downloaded, and the code is valid. -/
structure Limited (link : ShareLink) (code : String) (m : ℤ) (expiresAt : Option String) :
    Prop where
  valid : validShareCode code = true
  maxDownloads : link.maxDownloads = some m
  pos : 0 < m
  downloadCount : link.downloadCount = 0
  expiresAt_eq : link.expiresAt = expiresAt

/-- **What the statement does that creates a link**: one more row, under a code that was free. -/
theorem createShareLink_eq_some {db db' : Database} {i : Insertion}
    {randomBytes : Vector UInt8 18} {packageId createdBy code : String} {maxDownloads : Option ℤ}
    {expiresAt : Option String}
    (h : db.createShareLink i randomBytes packageId createdBy maxDownloads expiresAt
      = some (db', code)) :
    code = Database.shareCode randomBytes ∧ db.getShareLink code = none ∧
      ∃ link : ShareLink, db'.shareLinks = db.shareLinks ++ [link] ∧ link.code = code ∧
        link.maxDownloads = maxDownloads ∧ link.downloadCount = 0 ∧
        link.expiresAt = expiresAt := by
  unfold Database.createShareLink Database.insert at h
  dsimp only at h
  split at h
  · split at h
    · cases h
    · next hfree =>
        obtain ⟨rfl, rfl⟩ := Prod.mk.inj (Option.some.inj h)
        refine ⟨rfl, ?_, _, rfl, rfl, rfl, rfl, rfl⟩
        rw [Database.getShareLink, List.find?_eq_none]
        intro link hlink heq
        refine hfree (List.any_eq_true.mpr ⟨link, hlink, ?_⟩)
        simp [(beq_iff_eq.mp heq).symm]
  · cases h

theorem limited_of_ok {s s' : AppState} {env : ShareEnv} {req : CreateShareReq}
    {resp : ShareLinkResponse} {m : ℤ} (h : createShareLink s env req = (s', .ok resp))
    (hm : req.maxDownloads = some m) :
    ∃ link, s'.db.getShareLink resp.code = some link ∧
      Limited link resp.code m (req.expiresHours.map env.hoursFromNow) := by
  rcases createShareLink_cases s env req with ⟨-, e, herror⟩ | ⟨db, code, hcreate, hdb, hok, hpos⟩
  · rw [h] at herror
    cases herror
  · rw [h] at hdb hok
    obtain rfl := hdb
    obtain rfl := Except.ok.inj hok
    obtain ⟨hcode, hfree, link, hrows, hlink, hmax, hcount, hexp⟩ :=
      createShareLink_eq_some hcreate
    have hvalid : validShareCode code = true := by
      rw [hcode]
      exact validShareCode_shareCode env.randomBytes
    refine ⟨link, ?_, hvalid, hmax.trans hm, hpos m hm, hcount, hexp⟩
    rw [Database.getShareLink, hrows, List.find?_append, ← Database.getShareLink, hfree,
      Option.none_or, List.find?_cons_of_pos (by simp [hlink])]

/-! ## What a link answers -/

/-- **No access changes the row of a link.** -/
theorem getShareLink_run {db : Database} {code : String} {link : ShareLink}
    (h : db.getShareLink code = some link) (a : Access) :
    (a.run db).getShareLink code = some link := by
  cases a with
  | createTransfer i filename fileSize direction peer =>
      rw [Access.run]
      cases hrow : db.createTransfer i filename fileSize direction peer with
      | none => exact h
      | some res =>
          have hframe := (Database.createTransfer_frame hrow).2
          simpa [Database.getShareLink, hframe] using h
  | createPackage i name description files totalSize createdBy =>
      rw [Access.run]
      cases hrow : db.createPackage i name description files totalSize createdBy with
      | none => exact h
      | some res =>
          obtain ⟨-, -, hframe, -⟩ := Database.createPackage_eq_some hrow
          simpa [Database.getShareLink, hframe] using h
  | createShareLink i randomBytes packageId createdBy maxDownloads expiresAt =>
      rw [Access.run]
      cases hrow : db.createShareLink i randomBytes packageId createdBy maxDownloads expiresAt with
      | none => exact h
      | some res =>
          obtain ⟨-, -, row, hrows, -⟩ := createShareLink_eq_some hrow
          show res.1.getShareLink code = some link
          rw [Database.getShareLink, hrows, List.find?_append, ← Database.getShareLink, h,
            Option.some_or]
  | getShareInfo env c => exact h
  | read => exact h

/-- A request for a link is answered with `Ok` before its expiry while its count is below its
limit. -/
theorem isOk_getShareInfo_of_get {parse : String → Option ℤ} {db : Database} {code : String}
    {link : ShareLink} (h : db.getShareLink code = some link)
    (hvalid : validShareCode code = true) (env : InfoEnv) :
    (getShareInfo parse db env code).isOk
      = (decide (env.lookup = .executed) && !hasExpired parse link.expiresAt env.now &&
        !link.maxDownloads.any fun m => m ≤ (link.downloadCount : ℤ)) := by
  unfold getShareInfo
  rw [hvalid, if_neg (by simp)]
  cases hlookup : env.lookup with
  | failed | unreadable => rfl
  | executed =>
      simp only [h]
      cases hasExpired parse link.expiresAt env.now with
      | true => rfl
      | false =>
          cases link.maxDownloads.any fun m => m ≤ (link.downloadCount : ℤ) with
          | true | false => rfl

/-- The answer for a link without counted downloads depends on the expiry alone. -/
theorem isOk_getShareInfo {parse : String → Option ℤ} {db : Database} {code : String}
    {link : ShareLink} {m : ℤ} {expiresAt : Option String} (h : db.getShareLink code = some link)
    (hlink : Limited link code m expiresAt) (env : InfoEnv) :
    (getShareInfo parse db env code).isOk
      = (decide (env.lookup = .executed) && !hasExpired parse expiresAt env.now) := by
  have hroom : link.maxDownloads.any (fun m => m ≤ (link.downloadCount : ℤ)) = false := by
    simpa [hlink.maxDownloads, hlink.downloadCount] using hlink.pos
  rw [isOk_getShareInfo_of_get h hlink.valid env, hroom, hlink.expiresAt_eq, Bool.not_false,
    Bool.and_true]

theorem isOk_answer (parse : String → Option ℤ) {db : Database} {code : String}
    {link : ShareLink} {m : ℤ} {expiresAt : Option String} (h : db.getShareLink code = some link)
    (hlink : Limited link code m expiresAt) (a : Access) :
    (a.answer parse code db).any (fun answer => answer.isOk) = a.timely parse code expiresAt := by
  cases a with
  | getShareInfo env c =>
      rw [Access.answer, Access.timely]
      by_cases hcode : c = code
      · subst hcode
        rw [if_pos rfl, Option.any_some, isOk_getShareInfo h hlink env]
        simp
      · simp [hcode]
  | createTransfer | createPackage | createShareLink | read => rfl

/-- **The downloads of a link are the timely requests for it**, whatever else is requested. -/
theorem downloads_eq {parse : String → Option ℤ} {code : String} {link : ShareLink} {m : ℤ}
    {expiresAt : Option String} (hlink : Limited link code m expiresAt)
    (accesses : List Access) :
    ∀ {db : Database}, db.getShareLink code = some link →
      downloads parse code db accesses = accesses.countP (Access.timely parse code expiresAt) := by
  induction accesses with
  | nil =>
      intro db _
      rfl
  | cons a as ih =>
      intro db h
      have hhead := isOk_answer parse h hlink a
      have hrest := ih (getShareLink_run h a)
      unfold downloads at hrest ⊢
      rw [answers, List.countP_append, hrest, List.countP_cons, Nat.add_comm, ← hhead]
      congr 1
      cases a.answer parse code db with
      | none => rfl
      | some answer => simp

/-- **When a download limit is kept**: a link created with the limit `m` is downloaded at most `m`
times if and only if at most `m` requests for it meet a working database before it expires. -/
theorem downloads_le_iff (parse : String → Option ℤ) {s s' : AppState} {env : ShareEnv}
    {req : CreateShareReq} {resp : ShareLinkResponse} {m : ℤ}
    (h : createShareLink s env req = (s', .ok resp)) (hm : req.maxDownloads = some m)
    (accesses : List Access) :
    (downloads parse resp.code s'.db accesses : ℤ) ≤ m ↔
      (accesses.countP (Access.timely parse resp.code
        (req.expiresHours.map env.hoursFromNow)) : ℤ) ≤ m := by
  obtain ⟨link, hget, hlink⟩ := limited_of_ok h hm
  rw [downloads_eq hlink accesses hget]

/-! ## The count that is not kept -/

theorem getShareLink_increment {db : Database} {code : String} {link : ShareLink}
    (h : db.getShareLink code = some link) :
    (db.incrementDownloadCount code).getShareLink code
      = some { link with downloadCount := link.downloadCount + 1 } := by
  rw [Database.getShareLink] at h
  have hcode : (link.code == code) = true := by simpa using List.find?_some h
  have hsame : (fun row : ShareLink => row.code == code) ∘ (fun row : ShareLink =>
      if row.code == code then { row with downloadCount := row.downloadCount + 1 } else row)
      = fun row => row.code == code := by
    funext row
    by_cases hrow : row.code == code
    · simp only [Function.comp_apply, hrow, if_true]
    · simp only [Function.comp_apply, hrow, Bool.false_eq_true, if_false]
  unfold Database.getShareLink Database.incrementDownloadCount
  rw [List.find?_map, hsame, h, Option.map_some, if_pos hcode]

theorem getShareLink_increments {db : Database} {code : String} {link : ShareLink}
    (h : db.getShareLink code = some link) (n : ℕ) :
    ((fun db : Database => db.incrementDownloadCount code)^[n] db).getShareLink code
      = some { link with downloadCount := link.downloadCount + n } := by
  induction n with
  | zero => exact h
  | succ n ih =>
      rw [Function.iterate_succ_apply', getShareLink_increment ih, Nat.add_assoc]

/-- **The limit would be kept if downloads were counted**: after `m` of them the link is
refused. -/
theorem refused_of_counted {parse : String → Option ℤ} {s s' : AppState} {env : ShareEnv}
    {req : CreateShareReq} {resp : ShareLinkResponse} {m : ℤ}
    (h : createShareLink s env req = (s', .ok resp)) (hm : req.maxDownloads = some m) {n : ℕ}
    (hn : m ≤ n) (info : InfoEnv) :
    (getShareInfo parse ((fun db : Database => db.incrementDownloadCount resp.code)^[n] s'.db) info
      resp.code).isOk = false := by
  obtain ⟨link, hget, hlink⟩ := limited_of_ok h hm
  have hfull : link.maxDownloads.any (fun m => m ≤ ((link.downloadCount + n : ℕ) : ℤ)) = true := by
    simpa [hlink.maxDownloads, hlink.downloadCount] using hn
  rw [isOk_getShareInfo_of_get (getShareLink_increments hget n) hlink.valid info, hfull,
    Bool.not_true, Bool.and_false]

namespace Small

/-- A server with one package. -/
def sharing : AppState :=
  { db := ⟨[], [⟨"p", "p", "", ["a.txt".toList], 3, none, "upload", "now", none⟩], []⟩,
    storage := fun _ => none, host := "localhost:8080", rateLimiter := .new }

def linkEnv : ShareEnv :=
  { now := 0, lookup := true, link := ⟨"l", "now", true⟩, randomBytes := Vector.replicate 18 0,
    hoursFromNow := fun _ => "later" }

/-- A link to the package that may be downloaded once. -/
def once : CreateShareReq := { packageId := "p", maxDownloads := some 1, expiresHours := none }

/-- The answer to `once`. -/
def onceResponse : ShareLinkResponse :=
  { code := "AAAAAAAAAAAAAAAAAA", url := "http://localhost:8080/d/AAAAAAAAAAAAAAAAAA",
    packageId := "p" }

/-- A client that looks at the link. -/
def look : Access := .getShareInfo ⟨.executed, 0⟩ "AAAAAAAAAAAAAAAAAA"

/-- **A link that may be downloaded once is downloaded twice.** -/
theorem once_downloaded_twice :
    ∃ s', createShareLink sharing linkEnv once = (s', .ok onceResponse) ∧
      downloads (fun _ => none) onceResponse.code s'.db [look, look] = 2 :=
  ⟨_, Prod.ext rfl (by decide +kernel), by decide +kernel⟩

theorem downloads_le_iff_once :
    ∃ s', createShareLink sharing linkEnv once = (s', .ok onceResponse) ∧
      (downloads (fun _ => none) onceResponse.code s'.db [.read, look] : ℤ) ≤ 1 ∧
      ¬ (downloads (fun _ => none) onceResponse.code s'.db [look, .read, look] : ℤ) ≤ 1 := by
  have h : createShareLink sharing linkEnv once = (_, .ok onceResponse) :=
    Prod.ext rfl (by decide +kernel)
  refine ⟨_, h, ?_, ?_⟩
  · exact (downloads_le_iff (fun _ => none) h rfl _).mpr (by decide +kernel)
  · exact fun hle =>
      absurd ((downloads_le_iff (fun _ => none) h rfl _).mp hle) (by decide +kernel)

end Small

end Updown.Web
