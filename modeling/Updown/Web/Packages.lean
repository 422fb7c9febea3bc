import Updown.Web.Api

set_option autoImplicit false

/-! # The identifier of an upload

`upload_files` draws a UUID, names the directory after it and returns it; `create_package` draws
another for the row of the database, and the first becomes the package's name. The endpoints that
take a package identifier look for the row. `namesPackage_iff` says when they find what was
uploaded.
-/

namespace Updown.Web

/-- The identifier in the response stands for what was uploaded, wherever it is used. -/
structure NamesPackage (s : AppState) (resp : UploadResponse) : Prop where
  record : ∃ pkg, s.db.getPackage resp.packageId = some pkg ∧ pkg.files = resp.files ∧
    pkg.totalSize = resp.totalSize
  stored : ∃ dir, s.storage resp.packageId = some dir ∧
    ∀ name ∈ resp.files, (dir name).isSome
  shared : ∀ env req, env.lookup = true → req.packageId = resp.packageId →
    (createShareLink s env req).2 ≠ .error (errJson "Package not found")

/-- Errors with different texts are different. -/
theorem error_ne {α : Type} {msg msg' : String} (h : msg ≠ msg') :
    (.error (errJson msg) : Except ApiError α) ≠ .error (errJson msg') :=
  fun heq => h (congrArg ApiError.error (Except.error.inj heq))

/-- A share link is refused for want of a package only if there is none. -/
theorem createShareLink_ne_notFound {s : AppState} {env : ShareEnv} {req : CreateShareReq}
    (hlookup : env.lookup = true) (hfound : (s.db.getPackage req.packageId).isSome) :
    (createShareLink s env req).2 ≠ .error (errJson "Package not found") := by
  have hsome : (if env.lookup then s.db.getPackage req.packageId else none).isNone = false := by
    rw [if_pos hlookup]
    simpa using hfound
  unfold createShareLink
  dsimp only
  rw [hsome]
  split
  · intro h
    cases congrArg ApiError.status (Except.error.inj h)
  · split
    · exact error_ne (by decide)
    · split
      · exact error_ne (by decide)
      · split
        · exact error_ne (by decide)
        · rw [if_neg Bool.false_ne_true]
          split
          · exact error_ne (by decide)
          · exact fun h => nomatch h

/-- The row that an upload adds is found under its own identifier, every other as before. -/
theorem Uploaded.getPackage {s s' : AppState} {env : UploadEnv} {multipart : Multipart}
    {resp : UploadResponse} (h : Uploaded s env multipart s' resp) (id : String) :
    ∃ row : Package, row.files = multipart.names ∧ row.totalSize = multipart.size ∧
      s'.db.getPackage id
        = (s.db.getPackage id).or (if env.package.id = id then some row else none) :=
  ⟨_, rfl, rfl, Database.getPackage_append h.packages rfl⟩

/-- **When the identifier of an upload names its package**: if the two UUIDs agree, or a package
that was there before happens to have the identifier and the files. -/
theorem namesPackage_iff {s s' : AppState} {env : UploadEnv} {multipart : Multipart}
    {resp : UploadResponse} (h : uploadFiles s env multipart = (s', .ok resp)) :
    NamesPackage s' resp ↔ env.package.id = env.pkgId ∨
      ∃ pkg, s.db.getPackage env.pkgId = some pkg ∧ pkg.files = multipart.names ∧
        pkg.totalSize = multipart.size := by
  have hup := uploaded_of_ok h
  obtain rfl := hup.response
  obtain ⟨row, hfiles, hsize, hget⟩ := hup.getPackage env.pkgId
  constructor
  · rintro ⟨⟨pkg, hpkg, hpkgfiles, hpkgsize⟩, -, -⟩
    -- the row found is an old one, or the one `create_package` has added
    rw [hget] at hpkg
    cases hold : s.db.getPackage env.pkgId with
    | some pkg' =>
        rw [hold, Option.some_or] at hpkg
        obtain rfl := Option.some.inj hpkg
        exact Or.inr ⟨pkg', rfl, hpkgfiles, hpkgsize⟩
    | none =>
        rw [hold, Option.none_or] at hpkg
        by_cases hid : env.package.id = env.pkgId
        · exact Or.inl hid
        · rw [if_neg hid] at hpkg
          cases hpkg
  · intro hor
    have hrecord : ∃ pkg, s'.db.getPackage env.pkgId = some pkg ∧
        pkg.files = multipart.names ∧ pkg.totalSize = multipart.size := by
      rcases hor with hid | ⟨pkg, hpkg, hpkgfiles, hpkgsize⟩
      · have hfree := hup.free
        rw [hid] at hfree
        exact ⟨row, by rw [hget, hfree, if_pos hid]; rfl, hfiles, hsize⟩
      · exact ⟨pkg, by rw [hget, hpkg, Option.some_or], hpkgfiles, hpkgsize⟩
    refine ⟨hrecord, hup.stored, fun shareEnv req hlookup hreq => ?_⟩
    obtain ⟨pkg, hpkg, -⟩ := hrecord
    exact createShareLink_ne_notFound hlookup (by rw [hreq, hpkg]; rfl)

namespace Small

/-- A server without packages. -/
def server : AppState :=
  { db := ⟨[], [], []⟩, storage := fun _ => none, host := "localhost:8080",
    rateLimiter := .new }

/-- One file of three bytes. -/
def form : Multipart := [some ⟨some "a.txt".toList, some [1, 2, 3]⟩]

/-- The upload draws `u`, `create_package` draws `p`. -/
def uploadEnv (u p : String) : UploadEnv :=
  { now := 0, pkgId := u, dir := .created, write := fun _ => .written, package := ⟨p, "now", true⟩,
    transfer := fun _ => ⟨"t", "now", true⟩ }

def shareEnv : ShareEnv :=
  { now := 0, lookup := true, link := ⟨"l", "now", true⟩, randomBytes := Vector.replicate 18 0,
    hoursFromNow := fun _ => "later" }

/-- The response to `form`. -/
def response : UploadResponse :=
  { packageId := "u", files := ["a.txt".toList], totalSize := 3 }

theorem namesPackage_iff_form :
    (∃ s', uploadFiles server (uploadEnv "u" "u") form = (s', .ok response) ∧
      NamesPackage s' response) ∧
    ∃ s', uploadFiles server (uploadEnv "u" "p") form = (s', .ok response) ∧
      ¬ NamesPackage s' response := by
  constructor
  · have hs' : uploadFiles server (uploadEnv "u" "u") form = (_, .ok response) :=
      Prod.ext rfl (by decide +kernel)
    exact ⟨_, hs', (namesPackage_iff hs').mpr (Or.inl rfl)⟩
  · have hs' : uploadFiles server (uploadEnv "u" "p") form = (_, .ok response) :=
      Prod.ext rfl (by decide +kernel)
    refine ⟨_, hs', fun hnames => ?_⟩
    rcases (namesPackage_iff hs').mp hnames with heq | ⟨pkg, hpkg, -⟩
    · exact absurd heq (by decide)
    · cases hpkg

/-- **The package that was just uploaded is not found.** -/
theorem uploaded_not_found :
    ∃ s', uploadFiles server (uploadEnv "u" "p") form = (s', .ok response) ∧
      s'.db.getPackage response.packageId = none ∧
      (createShareLink s' shareEnv ⟨response.packageId, none, none⟩).2
        = .error (errJson "Package not found") :=
  ⟨_, Prod.ext rfl (by decide +kernel), by decide +kernel, by decide +kernel⟩

end Small

end Updown.Web
