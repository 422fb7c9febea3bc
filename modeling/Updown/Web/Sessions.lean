import Updown.Lib.Ascii
import Updown.Web.Api
import Updown.Web.Users

set_option autoImplicit false

/-! # API keys and browser sessions

`validate_api_key` of `web/db.rs`, and `auth_middleware`, `login` and `me` of `web/api.rs`.
A stored key is "upd_" and 32 hexadecimal digits, so the early rejection of other texts loses no
user (`early_rejection`), and a key passes through a cookie unchanged (`session_answers`).
-/

namespace Updown.Web

/-! ## Keys -/

/-- `Database::validate_api_key`; `none` is a statement that could not be executed. -/
def validateApiKey (users : Users) (executed : Bool) (apiKey : String) : Option (Option User) :=
  if ¬ "upd_".toList.isPrefixOf apiKey.toList ∨ (utf8 apiKey.toList).length < 10 then some none
  else if executed then some (getUserByApiKey users apiKey)
  else none

/-- The arguments of a `create_user` call, and what it draws. -/
structure UserCall where
  insertion : Insertion
  uuid : Uuid
  name : String
  email : String
  role : String

def UserCall.run (users : Users) (c : UserCall) : Option (Users × User) :=
  createUser users c.insertion c.uuid c.name c.email c.role

/-- The table after some `create_user` calls, failed ones included. -/
def usersAfter (users : Users) : List UserCall → Users
  | [] => users
  | c :: cs => usersAfter ((c.run users).elim users Prod.fst) cs

/-- The characters of keys. -/
def KEY_CHARS : List Char := "upd_".toList ++ HEX_DIGITS

theorem mem_keyChars {uuid : Uuid} {c : Char} (h : c ∈ (newApiKey uuid).toList) :
    c ∈ KEY_CHARS := by
  rw [toList_newApiKey] at h
  rcases List.mem_append.mp h with h | h
  · exact List.mem_append_left _ h
  · exact List.mem_append_right _ (Uuid.mem_simple h)

theorem length_le_utf8 (text : List Char) : text.length ≤ (utf8 text).length := by
  induction text with
  | nil => exact le_rfl
  | cons c text ih =>
      have hpos : 0 < (String.utf8EncodeChar c).length := by
        rw [String.length_utf8EncodeChar]
        exact c.utf8Size_pos
      rw [utf8, List.flatMap_cons, ← utf8, List.length_append, List.length_cons]
      omega

/-- A key that `create_user` makes is not rejected early. -/
theorem validateApiKey_newApiKey (users : Users) (uuid : Uuid) :
    validateApiKey users true (newApiKey uuid) =
      some (getUserByApiKey users (newApiKey uuid)) := by
  have hlist := toList_newApiKey uuid
  have hlen := length_le_utf8 (newApiKey uuid).toList
  have hlong : (newApiKey uuid).toList.length = 36 := by
    rw [hlist, List.length_append, show uuid.simple.length = 32 from uuid.length_digits]
    rfl
  have haccepted : ¬ (¬ "upd_".toList.isPrefixOf (newApiKey uuid).toList ∨
      (utf8 (newApiKey uuid).toList).length < 10) := by
    rw [not_or, not_not, hlist]
    refine ⟨?_, by rw [← hlist]; omega⟩
    exact List.isPrefixOf_iff_prefix.mpr (List.prefix_append _ _)
  rw [validateApiKey, if_neg haccepted, if_pos rfl]

/-! ## The keys that are stored -/

/-- The invariant of the table: `create_user` made its keys, and no two rows share one. -/
structure UsersOk (users : Users) : Prop where
  made : ∀ u ∈ users, ∃ uuid, u.apiKey = newApiKey uuid
  nodup : (users.map User.apiKey).Nodup

theorem usersOk_nil : UsersOk [] := ⟨fun _ h => absurd h List.not_mem_nil, List.nodup_nil⟩

theorem UserCall.run_eq_some {users users' : Users} {c : UserCall} {row : User}
    (h : c.run users = some (users', row)) :
    users' = users ++ [row] ∧ row.apiKey = newApiKey c.uuid ∧
      ∀ u ∈ users, u.apiKey ≠ row.apiKey := by
  obtain ⟨husers, hkey, -⟩ := createUser_eq_some h
  refine ⟨husers, hkey, fun u hu heq => ?_⟩
  unfold run createUser Database.insert at h
  dsimp only at h
  split at h
  · split at h
    · cases h
    · next hfree =>
        refine hfree (List.any_eq_true.mpr ⟨u, hu, ?_⟩)
        rw [Bool.or_eq_true]
        exact Or.inr (beq_iff_eq.mpr (hkey.symm.trans heq.symm))
  · cases h

theorem UsersOk.run {users users' : Users} {c : UserCall} {row : User} (hok : UsersOk users)
    (h : c.run users = some (users', row)) : UsersOk users' := by
  obtain ⟨rfl, hkey, hfree⟩ := c.run_eq_some h
  refine ⟨fun u hu => ?_, ?_⟩
  · rcases List.mem_append.mp hu with hu | hu
    · exact hok.made u hu
    · exact ⟨c.uuid, by rw [List.mem_singleton.mp hu, hkey]⟩
  · rw [List.map_append, List.nodup_append]
    refine ⟨hok.nodup, List.nodup_singleton _, fun key hold key' hnew => ?_⟩
    obtain ⟨u, hu, rfl⟩ := List.mem_map.mp hold
    rw [List.map_singleton, List.mem_singleton] at hnew
    exact hnew ▸ hfree u hu

theorem UsersOk.after {users : Users} (hok : UsersOk users) (calls : List UserCall) :
    UsersOk (usersAfter users calls) := by
  induction calls generalizing users with
  | nil => exact hok
  | cons c cs ih =>
      rw [usersAfter]
      cases hrun : c.run users with
      | none => exact ih hok
      | some x => exact ih (hok.run hrun)

/-- No call removes a user. -/
theorem mem_usersAfter {users : Users} {u : User} (h : u ∈ users) (calls : List UserCall) :
    u ∈ usersAfter users calls := by
  induction calls generalizing users with
  | nil => exact h
  | cons c cs ih =>
      rw [usersAfter]
      cases hrun : c.run users with
      | none => exact ih h
      | some x =>
          obtain ⟨hx, -⟩ := c.run_eq_some hrun
          refine ih ?_
          rw [Option.elim_some, hx]
          exact List.mem_append_left _ h

theorem of_getUserByApiKey {users : Users} {k : String} {u : User}
    (h : getUserByApiKey users k = some u) : u ∈ users ∧ u.apiKey = k := by
  have hkey := List.find?_some h
  exact ⟨List.mem_of_find?_eq_some h, beq_iff_eq.mp hkey⟩

theorem UsersOk.lookup_of_mem {users : Users} (hok : UsersOk users) {u : User} (hu : u ∈ users) :
    getUserByApiKey users u.apiKey = some u := by
  cases hfind : getUserByApiKey users u.apiKey with
  | none => exact absurd (beq_self_eq_true u.apiKey) (List.find?_eq_none.mp hfind u hu)
  | some v =>
      obtain ⟨hv, hkey⟩ := of_getUserByApiKey hfind
      rw [List.inj_on_of_nodup_map hok.nodup hv hu hkey]

/-- What is rejected early is nobody's key. -/
theorem UsersOk.validate_eq {users : Users} (hok : UsersOk users) (k : String) :
    validateApiKey users true k = some (getUserByApiKey users k) := by
  cases hfind : getUserByApiKey users k with
  | none => rw [validateApiKey, hfind, if_pos rfl, ite_self]
  | some u =>
      -- a stored key is one that was made, and these are of the right form
      obtain ⟨hu, rfl⟩ := of_getUserByApiKey hfind
      obtain ⟨uuid, hkey⟩ := hok.made u hu
      rw [← hfind, hkey, validateApiKey_newApiKey]

/-- After any `create_user` calls `validate_api_key` answers as `get_user_by_api_key` does, and a
key that a call returned gives its user ever after. -/
theorem early_rejection :
    (∀ calls k, validateApiKey (usersAfter [] calls) true k =
      some (getUserByApiKey (usersAfter [] calls) k)) ∧
    ∀ calls (c : UserCall) users row later, c.run (usersAfter [] calls) = some (users, row) →
      validateApiKey (usersAfter users later) true row.apiKey = some (some row) := by
  refine ⟨fun calls k => (usersOk_nil.after calls).validate_eq k, ?_⟩
  intro calls c users row later hrun
  have hok := ((usersOk_nil.after calls).run hrun).after later
  obtain ⟨husers, -⟩ := c.run_eq_some hrun
  have hrow : row ∈ usersAfter users later :=
    mem_usersAfter (husers ▸ List.mem_append_right _ (List.mem_singleton.mpr rfl)) later
  rw [hok.validate_eq, hok.lookup_of_mem hrow]

/-! ## Header values -/

/-- `char::is_whitespace`. -/
def isWhitespace (c : Char) : Bool :=
  let n := c.toNat
  (0x09 ≤ n && n ≤ 0x0D) || n == 0x20 || n == 0x85 || n == 0xA0 || n == 0x1680 ||
    (0x2000 ≤ n && n ≤ 0x200A) || n == 0x2028 || n == 0x2029 || n == 0x202F || n == 0x205F ||
    n == 0x3000

/-- `str::trim`. -/
def trim (text : List Char) : List Char :=
  ((text.dropWhile isWhitespace).reverse.dropWhile isWhitespace).reverse

/-- What a cookie says about the session. -/
def sessionValue (c : List Char) : Option String :=
  if "session=".toList.isPrefixOf (trim c) then some (String.ofList ((trim c).drop 8)) else none

/-- The value of the first cookie "session" in the text of a `Cookie` header. -/
def scanCookies (cookies : List Char) : Option String :=
  (cookies.splitOn ';').findSome? sessionValue

/-- The two headers that are read, each the first of its name, if there is one: what
`HeaderValue::to_str` returns for it, `none` for an error. -/
structure Request where
  authorization : Option (Option (List Char))
  cookie : Option (Option (List Char))

def Request.sessionKey (req : Request) : Option String := req.cookie.join.bind scanCookies

/-- The key of the `Authorization` header. -/
def Request.bearerKey (req : Request) : Option String :=
  req.authorization.join.bind fun h =>
    if "Bearer ".toList.isPrefixOf h then some (String.ofList (h.drop 7)) else none

/-! ## The handlers -/

/-- `auth_middleware`; `.ok ()` is a request that is forwarded. -/
def authMiddleware (users : Users) (executed : Bool) (req : Request) : Except ApiError Unit :=
  match req.bearerKey.or req.sessionKey with
  | none => .error (errStatus 401
      "Not authenticated. Login at /login or use Authorization: Bearer upd_xxx")
  | some key =>
      match validateApiKey users executed key with
      | some (some _) => .ok ()
      | some none => .error (errStatus 401 "Invalid credentials")
      | none => .error (errStatus 500 "Authentication error")

structure LoginResponse where
  name : String
  role : String
  deriving DecidableEq

def User.loginResponse (u : User) : LoginResponse := { name := u.name, role := u.role }

def COOKIE_ATTRIBUTES : List Char := "; Path=/; HttpOnly; SameSite=Strict; Max-Age=86400".toList

/-- The text of the `Set-Cookie` header. -/
def setCookie (apiKey : String) : List Char :=
  "session=".toList ++ apiKey.toList ++ COOKIE_ATTRIBUTES

/-- `login`: the response and its `Set-Cookie` header. `none` is a panic, of the `unwrap` of a
response whose header value is not allowed. -/
def login (users : Users) (executed : Bool) (apiKey : String) :
    Option (Except ApiError (LoginResponse × List Char)) :=
  match validateApiKey users executed apiKey with
  | some (some user) =>
      if (utf8 (setCookie apiKey)).all fun b => (0x20 ≤ b && b != 0x7F) || b == 0x09 then
        some (.ok (user.loginResponse, setCookie apiKey))
      else none
  | some none => some (.error (errStatus 401 "Invalid API key"))
  | none => some (.error (errStatus 500 "Authentication error"))

/-- `me`. -/
def me (users : Users) (executed : Bool) (req : Request) : Except ApiError LoginResponse :=
  match req.sessionKey with
  | some key =>
      if key = "" then .error (errStatus 401 "Not logged in")
      else
        match validateApiKey users executed key with
        | some (some user) => .ok user.loginResponse
        | _ => .error (errStatus 401 "Invalid session")
  | none => .error (errStatus 401 "Not logged in")

/-! ## `me` and `auth_middleware` agree -/

theorem validateApiKey_empty (users : Users) (executed : Bool) :
    validateApiKey users executed "" = some none := if_pos (Or.inl (by decide))

/-- Without an `Authorization` header `me` answers exactly the requests that are let through. -/
theorem me_iff_forwarded (users : Users) (executed : Bool)
    (cookie : Option (Option (List Char))) :
    (∃ user, me users executed { authorization := none, cookie := cookie } = .ok user) ↔
      authMiddleware users executed { authorization := none, cookie := cookie } = .ok () := by
  have hbearer : Request.bearerKey { authorization := none, cookie := cookie } = none := rfl
  unfold me authMiddleware
  rw [hbearer, Option.none_or]
  cases Request.sessionKey { authorization := none, cookie := cookie } with
  | none => simp
  | some key =>
      dsimp only
      by_cases hempty : key = ""
      -- the middleware has no test for the empty key, but no user has it
      · rw [if_pos hempty, hempty, validateApiKey_empty]
        simp
      · rw [if_neg hempty]
        cases validateApiKey users executed key with
        | none => simp
        | some found => cases found <;> simp

/-! ## Cookies -/

/-- What a browser sends back of a `Set-Cookie` header: the part before the attributes. -/
def cookieOf (setCookie : List Char) : List Char := setCookie.takeWhile (· ≠ ';')

/-- The `Cookie` header with the given cookies. -/
def cookieHeader (cookies : List (List Char)) : Bytes := utf8 (List.intercalate "; ".toList cookies)

/-- A request with these cookies and no `Authorization` header. -/
def withCookies (toStr : Bytes → Option (List Char)) (cookies : List (List Char)) : Request :=
  { authorization := none, cookie := some (toStr (cookieHeader cookies)) }

/-- A character that `to_str` takes. -/
def Visible (c : Char) : Prop := (0x20 ≤ c.toNat ∧ c.toNat < 0x7F) ∨ c.toNat = 0x09

instance (c : Char) : Decidable (Visible c) := inferInstanceAs (Decidable (_ ∨ _))

/-- What is assumed of `HeaderValue::to_str`: it takes visible characters, as they were written. -/
def ReadsVisible (toStr : Bytes → Option (List Char)) : Prop :=
  ∀ text : List Char, (∀ c ∈ text, Visible c) → toStr (utf8 text) = some text

/-- A cookie of visible characters that holds no session. -/
structure Plain (c : List Char) : Prop where
  visible : ∀ ch ∈ c, Visible ch
  other : ∀ part ∈ c.splitOn ';', ¬ "session=".toList <+: trim part

theorem scanCookies_append (front back : List Char) :
    scanCookies (front ++ ';' :: back) = (scanCookies front).or (scanCookies back) := by
  rw [scanCookies, List.splitOn_append_cons_self, List.findSome?_append, scanCookies, scanCookies]

theorem sessionValue_space (c : List Char) : sessionValue (' ' :: c) = sessionValue c := rfl

/-- A space in front of a cookie does not matter. -/
theorem scanCookies_space (cookies : List Char) :
    scanCookies (' ' :: cookies) = scanCookies cookies := by
  rw [scanCookies, List.splitOn_cons_eq_if_modifyHead, if_neg (by decide), scanCookies]
  cases cookies.splitOn ';' with
  | nil => rfl
  | cons c cs =>
      rw [List.modifyHead_cons, List.findSome?_cons, List.findSome?_cons, sessionValue_space]

/-- The cookies are looked through one by one. -/
theorem scanCookies_intercalate (cookies : List (List Char)) :
    scanCookies (List.intercalate "; ".toList cookies) = cookies.findSome? scanCookies := by
  induction cookies with
  | nil => rfl
  | cons c cs ih =>
      cases cs with
      | nil => simp
      | cons c' cs =>
          have hsep : "; ".toList = [';', ' '] := by decide
          have hfirst : (c :: c' :: cs).findSome? scanCookies =
              (scanCookies c).or ((c' :: cs).findSome? scanCookies) := by
            rw [List.findSome?_cons]
            cases scanCookies c <;> rfl
          rw [List.intercalate_cons_cons, hsep, List.append_assoc, List.cons_append,
            scanCookies_append, List.cons_append, scanCookies_space, List.nil_append, ← hsep, ih,
            hfirst]

theorem Plain.scanCookies {c : List Char} (h : Plain c) : scanCookies c = none := by
  rw [Web.scanCookies, List.findSome?_eq_none_iff]
  intro part hpart
  exact if_neg fun hprefix => h.other part hpart (List.isPrefixOf_iff_prefix.mp hprefix)

theorem findSome?_eq_none_of_plain {cookies : List (List Char)} (h : ∀ c ∈ cookies, Plain c) :
    cookies.findSome? Web.scanCookies = none :=
  List.findSome?_eq_none_iff.mpr fun c hc => (h c hc).scanCookies

/-- A text without white space is left as it is. -/
theorem trim_eq_self {text : List Char} (h : ∀ c ∈ text, isWhitespace c = false) :
    trim text = text := by
  have hdrop : ∀ cs : List Char, (∀ c ∈ cs, isWhitespace c = false) →
      cs.dropWhile isWhitespace = cs := by
    intro cs hcs
    cases cs with
    | nil => rfl
    | cons c cs => exact List.dropWhile_cons_of_neg (by rw [hcs c List.mem_cons_self]; decide)
  rw [trim, hdrop text h, hdrop text.reverse fun c hc => h c (List.mem_reverse.mp hc),
    List.reverse_reverse]

/-! ## The session cookie -/

/-- A character of a key, and of the cookie that holds it. -/
theorem sessionChar_ok {c : Char} (h : c ∈ "session=".toList ++ KEY_CHARS) :
    Visible c ∧ isWhitespace c = false ∧ c ≠ ';' := by
  have hall : (("session=".toList ++ KEY_CHARS).all fun c =>
      decide (Visible c ∧ isWhitespace c = false ∧ c ≠ ';')) = true := by decide +kernel
  exact of_decide_eq_true (List.all_eq_true.mp hall c h)

/-- The cookie that `login` sets for a key. -/
def sessionCookie (apiKey : String) : List Char := "session=".toList ++ apiKey.toList

theorem mem_sessionCookie {uuid : Uuid} {c : Char}
    (h : c ∈ sessionCookie (newApiKey uuid)) : Visible c ∧ isWhitespace c = false ∧ c ≠ ';' := by
  apply sessionChar_ok
  rcases List.mem_append.mp h with h | h
  · exact List.mem_append_left _ h
  · exact List.mem_append_right _ (mem_keyChars h)

theorem cookieOf_setCookie (uuid : Uuid) :
    cookieOf (setCookie (newApiKey uuid)) = sessionCookie (newApiKey uuid) := by
  have hkey : ∀ c ∈ sessionCookie (newApiKey uuid), decide (c ≠ ';') = true :=
    fun c hc => decide_eq_true (mem_sessionCookie hc).2.2
  have hattributes : COOKIE_ATTRIBUTES.takeWhile (· ≠ ';') = [] := by decide +kernel
  have hset : setCookie (newApiKey uuid) =
      sessionCookie (newApiKey uuid) ++ COOKIE_ATTRIBUTES := rfl
  rw [cookieOf, hset, List.takeWhile_append_of_pos hkey, hattributes, List.append_nil]

theorem scanCookies_sessionCookie (uuid : Uuid) :
    scanCookies (sessionCookie (newApiKey uuid)) = some (newApiKey uuid) := by
  have htrim : trim (sessionCookie (newApiKey uuid)) = sessionCookie (newApiKey uuid) :=
    trim_eq_self fun c hc => (mem_sessionCookie hc).2.1
  have hstart : "session=".toList.isPrefixOf (trim (sessionCookie (newApiKey uuid))) := by
    rw [htrim]
    exact List.isPrefixOf_iff_prefix.mpr (List.prefix_append _ _)
  have hdrop : (sessionCookie (newApiKey uuid)).drop 8 = (newApiKey uuid).toList :=
    List.drop_left' (by decide)
  rw [scanCookies, List.splitOn_eq_singleton fun hmem => (mem_sessionCookie hmem).2.2 rfl,
    List.findSome?_singleton, sessionValue, if_pos hstart, htrim, hdrop, String.ofList_toList]

theorem login_eq_ok {users : Users} {apiKey : String} {user : LoginResponse} {cookie : List Char}
    (h : login users true apiKey = some (.ok (user, cookie))) :
    ∃ u, validateApiKey users true apiKey = some (some u) ∧ user = u.loginResponse ∧
      cookie = setCookie apiKey := by
  unfold login at h
  split at h
  · next u hvalid =>
      split at h
      · obtain ⟨rfl, rfl⟩ := Prod.mk.inj (Except.ok.inj (Option.some.inj h))
        exact ⟨u, hvalid, rfl, rfl⟩
      · cases h
  · cases Option.some.inj h
  · cases Option.some.inj h

theorem mem_intercalate {sep : List Char} {c : Char} {ls : List (List Char)}
    (h : c ∈ List.intercalate sep ls) : c ∈ sep ∨ ∃ l ∈ ls, c ∈ l := by
  induction ls with
  | nil => cases h
  | cons l ls ih =>
      cases ls with
      | nil =>
          rw [List.intercalate_singleton] at h
          exact Or.inr ⟨l, List.mem_singleton.mpr rfl, h⟩
      | cons l' ls =>
          rw [List.intercalate_cons_cons, List.mem_append, List.mem_append] at h
          rcases h with (h | h) | h
          · exact Or.inr ⟨l, List.mem_cons_self, h⟩
          · exact Or.inl h
          · exact (ih h).imp_right fun ⟨l₁, hl₁, hc⟩ => ⟨l₁, List.mem_cons_of_mem l hl₁, hc⟩

/-- A stored key is found in the cookie that `login` sets for it, among plain cookies. -/
theorem sessionKey_withCookies {toStr : Bytes → Option (List Char)} (htoStr : ReadsVisible toStr)
    (uuid : Uuid) {before after : List (List Char)} (h : ∀ c ∈ before ++ after, Plain c) :
    (withCookies toStr (before ++ sessionCookie (newApiKey uuid) :: after)).sessionKey =
      some (newApiKey uuid) := by
  have hsep : ("; ".toList.all fun c => decide (Visible c)) = true := by decide +kernel
  have hvisible : ∀ c ∈ List.intercalate "; ".toList
      (before ++ sessionCookie (newApiKey uuid) :: after), Visible c := by
    intro c hc
    rcases mem_intercalate hc with hc | ⟨cookie, hcookie, hc⟩
    · exact of_decide_eq_true (List.all_eq_true.mp hsep c hc)
    · rcases List.mem_append.mp hcookie with hcookie | hcookie
      · exact (h cookie (List.mem_append_left _ hcookie)).visible c hc
      · rcases List.mem_cons.mp hcookie with rfl | hcookie
        · exact (mem_sessionCookie hc).1
        · exact (h cookie (List.mem_append_right _ hcookie)).visible c hc
  rw [withCookies, Request.sessionKey, cookieHeader, Option.join_some,
    htoStr _ hvisible, Option.bind_some, scanCookies_intercalate, List.findSome?_append,
    findSome?_eq_none_of_plain fun c hc => h c (List.mem_append_left _ hc), Option.none_or,
    List.findSome?_cons, scanCookies_sessionCookie]

/-- A cookie that `login` has set gives its user's answer wherever it stands among cookies of
visible characters that hold no session; and without an `Authorization` header `me` answers exactly
the requests that are let through, whatever the cookies are. -/
theorem session_answers {toStr : Bytes → Option (List Char)} (htoStr : ReadsVisible toStr) :
    (∀ calls apiKey user cookie before after,
      login (usersAfter [] calls) true apiKey = some (.ok (user, cookie)) →
      (∀ c ∈ before ++ after, Plain c) →
        authMiddleware (usersAfter [] calls) true
            (withCookies toStr (before ++ cookieOf cookie :: after)) = .ok () ∧
          me (usersAfter [] calls) true
            (withCookies toStr (before ++ cookieOf cookie :: after)) = .ok user) ∧
    ∀ users executed cookie,
      (∃ user, me users executed { authorization := none, cookie := cookie } = .ok user) ↔
        authMiddleware users executed { authorization := none, cookie := cookie } = .ok () := by
  refine ⟨?_, me_iff_forwarded⟩
  intro calls apiKey user cookie before after hlogin hplain
  obtain ⟨u, hvalid, rfl, rfl⟩ := login_eq_ok hlogin
  have hok := usersOk_nil.after calls
  have hfind := hvalid
  rw [hok.validate_eq] at hfind
  obtain ⟨hu, rfl⟩ := of_getUserByApiKey (Option.some.inj hfind)
  obtain ⟨uuid, hkey⟩ := hok.made u hu
  have hnonempty : u.apiKey ≠ "" := by
    intro hempty
    rw [hempty, validateApiKey_empty] at hvalid
    cases Option.some.inj hvalid
  have hsession : (withCookies toStr
      (before ++ cookieOf (setCookie u.apiKey) :: after)).sessionKey = some u.apiKey := by
    rw [hkey, cookieOf_setCookie]
    exact sessionKey_withCookies htoStr uuid hplain
  have hme : me (usersAfter [] calls) true (withCookies toStr
      (before ++ cookieOf (setCookie u.apiKey) :: after)) = .ok u.loginResponse := by
    rw [me, hsession]
    dsimp only
    rw [if_neg hnonempty, hvalid]
  exact ⟨(me_iff_forwarded _ _ _).mp ⟨_, hme⟩, hme⟩

namespace Small

/-- `to_str` takes the bytes of visible characters, and no others. -/
def toStr (value : Bytes) : Option (List Char) :=
  if value.all fun b => (0x20 ≤ b && b < 0x7F) || b == 0x09 then some (Ascii.decode value)
  else none

theorem byte_of_visible {c : Char} (h : Visible c) :
    ((0x20 ≤ c.toUInt8 && c.toUInt8 < 0x7F) || c.toUInt8 == 0x09) = true := by
  have hlt : c.toNat < 128 := by
    unfold Visible at h
    omega
  have hnat := Ascii.toNat_toUInt8 hlt
  simp only [Bool.or_eq_true, Bool.and_eq_true, decide_eq_true_eq, beq_iff_eq,
    UInt8.le_iff_toNat_le, UInt8.lt_iff_toNat_lt, ← UInt8.toNat_inj, hnat]
  exact h

theorem readsVisible_toStr : ReadsVisible toStr := by
  intro text h
  have hascii : Ascii.IsAscii text := by
    intro c hc
    have hvisible := h c hc
    unfold Visible at hvisible
    omega
  have hbytes : utf8 text = Ascii.encode text := Ascii.flatMap_utf8EncodeChar hascii
  have htaken : ((Ascii.encode text).all fun b => (0x20 ≤ b && b < 0x7F) || b == 0x09) = true := by
    rw [Ascii.encode, List.all_map, List.all_eq_true]
    exact fun c hc => byte_of_visible (h c hc)
  rw [toStr, hbytes, if_pos htaken, Ascii.decode_encode hascii]

def ada : UserCall where
  insertion := { id := "1", now := "t", executed := true }
  uuid := nilUuid
  name := "Ada"
  email := ""
  role := "user"

theorem login_ada : login (usersAfter [] [ada]) true (newApiKey nilUuid) =
    some (.ok ({ name := "Ada", role := "user" },
      setCookie (newApiKey nilUuid))) := by
  decide +kernel

theorem plain_theme : Plain "theme=dark".toList := by
  have hvisible : ("theme=dark".toList.all fun c => decide (Visible c)) = true := by
    decide +kernel
  have hother : ("theme=dark".toList.splitOn ';').all
      (fun part => !"session=".toList.isPrefixOf (trim part)) = true := by
    decide +kernel
  refine ⟨fun c hc => of_decide_eq_true (List.all_eq_true.mp hvisible c hc), fun part hpart => ?_⟩
  have h := List.all_eq_true.mp hother part hpart
  intro hprefix
  rw [List.isPrefixOf_iff_prefix.mpr hprefix] at h
  cases h

/-- Behind a plain cookie the session's is found. -/
theorem session_answers_ada :
    me (usersAfter [] [ada]) true (withCookies toStr (["theme=dark".toList] ++
      cookieOf (setCookie (newApiKey nilUuid)) :: [])) =
        .ok { name := "Ada", role := "user" } := by
  have hplain : ∀ c ∈ ["theme=dark".toList] ++ [], Plain c := by
    intro c hc
    obtain rfl := List.mem_singleton.mp hc
    exact plain_theme
  exact ((session_answers readsVisible_toStr).1 [ada] _ _ _ _ _ login_ada hplain).2

/-- A cookie with a letter outside ASCII in front of the session's: nobody is logged in. -/
theorem session_not_answers : ¬ ∀ calls apiKey user cookie before after,
    login (usersAfter [] calls) true apiKey = some (.ok (user, cookie)) →
    (∀ c ∈ before ++ after, ¬ "session=".toList <+: c) →
      authMiddleware (usersAfter [] calls) true
          (withCookies toStr (before ++ cookieOf cookie :: after)) = .ok () ∧
        me (usersAfter [] calls) true
          (withCookies toStr (before ++ cookieOf cookie :: after)) = .ok user := by
  intro h
  have hother : ∀ c ∈ ["a=é".toList] ++ [], ¬ "session=".toList <+: c := by decide +kernel
  have hkey : (withCookies toStr (["a=é".toList] ++
      cookieOf (setCookie (newApiKey nilUuid)) :: [])).sessionKey = none := by
    decide +kernel
  obtain ⟨-, hme⟩ := h [ada] _ _ _ _ _ login_ada hother
  rw [me, hkey] at hme
  cases hme

end Small

end Updown.Web
