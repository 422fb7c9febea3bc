import Updown.Lib.Transition
import Updown.Web.Db

set_option autoImplicit false

/-! # Users, and the admin that a start of the server creates

`create_user` and `get_user_by_api_key` (`web/db.rs`), and what `start_server` (`web/mod.rs`) does
with them: it looks for a user with the key "upd_admin" and creates an admin if there is none. A
key is "upd_" and the 32 hexadecimal digits of a UUID, so nobody has that key
(`getUserByApiKey_admin`), and every start goes on to create an admin.
-/

namespace Updown.Web

structure User where
  id : String
  name : String
  email : String
  apiKey : String
  /-- "admin" or "user". -/
  role : String
  createdAt : String
  deriving DecidableEq

/-! ## Keys -/

def HEX_DIGITS : List Char := "0123456789abcdef".toList

/-- What `Uuid::new_v4().to_string()` may return: 32 lower case hexadecimal digits, in groups that
dashes keep apart. -/
structure Uuid where
  text : String
  digits : ∀ c ∈ text.toList, c ≠ '-' → c ∈ HEX_DIGITS
  length_digits : (text.toList.filter (· ≠ '-')).length = 32

/-- The digits of a UUID: `uuid.to_string().replace('-', "")`. -/
def Uuid.simple (uuid : Uuid) : List Char := uuid.text.toList.filter (· ≠ '-')

theorem Uuid.mem_simple {uuid : Uuid} {c : Char} (h : c ∈ uuid.simple) : c ∈ HEX_DIGITS := by
  obtain ⟨hmem, hdash⟩ := List.mem_filter.mp h
  exact uuid.digits c hmem (of_decide_eq_true hdash)

/-- The key made of a new UUID: `format!("upd_{}", …)` of its digits. -/
def newApiKey (uuid : Uuid) : String := String.ofList ("upd_".toList ++ uuid.simple)

theorem toList_newApiKey (uuid : Uuid) :
    (newApiKey uuid).toList = "upd_".toList ++ uuid.simple := String.toList_ofList

/-! ## The table -/

/-- The `users` table. -/
abbrev Users := List User

def createUser (users : Users) (i : Insertion) (uuid : Uuid)
    (name email role : String) : Option (Users × User) :=
  let row : User :=
    { id := i.id, name := name, email := email, apiKey := newApiKey uuid, role := role,
      createdAt := i.now }
  if i.executed then
    (Database.insert (fun a b => a.id == b.id || a.apiKey == b.apiKey) users row).map fun rows =>
      (rows, row)
  else none

def getUserByApiKey (users : Users) (apiKey : String) : Option User :=
  users.find? fun user => user.apiKey == apiKey

/-- The table holds an admin. -/
def hasAdmin (users : Users) : Bool := users.any fun user => user.role == "admin"

/-! ## Starts of the server -/

/-- How far a run of `start_server` is. -/
inductive Phase where
  | idle
  /-- It has looked for the key "upd_admin" and found nobody. -/
  | checked
  | ended
  deriving DecidableEq

/-- The table, the runs of `start_server`, and two records that no step reads: which runs looked
while there was an admin, and which rows the runs have inserted. -/
structure ServerState where
  users : Users
  phase : ℕ → Phase
  sawAdmin : ℕ → Bool
  created : List (ℕ × User)

inductive UserEvent where
  /-- Run `p` looks for the key "upd_admin"; it panics if the lookup fails. -/
  | lookup (p : ℕ) (executed : Bool)
  /-- Run `p` creates an admin; it ends with an error if it cannot. -/
  | insertAdmin (p : ℕ) (i : Insertion) (uuid : Uuid)
  /-- A call of `create_user` from anywhere else. -/
  | createUser (i : Insertion) (uuid : Uuid) (name email role : String)

namespace ServerState

/-- A new storage directory. -/
def start : ServerState :=
  { users := [], phase := fun _ => .idle, sawAdmin := fun _ => false, created := [] }

def setPhase (s : ServerState) (p : ℕ) (phase : Phase) : ServerState :=
  { s with phase := Function.update s.phase p phase }

def step (s : ServerState) : UserEvent → Option ServerState
  | .lookup p executed =>
      if s.phase p = .idle then
        some (if executed = false ∨ (getUserByApiKey s.users "upd_admin").isSome then
            s.setPhase p .ended
          else
            { s.setPhase p .checked with
              sawAdmin := Function.update s.sawAdmin p (hasAdmin s.users) })
      else none
  | .insertAdmin p i uuid =>
      if s.phase p = .checked then
        match Web.createUser s.users i uuid "admin" "admin@localhost" "admin" with
        | some (users, row) =>
            some { s.setPhase p .ended with users := users, created := s.created ++ [(p, row)] }
        | none => some (s.setPhase p .ended)
      else none
  | .createUser i uuid name email role =>
      match Web.createUser s.users i uuid name email role with
      | some (users, _) => some { s with users := users }
      | none => some s

/-- At most one admin was created by `start_server`, and none by a run that looked while there was
one. -/
structure Idempotent (s : ServerState) : Prop where
  created_le : s.created.length ≤ 1
  unseen : ∀ c ∈ s.created, s.sawAdmin c.1 = false

/-- A run looks for the key only when there is no admin and no other run is about to create
one. -/
def LooksFirst (s : ServerState) : UserEvent → Prop
  | .lookup _ _ => hasAdmin s.users = false ∧ ∀ q, s.phase q ≠ .checked
  | _ => True

end ServerState

/-! ## Nobody has the key "upd_admin" -/

theorem createUser_eq_some {users users' : Users} {i : Insertion} {uuid : Uuid}
    {name email role : String} {row : User}
    (h : createUser users i uuid name email role = some (users', row)) :
    users' = users ++ [row] ∧ row.apiKey = newApiKey uuid ∧ row.role = role := by
  unfold createUser Database.insert at h
  dsimp only at h
  split at h
  · split at h
    · cases h
    · obtain ⟨rfl, rfl⟩ := Prod.mk.inj (Option.some.inj h)
      exact ⟨rfl, rfl, rfl⟩
  · cases h

/-- **No key is "upd_admin"**: an `m` is not a hexadecimal digit. -/
theorem newApiKey_ne_admin (uuid : Uuid) : newApiKey uuid ≠ "upd_admin" := by
  intro h
  have hlist := calc
    "upd_".toList ++ uuid.simple = (newApiKey uuid).toList := (toList_newApiKey uuid).symm
    _ = "upd_admin".toList := congrArg String.toList h
    _ = "upd_".toList ++ "admin".toList := by decide
  have hm : 'm' ∈ uuid.simple := by
    rw [List.append_cancel_left hlist]
    decide
  exact absurd (Uuid.mem_simple hm) (by decide)

namespace ServerState

/-! ## What a step does -/

/-- What an event does to the state. -/
inductive StepCases (s : ServerState) : UserEvent → ServerState → Prop
  | lookupEnds {p : ℕ} {executed : Bool} (hidle : s.phase p = .idle)
      (hends : executed = false ∨ (getUserByApiKey s.users "upd_admin").isSome) :
      StepCases s (.lookup p executed) (s.setPhase p .ended)
  | lookupFinds {p : ℕ} (hidle : s.phase p = .idle) :
      StepCases s (.lookup p true)
        { s.setPhase p .checked with
          sawAdmin := Function.update s.sawAdmin p (hasAdmin s.users) }
  | inserted {p : ℕ} {i : Insertion} {uuid : Uuid} {row : User}
      (hchecked : s.phase p = .checked) (hkey : row.apiKey = newApiKey uuid)
      (hrole : row.role = "admin") :
      StepCases s (.insertAdmin p i uuid)
        { s.setPhase p .ended with users := s.users ++ [row], created := s.created ++ [(p, row)] }
  | insertFails {p : ℕ} {i : Insertion} {uuid : Uuid}
      (hchecked : s.phase p = .checked) :
      StepCases s (.insertAdmin p i uuid) (s.setPhase p .ended)
  | user {i : Insertion} {uuid : Uuid} {name email role : String} {row : User}
      (hkey : row.apiKey = newApiKey uuid) :
      StepCases s (.createUser i uuid name email role) { s with users := s.users ++ [row] }
  | userFails {i : Insertion} {uuid : Uuid} {name email role : String} :
      StepCases s (.createUser i uuid name email role) s

theorem step_cases {s s' : ServerState} {e : UserEvent} (h : s.step e = some s') :
    StepCases s e s' := by
  cases e with
  | lookup p executed =>
      simp only [step] at h
      split at h
      · next hidle =>
          obtain rfl := Option.some.inj h
          by_cases hends : executed = false ∨ (getUserByApiKey s.users "upd_admin").isSome
          · rw [if_pos hends]
            exact .lookupEnds hidle hends
          · rw [if_neg hends]
            obtain rfl : executed = true := by
              cases executed with
              | true => rfl
              | false => exact absurd (Or.inl rfl) hends
            exact .lookupFinds hidle
      · cases h
  | insertAdmin p i uuid =>
      simp only [step] at h
      split at h
      · next hchecked =>
          split at h
          · next users row hcreate =>
              obtain rfl := Option.some.inj h
              obtain ⟨rfl, hkey, hrole⟩ := createUser_eq_some hcreate
              exact .inserted hchecked hkey hrole
          · obtain rfl := Option.some.inj h
            exact .insertFails hchecked
      · cases h
  | createUser i uuid name email role =>
      simp only [step] at h
      split at h
      · next users row hcreate =>
          obtain rfl := Option.some.inj h
          obtain ⟨rfl, hkey, -⟩ := createUser_eq_some hcreate
          exact .user hkey
      · obtain rfl := Option.some.inj h
        exact .userFails

/-- All keys were made by `create_user`. -/
def KeysMade (s : ServerState) : Prop := ∀ u ∈ s.users, ∃ uuid, u.apiKey = newApiKey uuid

theorem KeysMade.append {s : ServerState} {row : User} (h : s.KeysMade)
    {uuid : Uuid} (hkey : row.apiKey = newApiKey uuid) :
    ∀ u ∈ s.users ++ [row], ∃ uuid, u.apiKey = newApiKey uuid := by
  exact List.forall_mem_append.mpr ⟨h, List.forall_mem_singleton.mpr ⟨uuid, hkey⟩⟩

theorem KeysMade.step {s s' : ServerState} {e : UserEvent} (h : s.KeysMade)
    (hs : s.step e = some s') : s'.KeysMade := by
  cases step_cases hs with
  | inserted _ hkey => exact h.append hkey
  | user hkey => exact h.append hkey
  | lookupEnds | lookupFinds | insertFails | userFails => exact h

theorem keysMade_of_reaches {P : ServerState → UserEvent → Prop} {s : ServerState}
    (h : Transition.Reaches step P start s) : s.KeysMade :=
  h.invariant (fun _ hu => absurd hu List.not_mem_nil) fun _ _ _ hkeys _ hs => hkeys.step hs

/-- **A start never finds the admin it looks for.** -/
theorem getUserByApiKey_admin {P : ServerState → UserEvent → Prop} {s : ServerState}
    (h : Transition.Reaches step P start s) : getUserByApiKey s.users "upd_admin" = none := by
  rw [getUserByApiKey, List.find?_eq_none]
  intro u hu heq
  obtain ⟨uuid, hkey⟩ := keysMade_of_reaches h u hu
  exact newApiKey_ne_admin uuid (hkey.symm.trans (beq_iff_eq.mp heq))

/-! ## Starts that look first -/

/-- The invariant of runs in which starts look first: a run that is about to create an admin is the
only one, and there was none. -/
structure Alone (s : ServerState) : Prop where
  created_cases : s.created = [] ∨ s.created.length = 1 ∧ hasAdmin s.users = true
  unseen : ∀ c ∈ s.created, s.sawAdmin c.1 = false ∧ s.phase c.1 = .ended
  checked : ∀ p, s.phase p = .checked →
    s.created = [] ∧ s.sawAdmin p = false ∧ ∀ q, s.phase q = .checked → q = p

theorem hasAdmin_append {users : Users} (row : User) (h : hasAdmin users = true) :
    hasAdmin (users ++ [row]) = true := by
  rw [hasAdmin, List.any_append, ← hasAdmin, h, Bool.true_or]

theorem Alone.setPhase_ended {s : ServerState} (h : s.Alone) (p : ℕ) :
    (s.setPhase p .ended).Alone := by
  have hother : ∀ q, (s.setPhase p .ended).phase q = .checked → s.phase q = .checked := by
    intro q hq
    by_cases hqp : q = p
    · simp [setPhase, hqp] at hq
    · simpa [setPhase, hqp] using hq
  refine ⟨h.created_cases, fun c hc => ⟨(h.unseen c hc).1, ?_⟩, fun q hq => ?_⟩
  · by_cases hcp : c.1 = p
    · simp [setPhase, hcp]
    · simpa [setPhase, hcp] using (h.unseen c hc).2
  · obtain ⟨hnone, hsaw, honly⟩ := h.checked q (hother q hq)
    exact ⟨hnone, hsaw, fun r hr => honly r (hother r hr)⟩

theorem Alone.step {s s' : ServerState} {e : UserEvent} (h : s.Alone) (hP : LooksFirst s e)
    (hs : s.step e = some s') : s'.Alone := by
  cases step_cases hs with
  | lookupEnds => exact h.setPhase_ended _
  | insertFails => exact h.setPhase_ended _
  | userFails => exact h
  | user =>
      refine ⟨h.created_cases.imp_right fun hone => ⟨hone.1, hasAdmin_append _ hone.2⟩,
        h.unseen, h.checked⟩
  | @lookupFinds p hidle =>
      obtain ⟨hnobody, hquiet⟩ := hP
      -- there is no admin, so none was created
      have hnone : s.created = [] := by
        rcases h.created_cases with hnone | ⟨-, hadmin⟩
        · exact hnone
        · rw [hnobody] at hadmin
          cases hadmin
      refine ⟨Or.inl hnone, fun c hc => ?_, fun q hq => ?_⟩
      · exact absurd hc (by simp [setPhase, hnone])
      · have honly : ∀ r, (s.setPhase p .checked).phase r = .checked → r = p := by
          intro r hr
          by_contra hrp
          exact hquiet r (by simpa [setPhase, hrp] using hr)
        obtain rfl := honly q hq
        exact ⟨hnone, by simpa using hnobody, honly⟩
  | @inserted p i uuid row hchecked hkey hrole =>
      obtain ⟨hnone, hsaw, honly⟩ := h.checked p hchecked
      refine ⟨Or.inr ⟨?_, ?_⟩, fun c hc => ?_, fun q hq => ?_⟩
      · simp [hnone]
      · simp [hasAdmin, hrole]
      · obtain rfl : c = (p, row) := by simpa [hnone] using hc
        exact ⟨hsaw, by simp [setPhase]⟩
      · -- the run was the only one, and has ended
        by_cases hqp : q = p
        · simp [setPhase, hqp] at hq
        · exact absurd (honly q (by simpa [setPhase, hqp] using hq)) hqp

/-- **When starts are idempotent**: in every run in which starts look only while there is no admin
and no other start is under way; and a start that looks while there is an admin breaks it, once its
insertion goes through. -/
theorem starts_idempotent (s : ServerState) :
    (Transition.Reaches step LooksFirst start s → s.Idempotent) ∧
    ∀ s₁ s₂ p i uuid, Transition.Reaches step (fun _ _ => True) start s →
      hasAdmin s.users = true → s.step (.lookup p true) = some s₁ →
      s₁.step (.insertAdmin p i uuid) = some s₂ → s₂.users ≠ s.users → ¬ s₂.Idempotent := by
  constructor
  · intro h
    have halone : s.Alone := by
      refine h.invariant ⟨Or.inl rfl, ?_, ?_⟩ fun _ _ _ halone hP hs => halone.step hP hs
      · intro c hc
        exact absurd hc List.not_mem_nil
      · intro p hp
        cases hp
    refine ⟨?_, fun c hc => (halone.unseen c hc).1⟩
    rcases halone.created_cases with hnone | ⟨hone, -⟩
    · simp [hnone]
    · exact Nat.le_of_eq hone
  · intro s₁ s₂ p i uuid h hadmin hlookup hinsert hnew hidem
    have hsaw : s₁.users = s.users ∧ s₁.sawAdmin p = true := by
      cases step_cases hlookup with
      | lookupEnds _ hends => simp [getUserByApiKey_admin h] at hends
      | lookupFinds => simp [setPhase, hadmin]
    cases step_cases hinsert with
    | insertFails => exact hnew hsaw.1
    | @inserted _ _ _ row =>
        have hunseen := hidem.unseen (p, row) (by simp)
        rw [show s₁.sawAdmin p = false from hunseen] at hsaw
        cases hsaw.2

end ServerState

namespace Small

theorem digits_of_all {text : String}
    (h : (text.toList.all fun c => c == '-' || HEX_DIGITS.contains c) = true) :
    ∀ c ∈ text.toList, c ≠ '-' → c ∈ HEX_DIGITS := by
  intro c hc hdash
  rcases Bool.or_eq_true_iff.mp (List.all_eq_true.mp h c hc) with heq | hmem
  · exact absurd (beq_iff_eq.mp heq) hdash
  · exact List.contains_iff_mem.mp hmem

/-- A version 4 UUID without random bits. -/
def nilUuid : Uuid where
  text := "00000000-0000-4000-8000-000000000000"
  digits := digits_of_all (by decide +kernel)
  length_digits := by decide +kernel

def oneUuid : Uuid where
  text := "01010101-0101-4101-8101-010101010101"
  digits := digits_of_all (by decide +kernel)
  length_digits := by decide +kernel

/-- Two starts, one after the other, of a server with a new storage directory. -/
def twoStarts : List UserEvent :=
  [.lookup 0 true,
    .insertAdmin 0 { id := "a", now := "t", executed := true } nilUuid,
    .lookup 1 true,
    .insertAdmin 1 { id := "b", now := "u", executed := true } oneUuid]

/-- One start may be all there is, and the second of two is one too many. -/
theorem starts_idempotent_twoStarts :
    (∃ s : ServerState, s.created.length = 1 ∧ s.Idempotent) ∧
      ∃ s : ServerState, s.created.length = 2 ∧ ¬ s.Idempotent := by
  constructor
  · obtain ⟨s, hs, hcheck⟩ := Transition.exists_of_runAll ServerState.step ServerState.start
      (twoStarts.take 2) (fun s => s.created.length == 1) (by decide +kernel)
    have halong : Transition.AllowedAlong ServerState.step ServerState.LooksFirst
        ServerState.start (twoStarts.take 2) := by
      exact ⟨⟨rfl, fun q hq => nomatch hq⟩, fun s' _ => ⟨trivial, fun _ _ => trivial⟩⟩
    exact ⟨s, beq_iff_eq.mp hcheck,
      (ServerState.starts_idempotent s).1 (.of_runAll hs halong)⟩
  · obtain ⟨s, hs, hcheck⟩ := Transition.exists_of_runAll ServerState.step ServerState.start
      (twoStarts.take 2) (fun s => hasAdmin s.users && (Transition.runAll ServerState.step s
        (twoStarts.drop 2)).any fun t => t.created.length == 2 && t.users.length != s.users.length)
      (by decide +kernel)
    obtain ⟨hadmin, hrest⟩ := Bool.and_eq_true_iff.mp hcheck
    obtain ⟨t, ht, hcreated⟩ := (Option.any_eq_true _ _).mp hrest
    obtain ⟨htwo, hnew⟩ := Bool.and_eq_true_iff.mp hcreated
    obtain ⟨s₁, hlookup, hinsert⟩ := Option.bind_eq_some_iff.mp ht
    rw [Transition.runAll_singleton] at hinsert
    refine ⟨t, beq_iff_eq.mp htwo, ?_⟩
    refine (ServerState.starts_idempotent s).2 s₁ t _ _ _
      (.of_runAll hs (Transition.allowedAlong_of_forall fun _ _ _ => trivial)) hadmin hlookup
      hinsert fun heq => ?_
    exact bne_iff_ne.mp hnew (congrArg List.length heq)

/-- **The second start creates a second admin**, although it looked while there was one. -/
theorem starts_twice :
    ∃ s, Transition.Reaches ServerState.step (fun _ _ => True) ServerState.start s ∧
      s.created.length = 2 ∧ s.sawAdmin 1 = true := by
  obtain ⟨s, hs, hcheck⟩ := Transition.exists_of_runAll ServerState.step ServerState.start
    twoStarts (fun s => s.created.length == 2 && s.sawAdmin 1) (by decide +kernel)
  rw [Bool.and_eq_true, beq_iff_eq] at hcheck
  exact ⟨s, .of_runAll hs (Transition.allowedAlong_of_forall fun _ _ _ => trivial), hcheck⟩

end Small

end Updown.Web
