import Mathlib.Data.List.Induction
import Mathlib.Data.Nat.Notation

set_option autoImplicit false

/-! # File paths

Paths separated by `/`, as strings and as lists of components. `parse_push` says that joining the
strings joins the components. `resolve` takes a path to the list of names it stands for, without
looking at the file system: `..` removes a name and stops at the root. `normalForm` is what a
relative path comes to by itself, some directories up and then some names down; `foldl_follow`
applies it to a directory.
-/

namespace FilePath

/-- A name between two separators. -/
abbrev Name := List Char

inductive Component where
  | parentDir
  | normal (name : Name)
  deriving DecidableEq

/-- A path by its components; those that do nothing (`.`, and between two separators) are left
out. -/
structure Path where
  absolute : Bool
  components : List Component
  deriving DecidableEq

/-- What stands between two separators. -/
def segment (s : Name) : Option Component :=
  if s = [] ∨ s = ['.'] then none
  else if s = ['.', '.'] then some .parentDir
  else some (.normal s)

/-- The path of a string. -/
def parse (s : List Char) : Path :=
  { absolute := decide (s.head? = some '/'), components := (s.splitOn '/').filterMap segment }

/-- Append a path to a path; an absolute path replaces it. -/
def push (self path : List Char) : List Char :=
  if path.head? = some '/' then path
  else if self = [] ∨ self.getLast? = some '/' then self ++ path
  else self ++ '/' :: path

namespace Path

/-- The components of `a`, then those of `b`; an absolute path replaces `a`. -/
def join (a b : Path) : Path :=
  if b.absolute then b else { a with components := a.components ++ b.components }

/-- The last component, if it is a name. -/
def fileName (p : Path) : Option Name :=
  match p.components.getLast? with
  | some (.normal n) => some n
  | _ => none

/-- The path without its last component. -/
def pop (p : Path) : Path := { p with components := p.components.dropLast }

/-- Replace the file name, or add one where there is none. -/
def setFileName (p : Path) (name : Name) : Path :=
  (if p.fileName.isSome then p.pop else p).join (parse name)

end Path

/-- **Joining strings joins paths.** -/
theorem parse_push (a b : List Char) : parse (push a b) = (parse a).join (parse b) := by
  unfold push
  by_cases habs : b.head? = some '/'
  · rw [if_pos habs, Path.join, if_pos (by simpa [parse] using habs)]
  · have hb : (parse b).absolute = false := by simpa [parse] using habs
    rw [if_neg habs, Path.join, hb]
    rcases List.eq_nil_or_concat a with rfl | ⟨a', c, hconcat⟩
    · simp [parse, segment, habs]
    · rw [List.concat_eq_append] at hconcat
      subst hconcat
      by_cases hc : c = '/'
      · subst hc
        have hlast : a' ++ ['/'] = [] ∨ (a' ++ ['/']).getLast? = some '/' := by simp
        rw [if_pos hlast]
        have hsplit : (a' ++ ['/'] ++ b).splitOn '/' = a'.splitOn '/' ++ b.splitOn '/' := by
          rw [List.append_assoc, List.singleton_append, List.splitOn_append_cons_self]
        have hsplit' : (a' ++ ['/']).splitOn '/' = a'.splitOn '/' ++ [[]] := by
          rw [List.splitOn_append_cons_self, List.splitOn_nil]
        have hhead : (a' ++ ['/'] ++ b).head? = (a' ++ ['/']).head? := by
          cases a' <;> rfl
        simp only [parse, hsplit, hsplit', hhead, List.filterMap_append]
        simp [segment]
      · have hlast : ¬ (a' ++ [c] = [] ∨ (a' ++ [c]).getLast? = some '/') := by simp [hc]
        rw [if_neg hlast]
        have hsplit : (a' ++ [c] ++ '/' :: b).splitOn '/'
            = (a' ++ [c]).splitOn '/' ++ b.splitOn '/' := by
          rw [List.splitOn_append_cons_self]
        have hhead : (a' ++ [c] ++ '/' :: b).head? = (a' ++ [c]).head? := by
          cases a' <;> rfl
        simp only [parse, hsplit, hhead, List.filterMap_append]
        rfl

/-- What is split at a character does not contain it. -/
theorem not_mem_of_mem_splitOn {c : Char} {s : List Char} :
    ∀ {part : List Char}, part ∈ s.splitOn c → c ∉ part := by
  induction s with
  | nil =>
      intro part h
      rw [List.splitOn_nil, List.mem_singleton] at h
      simp [h]
  | cons x s ih =>
      intro part h
      rw [List.splitOn_cons_eq_if_modifyHead] at h
      by_cases hx : x = c
      · rw [if_pos (by simpa using hx)] at h
        rcases List.mem_cons.mp h with rfl | h
        · simp
        · exact ih h
      · rw [if_neg (by simpa using hx)] at h
        obtain ⟨first, rest, hsplit⟩ := List.exists_cons_of_ne_nil (List.splitOn_ne_nil c s)
        rw [hsplit, List.modifyHead_cons] at h
        rcases List.mem_cons.mp h with rfl | h
        · have hfirst : c ∉ first := ih (by rw [hsplit]; exact List.mem_cons_self)
          simp only [List.mem_cons, not_or]
          exact ⟨Ne.symm hx, hfirst⟩
        · exact ih (by rw [hsplit]; exact List.mem_cons_of_mem _ h)

/-- A string without a separator is one component. -/
theorem parse_name {s : Name} (hsep : '/' ∉ s) :
    parse s = { absolute := false, components := (segment s).toList } := by
  have hhead : s.head? ≠ some '/' := by
    intro h
    exact hsep (List.mem_of_mem_head? h)
  have hsplit : s.splitOn '/' = [s] := List.splitOn_eq_singleton hsep
  rw [parse, hsplit, decide_eq_false hhead]
  cases hseg : segment s <;> simp [hseg]

/-- The name of a file: one component, neither `.` nor `..`. -/
structure IsName (n : Name) : Prop where
  no_sep : '/' ∉ n
  segment_eq : segment n = some (.normal n)

theorem IsName.parse_eq {n : Name} (h : IsName n) :
    parse n = { absolute := false, components := [.normal n] } := by
  rw [parse_name h.no_sep, h.segment_eq]
  rfl

/-- What begins with a name does not begin with a separator. -/
theorem IsName.head?_ne {n : Name} (h : IsName n) (rest : List Char) :
    (n ++ rest).head? ≠ some '/' := by
  cases n with
  | nil =>
      have hseg := h.segment_eq
      cases hseg
  | cons c n =>
      intro hhead
      obtain rfl : c = '/' := Option.some.inj hhead
      exact h.no_sep List.mem_cons_self

theorem filterMap_segment {names : List Name} (h : ∀ n ∈ names, IsName n) :
    names.filterMap segment = names.map Component.normal := by
  induction names with
  | nil => rfl
  | cons n names ih =>
      obtain ⟨hn, hnames⟩ := List.forall_mem_cons.mp h
      rw [List.filterMap_cons_some hn.segment_eq, ih hnames, List.map_cons]

/-- **Names with separators between them** are read back as these names. -/
theorem parse_intercalate {names : List Name} (h : ∀ n ∈ names, IsName n) :
    parse (['/'].intercalate names)
      = { absolute := false, components := names.map Component.normal } := by
  cases names with
  | nil => rfl
  | cons n names =>
      have hsplit : (['/'].intercalate (n :: names)).splitOn '/' = n :: names :=
        List.splitOn_intercalate '/' (fun m hm => (h m hm).no_sep) (List.cons_ne_nil n names)
      have hhead : (['/'].intercalate (n :: names)).head? ≠ some '/' := by
        have hn := h n List.mem_cons_self
        cases names with
        | nil => simpa using hn.head?_ne []
        | cons m names =>
            rw [List.intercalate_cons_cons, List.append_assoc]
            exact hn.head?_ne _
      rw [parse, hsplit, filterMap_segment h, decide_eq_false hhead]

/-- The last component of a path, if it is a name, is the name of a file. -/
theorem isName_of_fileName {s : List Char} {n : Name} (h : (parse s).fileName = some n) :
    IsName n := by
  unfold Path.fileName at h
  split at h
  · next m hm =>
      obtain rfl := Option.some.inj h
      have hmem : Component.normal m ∈ (parse s).components := List.mem_of_getLast? hm
      obtain ⟨part, hpart, hseg⟩ := List.mem_filterMap.mp hmem
      have heq : part = m := by
        unfold segment at hseg
        split at hseg
        · cases hseg
        · split at hseg
          · cases hseg
          · exact Component.normal.inj (Option.some.inj hseg)
      subst heq
      exact ⟨not_mem_of_mem_splitOn hpart, hseg⟩
  · cases h

namespace Path

variable {dir : Path} {n m : Name}

theorem join_name (dir : Path) (h : IsName n) :
    dir.join (parse n) = { dir with components := dir.components ++ [.normal n] } := by
  rw [h.parse_eq]
  rfl

/-- Replacing the file name of a file in a directory. -/
theorem setFileName_join (dir : Path) (h : IsName n) (m : Name) :
    (dir.join (parse n)).setFileName m = dir.join (parse m) := by
  rw [join_name dir h]
  simp [setFileName, fileName, pop]

end Path

/-! ## Resolution -/

/-- Follow one component from a directory. -/
def follow (dir : List Name) : Component → List Name
  | .parentDir => dir.dropLast
  | .normal n => dir ++ [n]

/-- The names a path stands for, in the working directory `cwd`. -/
def resolve (cwd : List Name) (p : Path) : List Name :=
  p.components.foldl follow (if p.absolute then [] else cwd)

theorem resolve_join_name (cwd : List Name) (dir : Path) {n : Name} (h : IsName n) :
    resolve cwd (dir.join (parse n)) = resolve cwd dir ++ [n] := by
  rw [Path.join_name dir h]
  simp [resolve, List.foldl_append, follow]

/-- A relative path by itself: how many directories up, and then which names down. -/
structure NormalForm where
  up : ℕ
  names : List Name
  deriving DecidableEq

/-- Follow one component from a normal form. -/
def NormalForm.follow (f : NormalForm) : Component → NormalForm
  | .parentDir => if f.names = [] then { f with up := f.up + 1 } else
      { f with names := f.names.dropLast }
  | .normal n => { f with names := f.names ++ [n] }

def normalForm (cs : List Component) : NormalForm := cs.foldl NormalForm.follow ⟨0, []⟩

/-- Where a normal form leads from a directory. -/
def NormalForm.apply (f : NormalForm) (dir : List Name) : List Name :=
  dir.take (dir.length - f.up) ++ f.names

/-- Following a component commutes with applying. -/
theorem NormalForm.apply_follow (f : NormalForm) (dir : List Name) (c : Component) :
    (f.follow c).apply dir = FilePath.follow (f.apply dir) c := by
  cases c with
  | normal n => simp [apply, NormalForm.follow, FilePath.follow]
  | parentDir =>
      by_cases hnames : f.names = []
      · have htake : (dir.take (dir.length - f.up)).dropLast
            = dir.take (dir.length - (f.up + 1)) := by
          rw [List.dropLast_eq_take, List.take_take, List.length_take]
          congr 1
          omega
        simp [apply, NormalForm.follow, FilePath.follow, hnames, htake]
      · simp [apply, NormalForm.follow, FilePath.follow, hnames,
          List.dropLast_append_of_ne_nil hnames]

/-- **What a path leads to from a directory is its normal form applied there.** -/
theorem foldl_follow (cs : List Component) (dir : List Name) :
    cs.foldl follow dir = (normalForm cs).apply dir := by
  induction cs using List.reverseRecOn with
  | nil => simp [normalForm, NormalForm.apply]
  | append_singleton cs c ih =>
      calc (cs ++ [c]).foldl follow dir
          = follow (cs.foldl follow dir) c := by rw [List.foldl_append]; rfl
        _ = ((normalForm cs).follow c).apply dir := by rw [ih, NormalForm.apply_follow]
        _ = (normalForm (cs ++ [c])).apply dir := by
              rw [normalForm, normalForm, List.foldl_append]
              rfl

/-- The path stands for something below the directory. -/
def Below (cwd : List Name) (dir p : Path) : Prop :=
  ∃ rest, rest ≠ [] ∧ resolve cwd p = resolve cwd dir ++ rest

/-- The path, followed from the directory `dir`, comes to something below it: a relative path goes
down again by the names it went up, and further; an absolute one starts with the names of `dir`. -/
def Path.StaysBelow (p : Path) (dir : List Name) : Prop :=
  ∃ rest, rest ≠ [] ∧ (normalForm p.components).names
    = (if p.absolute then dir else dir.drop (dir.length - (normalForm p.components).up)) ++ rest

/-- **A joined path is below the directory exactly if what is joined stays below it.** -/
theorem below_join_iff (cwd : List Name) (dir p : Path) :
    Below cwd dir (dir.join p) ↔ p.StaysBelow (resolve cwd dir) := by
  unfold Below Path.StaysBelow
  cases habs : p.absolute with
  | true =>
      have hresolve : resolve cwd (dir.join p) = (normalForm p.components).names := by
        rw [Path.join, if_pos habs, resolve, if_pos habs, foldl_follow, NormalForm.apply]
        simp
      rw [hresolve]
      simp
  | false =>
      have hresolve : resolve cwd (dir.join p) =
          (normalForm p.components).apply (resolve cwd dir) := by
        rw [Path.join, habs]
        simp only [Bool.false_eq_true, if_false, resolve, List.foldl_append]
        exact foldl_follow _ _
      rw [hresolve]
      simp only [Bool.false_eq_true, if_false, NormalForm.apply]
      generalize resolve cwd dir = D
      have hsplit := List.take_append_drop (D.length - (normalForm p.components).up) D
      constructor
      · rintro ⟨rest, hrest, heq⟩
        refine ⟨rest, hrest,
          (List.append_right_inj (D.take (D.length - (normalForm p.components).up))).mp ?_⟩
        rw [heq, ← List.append_assoc, hsplit]
      · rintro ⟨rest, hrest, heq⟩
        refine ⟨rest, hrest, ?_⟩
        rw [heq, ← List.append_assoc, hsplit]

/-- The file name beside a path: a path below the directory has its neighbours below it. -/
theorem below_setFileName (cwd : List Name) {dir p : Path} {name : Name} (h : Below cwd dir p)
    (hname : IsName name) : Below cwd dir (p.setFileName name) := by
  obtain ⟨rest, hrest, heq⟩ := h
  have hset : resolve cwd (p.setFileName name)
      = resolve cwd (if p.fileName.isSome then p.pop else p) ++ [name] :=
    resolve_join_name cwd _ hname
  cases hfile : p.fileName with
  | none =>
      refine ⟨rest ++ [name], by simp, ?_⟩
      rw [hset, hfile]
      simp [heq]
  | some n =>
      refine ⟨rest.dropLast ++ [name], by simp, ?_⟩
      -- the path ends with the name that is replaced
      have hlast : p.components = p.components.dropLast ++ [.normal n] := by
        unfold Path.fileName at hfile
        split at hfile
        · next m hm =>
            obtain rfl := Option.some.inj hfile
            obtain ⟨init, hinit⟩ := List.getLast?_eq_some_iff.mp hm
            rw [hinit, List.dropLast_concat]
        · cases hfile
      have hpop : resolve cwd p = resolve cwd p.pop ++ [n] := by
        rw [resolve, hlast, List.foldl_append]
        rfl
      have hdrop : resolve cwd p.pop = resolve cwd dir ++ rest.dropLast := by
        have := congrArg List.dropLast (hpop.symm.trans heq)
        rwa [List.dropLast_concat, List.dropLast_append_of_ne_nil hrest] at this
      rw [hset, hfile]
      simp [hdrop]

end FilePath
