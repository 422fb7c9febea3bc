import Mathlib.Data.List.Infix
import Mathlib.Data.List.TakeWhile
import Updown.Lib.FilePath

set_option autoImplicit false

/-! # Names of files from outside

`sanitize_filename` of `web/api.rs` and `sanitize_download_filename` of `web/agent.rs`: a name
without its directories, or none if it is not safe. A name is a list of characters; `utf8` are its
bytes. `sanitized_names` says exactly which names pass, and `sanitizers_agree_iff` for which the two
functions agree.
-/

namespace Updown.Web

open FilePath (Name)

/-- Maximum filename length. -/
def MAX_FILENAME_LEN : ℕ := 255

/-- The bytes of a name. -/
def utf8 (name : Name) : List UInt8 := name.flatMap String.utf8EncodeChar

/-- `str::rsplit_once`: what stands before the last separator, and what stands after it. -/
def rsplitOnce (sep : Char) (name : Name) : Option (Name × Name) :=
  if sep ∈ name then
    some ((name.reverse.dropWhile (· ≠ sep)).tail.reverse,
      (name.reverse.takeWhile (· ≠ sep)).reverse)
  else none

/-- What stands after the last separator, or the whole name. -/
def afterLast (sep : Char) (name : Name) : Name :=
  match rsplitOnce sep name with
  | some (_, file) => file
  | none => name

/-- Sanitize a filename; `none` if it is invalid or dangerous. -/
def sanitizeFilename (name : Name) : Option Name :=
  if name = [] then none
  else
    let name := afterLast '\\' (afterLast '/' name)
    if name = [] then none
    else if name = ['.'] ∨ name = ['.', '.'] ∨ ['.', '.', '/'] <:+: name ∨
        ['.', '.', '\\'] <:+: name then none
    else if name.head? = some '.' then none
    else if MAX_FILENAME_LEN < (utf8 name).length then none
    else if (utf8 name).any fun b => b < 0x20 || b == 0x7F then none
    else if 2 ≤ (utf8 name).length ∧ (utf8 name)[1]? = some 0x3A then none
    else some name

/-- Sanitize a filename received from remote requests. -/
def sanitizeDownloadFilename (name : Name) : Option Name :=
  if name = [] then none
  else
    let name := afterLast '\\' (afterLast '/' name)
    if name = [] ∨ name = ['.'] ∨ name = ['.', '.'] ∨ ['.', '.'] <:+: name then none
    else if name.head? = some '.' then none
    else if 255 < (utf8 name).length then none
    else if (utf8 name).any fun b => b < 0x20 || b == 0x7F then none
    else some name

/-! ## The last component -/

theorem afterLast_eq (sep : Char) (name : Name) :
    afterLast sep name = (name.reverse.takeWhile (· ≠ sep)).reverse := by
  unfold afterLast rsplitOnce
  by_cases hsep : sep ∈ name
  · rw [if_pos hsep]
  · rw [if_neg hsep]
    have hall : ∀ c ∈ name.reverse, decide (c ≠ sep) = true := by
      intro c hc
      have hne : c ≠ sep := fun heq => hsep (heq ▸ List.mem_reverse.mp hc)
      simpa using hne
    rw [List.takeWhile_eq_self_iff.mpr hall, List.reverse_reverse]

/-- **The separator does not stand after its last occurrence.** -/
theorem not_mem_afterLast (sep : Char) (name : Name) : sep ∉ afterLast sep name := by
  rw [afterLast_eq, List.mem_reverse]
  intro hmem
  simpa using List.mem_takeWhile_imp hmem

theorem afterLast_suffix (sep : Char) (name : Name) : afterLast sep name <:+ name := by
  rw [afterLast_eq]
  have h := List.reverse_suffix.mpr (List.takeWhile_prefix (l := name.reverse) (· ≠ sep))
  rwa [List.reverse_reverse] at h

/-- What has no separator is its own last component. -/
theorem afterLast_eq_self {sep : Char} {name : Name} (h : sep ∉ name) :
    afterLast sep name = name := by
  unfold afterLast rsplitOnce
  rw [if_neg h]

/-- A name without its directories. -/
def baseName (name : Name) : Name := afterLast '\\' (afterLast '/' name)

theorem baseName_suffix (name : Name) : baseName name <:+ name :=
  (afterLast_suffix '\\' _).trans (afterLast_suffix '/' name)

theorem slash_not_mem_baseName (name : Name) : '/' ∉ baseName name :=
  fun hmem => not_mem_afterLast '/' name ((afterLast_suffix '\\' _).subset hmem)

theorem backslash_not_mem_baseName (name : Name) : '\\' ∉ baseName name :=
  not_mem_afterLast '\\' _

theorem baseName_baseName (name : Name) : baseName (baseName name) = baseName name := by
  rw [baseName, afterLast_eq_self (slash_not_mem_baseName name),
    afterLast_eq_self (backslash_not_mem_baseName name)]

theorem baseName_ne_nil {name : Name} (h : baseName name ≠ []) : name ≠ [] := by
  intro hnil
  exact h (List.eq_nil_of_suffix_nil (hnil ▸ baseName_suffix name))

/-! ## Safe names -/

/-- What both functions ask of a last component. -/
structure SafeName (name : Name) : Prop where
  nonempty : name ≠ []
  visible : name.head? ≠ some '.'
  short : (utf8 name).length ≤ MAX_FILENAME_LEN
  printable : ∀ b ∈ utf8 name, ¬ (b < 0x20 ∨ b = 0x7F)

/-- `.` and `..` are hidden. -/
theorem SafeName.ne_dots {name : Name} (h : SafeName name) :
    name ≠ ['.'] ∧ name ≠ ['.', '.'] := by
  constructor
  · rintro rfl
    exact h.visible rfl
  · rintro rfl
    exact h.visible rfl

/-- The test of the bytes. -/
theorem any_control_iff (name : Name) :
    ((utf8 name).any fun b => b < 0x20 || b == 0x7F) = true ↔
      ∃ b ∈ utf8 name, b < 0x20 ∨ b = 0x7F := by
  simp

/-- **What `sanitize_filename` lets pass.** -/
theorem sanitizeFilename_eq_some_iff {name safe : Name} :
    sanitizeFilename name = some safe ↔
      safe = baseName name ∧ SafeName safe ∧ (utf8 safe)[1]? ≠ some 0x3A := by
  unfold sanitizeFilename
  dsimp only
  rw [← baseName]
  simp only [Option.ite_none_left_eq_some, any_control_iff]
  constructor
  · rintro ⟨-, hne, -, hvisible, hshort, hcontrol, hdrive, heq⟩
    obtain rfl := Option.some.inj heq
    refine ⟨rfl, ⟨hne, hvisible, Nat.le_of_not_lt hshort, ?_⟩, ?_⟩
    · exact fun b hb hbad => hcontrol ⟨b, hb, hbad⟩
    · intro hcolon
      have hlen : 1 < (utf8 (baseName name)).length := (List.getElem?_eq_some_iff.mp hcolon).1
      exact hdrive ⟨hlen, hcolon⟩
  · rintro ⟨rfl, hsafe, hdrive⟩
    refine ⟨baseName_ne_nil hsafe.nonempty, hsafe.nonempty, ?_, hsafe.visible,
      Nat.not_lt_of_le hsafe.short, ?_, fun h => hdrive h.2, rfl⟩
    -- the last component has no separator, so `../` and `..\` are not in it
    · rintro (hdot | hdots | hslash | hbackslash)
      · exact hsafe.ne_dots.1 hdot
      · exact hsafe.ne_dots.2 hdots
      · exact slash_not_mem_baseName name (hslash.subset (by simp))
      · exact backslash_not_mem_baseName name (hbackslash.subset (by simp))
    · rintro ⟨b, hb, hbad⟩
      exact hsafe.printable b hb hbad

/-- **What `sanitize_download_filename` lets pass.** -/
theorem sanitizeDownloadFilename_eq_some_iff {name safe : Name} :
    sanitizeDownloadFilename name = some safe ↔
      safe = baseName name ∧ SafeName safe ∧ ¬ ['.', '.'] <:+: safe := by
  unfold sanitizeDownloadFilename
  dsimp only
  rw [← baseName]
  simp only [Option.ite_none_left_eq_some, any_control_iff, not_or]
  constructor
  · rintro ⟨-, ⟨hne, -, -, hdots⟩, hvisible, hshort, hcontrol, heq⟩
    obtain rfl := Option.some.inj heq
    refine ⟨rfl, ⟨hne, hvisible, Nat.le_of_not_lt hshort, ?_⟩, hdots⟩
    exact fun b hb hbad => hcontrol ⟨b, hb, hbad⟩
  · rintro ⟨rfl, hsafe, hdots⟩
    obtain ⟨hdot, hdotdot⟩ := hsafe.ne_dots
    refine ⟨baseName_ne_nil hsafe.nonempty, ⟨hsafe.nonempty, hdot, hdotdot, hdots⟩,
      hsafe.visible, Nat.not_lt_of_le hsafe.short, ?_, rfl⟩
    rintro ⟨b, hb, hbad⟩
    exact hsafe.printable b hb hbad

theorem SafeName.isName {name : Name} (h : SafeName name) (hsep : '/' ∉ name) :
    FilePath.IsName name := by
  constructor
  · exact hsep
  · rw [FilePath.segment, if_neg (not_or.mpr ⟨h.nonempty, h.ne_dots.1⟩), if_neg h.ne_dots.2]

/-- What a sanitized name is, whichever function it comes from. -/
structure Sanitized (name safe : Name) : Prop where
  suffix : safe <:+ name
  safeName : SafeName safe
  no_slash : '/' ∉ safe
  no_backslash : '\\' ∉ safe
  /-- Joined to a directory it names a direct child. -/
  child : ∀ (cwd : List Name) (dir : List Char),
    FilePath.resolve cwd (FilePath.parse (FilePath.push dir safe))
      = FilePath.resolve cwd (FilePath.parse dir) ++ [safe]

theorem sanitized_baseName {name : Name} (h : SafeName (baseName name)) :
    Sanitized name (baseName name) := by
  have hslash := slash_not_mem_baseName name
  refine ⟨baseName_suffix name, h, hslash, backslash_not_mem_baseName name, fun cwd dir => ?_⟩
  rw [FilePath.parse_push]
  exact FilePath.resolve_join_name cwd (FilePath.parse dir) (h.isName hslash)

/-- **Sanitized names are safe and stable**, and only names that are not safe are rejected. -/
theorem sanitized_names (name : Name) :
    (∀ safe, sanitizeFilename name = some safe →
      Sanitized name safe ∧ (utf8 safe)[1]? ≠ some 0x3A ∧ sanitizeFilename safe = some safe) ∧
    (sanitizeFilename name = none →
      ¬ SafeName (baseName name) ∨ (utf8 (baseName name))[1]? = some 0x3A) ∧
    (∀ safe, sanitizeDownloadFilename name = some safe →
      Sanitized name safe ∧ sanitizeDownloadFilename safe = some safe) ∧
    (sanitizeDownloadFilename name = none →
      ¬ SafeName (baseName name) ∨ ['.', '.'] <:+: baseName name) := by
  refine ⟨fun safe h => ?_, fun h => ?_, fun safe h => ?_, fun h => ?_⟩
  · obtain ⟨rfl, hsafe, hdrive⟩ := sanitizeFilename_eq_some_iff.mp h
    refine ⟨sanitized_baseName hsafe, hdrive, ?_⟩
    exact sanitizeFilename_eq_some_iff.mpr ⟨(baseName_baseName name).symm, hsafe, hdrive⟩
  · by_contra hok
    obtain ⟨hsafe, hdrive⟩ := not_or.mp hok
    have hsome := sanitizeFilename_eq_some_iff.mpr ⟨rfl, not_not.mp hsafe, hdrive⟩
    cases h.symm.trans hsome
  · obtain ⟨rfl, hsafe, hdots⟩ := sanitizeDownloadFilename_eq_some_iff.mp h
    refine ⟨sanitized_baseName hsafe, ?_⟩
    exact sanitizeDownloadFilename_eq_some_iff.mpr ⟨(baseName_baseName name).symm, hsafe, hdots⟩
  · by_contra hok
    obtain ⟨hsafe, hdots⟩ := not_or.mp hok
    have hsome := sanitizeDownloadFilename_eq_some_iff.mpr ⟨rfl, not_not.mp hsafe, hdots⟩
    cases h.symm.trans hsome

/-- A path of another system, and a name with two dots. -/
theorem sanitized_names_drive :
    (Sanitized "C:\\a/b:\\f.txt".toList "f.txt".toList ∧
      sanitizeFilename "f.txt".toList = some "f.txt".toList) ∧
    (¬ SafeName (baseName "a..b".toList) ∨ ['.', '.'] <:+: baseName "a..b".toList) := by
  have h := (sanitized_names "C:\\a/b:\\f.txt".toList).1 "f.txt".toList (by decide +kernel)
  exact ⟨⟨h.1, h.2.2⟩, (sanitized_names "a..b".toList).2.2.2 (by decide +kernel)⟩

/-! ## Where the two functions differ -/

/-- **When server and agent agree on a name**: its last component is not safe at all, or it has a
colon as its second byte exactly if it has two dots in a row. -/
theorem sanitizers_agree_iff (name : Name) :
    sanitizeFilename name = sanitizeDownloadFilename name ↔
      (SafeName (baseName name) →
        ((utf8 (baseName name))[1]? = some 0x3A ↔ ['.', '.'] <:+: baseName name)) := by
  have hserver : ∀ safe, sanitizeFilename name = some safe ↔
      safe = baseName name ∧ SafeName safe ∧ (utf8 safe)[1]? ≠ some 0x3A :=
    fun _ => sanitizeFilename_eq_some_iff
  have hagent : ∀ safe, sanitizeDownloadFilename name = some safe ↔
      safe = baseName name ∧ SafeName safe ∧ ¬ ['.', '.'] <:+: safe :=
    fun _ => sanitizeDownloadFilename_eq_some_iff
  constructor
  · intro heq hsafe
    -- both let the last component pass or neither does
    have hsame : sanitizeFilename name = some (baseName name) ↔
        sanitizeDownloadFilename name = some (baseName name) := by rw [heq]
    rw [hserver, hagent] at hsame
    simp only [hsafe, true_and] at hsame
    exact not_iff_not.mp hsame
  · intro h
    apply Option.ext
    intro safe
    rw [hserver, hagent]
    constructor
    · rintro ⟨rfl, hsafe, hdrive⟩
      exact ⟨rfl, hsafe, fun hdots => hdrive ((h hsafe).mpr hdots)⟩
    · rintro ⟨rfl, hsafe, hdots⟩
      exact ⟨rfl, hsafe, fun hdrive => hdots ((h hsafe).mp hdrive)⟩

/-- The server stores a name with two dots that the agent refuses, and the agent takes a drive
letter that the server refuses. -/
theorem sanitizers_differ :
    (sanitizeFilename "a..b".toList = some "a..b".toList ∧
      sanitizeDownloadFilename "a..b".toList = none) ∧
    (sanitizeFilename "C:x".toList = none ∧
      sanitizeDownloadFilename "C:x".toList = some "C:x".toList) ∧
    ¬ ∀ name, sanitizeFilename name = sanitizeDownloadFilename name := by
  have hserver : sanitizeFilename "a..b".toList = some "a..b".toList := by decide +kernel
  have hagent : sanitizeDownloadFilename "a..b".toList = none := by decide +kernel
  refine ⟨⟨hserver, hagent⟩, ⟨by decide +kernel, by decide +kernel⟩, fun h => ?_⟩
  cases (hserver.symm.trans (h _)).trans hagent

end Updown.Web
