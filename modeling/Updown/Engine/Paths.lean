import Updown.Lib.FilePath

set_option autoImplicit false

/-! # The paths of a transfer

`receive_file` joins the file name of the request to the output directory, `run_serve` does the same
for the delta sync hashes, and `ResumeState::resume_path` puts the resume file beside the output
file. None of them looks at the name: `staysInside_iff` says which names stay in the directory.
-/

namespace Updown

open FilePath

/-- `self.output_dir.join(filename)` in `receive_file`. -/
def outputPath (outputDir filename : String) : Path :=
  parse (push outputDir.toList filename.toList)

/-- `output.join(&filename)` in `run_serve`: the file whose blocks are hashed. -/
def existingPath (output filename : String) : Path :=
  parse (push output.toList filename.toList)

/-- The suffix of resume files. -/
def RESUME_SUFFIX : Name := ".updown-resume".toList

/-- Get the resume file path for a given output file. -/
def resumePath (outputPath : Path) : Path :=
  outputPath.setFileName (outputPath.fileName.getD [] ++ RESUME_SUFFIX)

/-- A resume file's name is a name: it is neither `.` nor `..`. -/
theorem segment_resumeName (name : Name) :
    FilePath.segment (name ++ RESUME_SUFFIX) = some (.normal (name ++ RESUME_SUFFIX)) := by
  have hlen : 14 ≤ (name ++ RESUME_SUFFIX).length := by
    rw [List.length_append]
    exact Nat.le_add_left 14 name.length
  have hne : ∀ s : Name, s.length < 14 → name ++ RESUME_SUFFIX ≠ s := by
    rintro s hs rfl
    omega
  rw [FilePath.segment, if_neg, if_neg (hne _ (by decide))]
  rintro (h | h)
  · exact hne [] (by decide) h
  · exact hne _ (by decide) h

/-- The name of a resume file. -/
theorem isName_resumeName {n : Name} (h : IsName n) : IsName (n ++ RESUME_SUFFIX) := by
  refine ⟨fun hmem => ?_, segment_resumeName n⟩
  rcases List.mem_append.mp hmem with hname | hsuffix
  · exact h.no_sep hname
  · revert hsuffix
    decide

/-- A file name leads to a file directly in the output directory. -/
theorem resolve_outputPath (cwd : List Name) (outputDir : String) {filename : String}
    (h : IsName filename.toList) :
    resolve cwd (outputPath outputDir filename)
      = resolve cwd (parse outputDir.toList) ++ [filename.toList] := by
  rw [outputPath, parse_push]
  exact resolve_join_name cwd _ h

/-- … and its resume file is beside it. -/
theorem resolve_resumePath (cwd : List Name) (outputDir : String) {filename : String}
    (h : IsName filename.toList) :
    resolve cwd (resumePath (outputPath outputDir filename))
      = resolve cwd (parse outputDir.toList) ++ [filename.toList ++ RESUME_SUFFIX] := by
  have hfile : (outputPath outputDir filename).fileName = some filename.toList := by
    rw [outputPath, parse_push, Path.join_name _ h]
    simp [Path.fileName]
  rw [resumePath, hfile, outputPath, parse_push, Path.setFileName_join _ h]
  exact resolve_join_name cwd _ (isName_resumeName h)

/-- All the paths of a transfer lie inside the output directory, after `..` is resolved. -/
structure StaysInside (cwd : List Name) (outputDir filename : String) : Prop where
  opened : Below cwd (parse outputDir.toList) (outputPath outputDir filename)
  hashed : Below cwd (parse outputDir.toList) (existingPath outputDir filename)
  resume : Below cwd (parse outputDir.toList) (resumePath (outputPath outputDir filename))

/-- **The paths of a transfer lie inside the output directory exactly if the file name stays below
it**, wherever the program runs. -/
theorem staysInside_iff (cwd : List Name) (outputDir filename : String) :
    StaysInside cwd outputDir filename ↔
      (parse filename.toList).StaysBelow (resolve cwd (parse outputDir.toList)) := by
  rw [← below_join_iff, ← parse_push]
  constructor
  · exact StaysInside.opened
  · intro hbelow
    refine ⟨hbelow, hbelow, below_setFileName cwd hbelow ?_⟩
    cases hfile : (outputPath outputDir filename).fileName with
    | none => exact ⟨by decide, segment_resumeName _⟩
    | some n => exact isName_resumeName (isName_of_fileName hfile)

/-- **A name that climbs out**: with the output directory `out`, the file name `../x` is opened,
hashed and given a resume file outside it. -/
theorem dotdot_not_staysInside :
    resolve [['h']] (parse "out".toList) = [['h'], ['o', 'u', 't']] ∧
    resolve [['h']] (outputPath "out" "../x") = [['h'], ['x']] ∧
    resolve [['h']] (resumePath (outputPath "out" "../x"))
      = [['h'], 'x' :: RESUME_SUFFIX] ∧
    ¬ StaysInside [['h']] "out" "../x" := by
  have hout : resolve [['h']] (parse "out".toList) = [['h'], ['o', 'u', 't']] := by decide
  have hopened : resolve [['h']] (outputPath "out" "../x") = [['h'], ['x']] := by decide
  refine ⟨hout, hopened, by decide, ?_⟩
  rintro ⟨⟨rest, -, heq⟩, -, -⟩
  rw [hout, hopened] at heq
  exact absurd heq (by simp)

end Updown
