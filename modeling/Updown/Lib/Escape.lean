import Mathlib.Tactic

set_option autoImplicit false

/-! # Escaping a text

A rule writes a word for a character. Applied one after another (`replaceAll`), rules substitute
every character at once (`encode`) if no rule finds its character in the words of the rules before
it (`replaceAll_eq_encode`). The words of a `Scheme` begin with one escape character and can be told
apart. In an escaped text the special characters are gone, but for the escape characters that begin
the words (`special_encode`, `word_isPrefix_of_encode`), and `decode` reads the text back
(`decode_encode`).
-/

namespace Escape

/-- The word that is written for a character. -/
structure Rule (α : Type*) where
  char : α
  word : List α
  deriving DecidableEq

variable {α : Type*} [DecidableEq α]

/-- Replace every occurrence of the character. -/
def replace (r : Rule α) (l : List α) : List α :=
  l.flatMap fun x => if x = r.char then r.word else [x]

/-- Apply the rules one after another. -/
def replaceAll (rules : List (Rule α)) (l : List α) : List α :=
  rules.foldl (fun l r => replace r l) l

/-- What is written for a character: the word of the first rule for it, or the character. -/
def word (rules : List (Rule α)) (x : α) : List α :=
  match rules.find? fun r => r.char = x with
  | some r => r.word
  | none => [x]

/-- Substitute every character. -/
def encode (rules : List (Rule α)) (l : List α) : List α := l.flatMap (word rules)

/-! ## One replacement after another -/

@[simp] theorem replace_append (r : Rule α) (l l' : List α) :
    replace r (l ++ l') = replace r l ++ replace r l' := List.flatMap_append

/-- A rule that finds nothing changes nothing. -/
theorem replace_of_not_mem {r : Rule α} {l : List α} (h : r.char ∉ l) : replace r l = l := by
  induction l with
  | nil => rfl
  | cons x l ih =>
      rw [List.mem_cons, not_or] at h
      obtain ⟨hx, hl⟩ := h
      have hcons : replace r (x :: l) = (if x = r.char then r.word else [x]) ++ replace r l := rfl
      rw [hcons, if_neg (Ne.symm hx), ih hl, List.singleton_append]

theorem replaceAll_cons (r : Rule α) (rules : List (Rule α)) (l : List α) :
    replaceAll (r :: rules) l = replaceAll rules (replace r l) := rfl

theorem replaceAll_append (rules : List (Rule α)) :
    ∀ l l', replaceAll rules (l ++ l') = replaceAll rules l ++ replaceAll rules l' := by
  induction rules with
  | nil =>
      intro l l'
      rfl
  | cons r rules ih =>
      intro l l'
      simp only [replaceAll_cons, replace_append, ih]

theorem replaceAll_of_not_mem {rules : List (Rule α)} {l : List α}
    (h : ∀ r ∈ rules, r.char ∉ l) : replaceAll rules l = l := by
  induction rules with
  | nil => rfl
  | cons r rules ih =>
      rw [replaceAll_cons, replace_of_not_mem (h r List.mem_cons_self)]
      exact ih fun r' hr' => h r' (List.mem_cons_of_mem r hr')

/-- A character goes through the rules that are not for it, and its word through those after. -/
theorem replaceAll_singleton {rules : List (Rule α)}
    (h : rules.Pairwise fun r r' => r'.char ∉ r.word) (x : α) :
    replaceAll rules [x] = word rules x := by
  induction rules with
  | nil => rfl
  | cons r rules ih =>
      obtain ⟨hr, hrules⟩ := List.pairwise_cons.mp h
      by_cases hx : r.char = x
      · -- the rules after `r` find nothing in its word
        have hreplace : replace r [x] = r.word := by simp [replace, hx]
        rw [replaceAll_cons, hreplace, replaceAll_of_not_mem hr, word,
          List.find?_cons_of_pos (by simpa using hx)]
      · have hreplace : replace r [x] = [x] := by simp [replace, Ne.symm hx]
        rw [replaceAll_cons, hreplace, ih hrules, word, word,
          List.find?_cons_of_neg (by simpa using hx)]

/-- **Rules in order substitute every character at once.** -/
theorem replaceAll_eq_encode {rules : List (Rule α)}
    (h : rules.Pairwise fun r r' => r'.char ∉ r.word) (l : List α) :
    replaceAll rules l = encode rules l := by
  induction l with
  | nil => exact replaceAll_of_not_mem fun r _ => List.not_mem_nil
  | cons x l ih =>
      have hcons : x :: l = [x] ++ l := rfl
      rw [hcons, replaceAll_append, replaceAll_singleton h, ih]
      rfl

/-! ## Reading an escaped text -/

/-- Read a text whose first `skip` characters belong to a word that has been read. -/
def decodeFrom (rules : List (Rule α)) : ℕ → List α → List α
  | _, [] => []
  | skip + 1, _ :: l => decodeFrom rules skip l
  | 0, x :: l =>
      match rules.find? fun r => r.word <+: x :: l with
      | some r => r.char :: decodeFrom rules (r.word.length - 1) l
      | none => x :: decodeFrom rules 0 l

/-- Read words as their characters, and everything else as it is. -/
def decode (rules : List (Rule α)) (l : List α) : List α := decodeFrom rules 0 l

/-- Rules whose words can be read back. -/
structure Scheme (α : Type*) where
  rules : List (Rule α)
  /-- The escape character. -/
  esc : α
  esc_mem : ∃ r ∈ rules, r.char = esc
  ordered : rules.Pairwise fun r r' => r'.char ∉ r.word
  begins : ∀ r ∈ rules, r.word.head? = some esc
  clean : ∀ r ∈ rules, ∀ r' ∈ rules, r'.char ∉ r.word.tail
  prefixFree : ∀ r ∈ rules, ∀ r' ∈ rules, r.word <+: r'.word → r = r'

namespace Scheme

variable {S : Scheme α}

omit [DecidableEq α] in
/-- A word is the escape character and characters that are not special. -/
theorem word_eq {r : Rule α} (hr : r ∈ S.rules) :
    ∃ rest, r.word = S.esc :: rest ∧ ∀ r' ∈ S.rules, r'.char ∉ rest := by
  have hhead := S.begins r hr
  have hclean := S.clean r hr
  cases hword : r.word with
  | nil =>
      rw [hword] at hhead
      cases hhead
  | cons x rest =>
      rw [hword] at hhead hclean
      obtain rfl : x = S.esc := Option.some.inj hhead
      exact ⟨rest, rfl, hclean⟩

/-- What is written for a character is a word, or the character if no rule is for it. -/
theorem word_cases (x : α) :
    (∃ r ∈ S.rules, r.char = x ∧ word S.rules x = r.word) ∨
      (∀ r ∈ S.rules, r.char ≠ x) ∧ word S.rules x = [x] := by
  cases hfind : S.rules.find? fun r => r.char = x with
  | some r =>
      have hx := List.find?_some hfind
      exact Or.inl ⟨r, List.mem_of_find?_eq_some hfind, by simpa using hx, by rw [word, hfind]⟩
  | none =>
      have hnone := List.find?_eq_none.mp hfind
      exact Or.inr ⟨fun r hr => by simpa using hnone r hr, by rw [word, hfind]⟩

/-- **The special characters are gone**, but for the escape character. -/
theorem special_encode {r : Rule α} (hr : r ∈ S.rules) {l : List α}
    (h : r.char ∈ encode S.rules l) : r.char = S.esc := by
  obtain ⟨x, -, hx⟩ := List.mem_flatMap.mp h
  rcases S.word_cases x with ⟨r', hr', -, hword⟩ | ⟨hnone, hword⟩
  · obtain ⟨rest, heq, hrest⟩ := word_eq hr'
    rw [hword, heq] at hx
    rcases List.mem_cons.mp hx with hx | hx
    · exact hx
    · exact absurd hx (hrest r hr)
  · rw [hword, List.mem_singleton] at hx
    exact absurd hx (hnone r hr)

/-- In what is written for a character, the escape character only stands in front. -/
theorem eq_nil_of_word {x : α} {u v : List α} (h : word S.rules x = u ++ S.esc :: v) :
    u = [] ∧ ∃ r ∈ S.rules, r.word = S.esc :: v := by
  obtain ⟨re, hre, hesc⟩ := S.esc_mem
  rcases S.word_cases x with ⟨r, hr, -, hword⟩ | ⟨hnone, hword⟩
  · obtain ⟨rest, heq, hrest⟩ := word_eq hr
    rw [hword] at h
    cases u with
    | nil => exact ⟨rfl, r, hr, h⟩
    | cons y u =>
        rw [heq, List.cons_append] at h
        have hmem : S.esc ∈ rest := by
          rw [(List.cons.inj h).2]
          exact List.mem_append_right u List.mem_cons_self
        rw [← hesc] at hmem
        exact absurd hmem (hrest re hre)
  · -- a character without a rule is not the escape character
    have hmem : S.esc ∈ word S.rules x := by
      rw [h]
      exact List.mem_append_right u List.mem_cons_self
    rw [hword, List.mem_singleton] at hmem
    exact absurd (hesc.trans hmem) (hnone re hre)

/-- **Every escape character begins a word.** -/
theorem word_isPrefix_of_encode {l : List α} :
    ∀ {u v}, encode S.rules l = u ++ S.esc :: v → ∃ r ∈ S.rules, r.word <+: S.esc :: v := by
  induction l with
  | nil =>
      intro u v h
      cases u <;> cases h
  | cons x l ih =>
      intro u v h
      have hcons : encode S.rules (x :: l) = word S.rules x ++ encode S.rules l := rfl
      rw [hcons] at h
      rcases List.append_eq_append_iff.mp h with ⟨w, -, hl⟩ | ⟨w, hword, hv⟩
      · exact ih hl
      · -- the escape character is in what is written for `x`, or right behind it
        cases w with
        | nil => exact ih (u := []) hv.symm
        | cons y w =>
            obtain ⟨rfl, hrest⟩ := List.cons.inj hv
            obtain ⟨-, r, hr, heq⟩ := eq_nil_of_word hword
            refine ⟨r, hr, encode S.rules l, ?_⟩
            rw [heq, hrest]
            rfl

/-! ## Decoding -/

omit [DecidableEq α] in
/-- Two words that begin the same text are one. -/
theorem eq_of_isPrefix {r r' : Rule α} (hr : r ∈ S.rules) (hr' : r' ∈ S.rules) {l : List α}
    (h : r.word <+: l) (h' : r'.word <+: l) : r = r' := by
  rcases List.prefix_or_prefix_of_prefix h h' with hle | hle
  · exact S.prefixFree r hr r' hr' hle
  · exact (S.prefixFree r' hr' r hr hle).symm

theorem decodeFrom_append (rules : List (Rule α)) (l' : List α) :
    ∀ l, decodeFrom rules l.length (l ++ l') = decode rules l' := by
  intro l
  induction l with
  | nil => rfl
  | cons x l ih => exact ih

/-- In front of a word, the decoder finds its rule. -/
theorem find?_word {r : Rule α} (hr : r ∈ S.rules) {l : List α} (h : r.word <+: l) :
    S.rules.find? (fun r' => r'.word <+: l) = some r := by
  cases hfind : S.rules.find? fun r' => r'.word <+: l with
  | none => exact absurd (decide_eq_true h) (List.find?_eq_none.mp hfind r hr)
  | some r' =>
      have hpos := List.find?_some hfind
      rw [eq_of_isPrefix hr (List.mem_of_find?_eq_some hfind) h (of_decide_eq_true hpos)]

/-- A word is read as its character. -/
theorem decode_word_append {r : Rule α} (hr : r ∈ S.rules) (l : List α) :
    decode S.rules (r.word ++ l) = r.char :: decode S.rules l := by
  obtain ⟨rest, heq, -⟩ := word_eq hr
  have hfind := find?_word hr (List.prefix_append r.word l)
  have hlen : r.word.length - 1 = rest.length := by simp [heq]
  rw [heq, List.cons_append] at hfind ⊢
  rw [decode, decodeFrom, hfind]
  dsimp only
  rw [hlen, decodeFrom_append]

/-- A character that is not special is read as it is. -/
theorem decode_cons_of_ne {x : α} (hx : x ≠ S.esc) (l : List α) :
    decode S.rules (x :: l) = x :: decode S.rules l := by
  have hfind : S.rules.find? (fun r => r.word <+: x :: l) = none := by
    rw [List.find?_eq_none]
    intro r hr hprefix
    obtain ⟨rest, heq, -⟩ := word_eq hr
    rw [heq, decide_eq_true_iff, List.cons_prefix_cons] at hprefix
    exact hx hprefix.1.symm
  rw [decode, decodeFrom, hfind]
  rfl

/-- **An escaped text is read back.** -/
theorem decode_encode (S : Scheme α) (l : List α) : decode S.rules (encode S.rules l) = l := by
  induction l with
  | nil => rfl
  | cons x l ih =>
      have hcons : encode S.rules (x :: l) = word S.rules x ++ encode S.rules l := rfl
      rw [hcons]
      rcases S.word_cases x with ⟨r, hr, rfl, hword⟩ | ⟨hnone, hword⟩
      · rw [hword, decode_word_append hr, ih]
      · obtain ⟨re, hre, hesc⟩ := S.esc_mem
        have hx : x ≠ S.esc := fun h => hnone re hre (hesc.trans h.symm)
        rw [hword, List.singleton_append, decode_cons_of_ne hx, ih]

end Scheme

end Escape
