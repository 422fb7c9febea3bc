import Updown.Lib.Escape

set_option autoImplicit false

/-! # The agent's page for deep links

`handle_protocol` of `web/agent.rs` writes the values of a query into a page, after `html_escape`.
The five replacements of `html_escape` find nothing in each other's entities, because the ampersand
is replaced first; so they are one substitution, which can be undone (`htmlEscape_reversible`), and
the markup of the page is the same for every query (`markup_handleProtocol`).
-/

namespace Updown

open Escape (Rule Scheme)

/-- `str::replace` of a character by a string. -/
def replaceChar (pattern : Char) (replacement s : String) : String :=
  String.ofList (Escape.replace ⟨pattern, replacement.toList⟩ s.toList)

/-- Basic HTML entity escaping. -/
def htmlEscape (s : String) : String :=
  -- the ampersand first: the other entities contain it
  s |> replaceChar '&' "&amp;"
    |> replaceChar '<' "&lt;"
    |> replaceChar '>' "&gt;"
    |> replaceChar '"' "&quot;"
    |> replaceChar '\'' "&#x27;"

/-- The entity of a character, or the character. -/
def entity (c : Char) : String :=
  if c = '&' then "&amp;"
  else if c = '<' then "&lt;"
  else if c = '>' then "&gt;"
  else if c = '"' then "&quot;"
  else if c = '\'' then "&#x27;"
  else String.singleton c

def entities : List String := ["&amp;", "&lt;", "&gt;", "&quot;", "&#x27;"]

/-- The replacements of `htmlEscape`, in its order. -/
def htmlRules : List (Rule Char) :=
  [⟨'&', "&amp;".toList⟩, ⟨'<', "&lt;".toList⟩, ⟨'>', "&gt;".toList⟩, ⟨'"', "&quot;".toList⟩,
    ⟨'\'', "&#x27;".toList⟩]

/-- The entities can be told apart, and contain no special character but the ampersand. -/
def htmlScheme : Scheme Char where
  rules := htmlRules
  esc := '&'
  esc_mem := ⟨_, List.mem_cons_self, rfl⟩
  ordered := by decide +kernel
  begins := by decide +kernel
  clean := by decide +kernel
  prefixFree := by decide +kernel

/-- Read the five entities of a text as their characters. -/
def htmlUnescape (s : String) : String := String.ofList (Escape.decode htmlRules s.toList)

/-! ## Escaping -/

theorem chars_htmlRules : htmlRules.map Rule.char = ['&', '<', '>', '"', '\''] := rfl

theorem words_htmlRules : htmlRules.map Rule.word = entities.map String.toList := rfl

/-- The replacements are one substitution. -/
theorem toList_htmlEscape (s : String) :
    (htmlEscape s).toList = Escape.encode htmlRules s.toList := by
  have hrules : Escape.replaceAll htmlRules s.toList = Escape.encode htmlRules s.toList :=
    Escape.replaceAll_eq_encode htmlScheme.ordered s.toList
  rw [← hrules]
  simp only [htmlEscape, replaceChar, String.toList_ofList, htmlRules, Escape.replaceAll,
    List.foldl_cons, List.foldl_nil]

/-- What it substitutes are the entities. -/
theorem word_htmlRules (c : Char) : Escape.word htmlRules c = (entity c).toList := by
  unfold entity
  split_ifs with hamp hlt hgt hquot hapos
  · rw [hamp]
    rfl
  · rw [hlt]
    rfl
  · rw [hgt]
    rfl
  · rw [hquot]
    rfl
  · rw [hapos]
    rfl
  · have hfind : htmlRules.find? (fun r => r.char = c) = none := by
      rw [List.find?_eq_none]
      intro r hr heq
      have hmem : r.char ∈ htmlRules.map Rule.char := List.mem_map_of_mem hr
      rw [chars_htmlRules, of_decide_eq_true heq] at hmem
      simp [hamp, hlt, hgt, hquot, hapos] at hmem
    rw [Escape.word, hfind, String.toList_singleton]

/-- A special character of an escaped text is an ampersand. -/
theorem eq_amp_of_mem_htmlEscape {s : String} {c : Char} (hc : c ∈ ['&', '<', '>', '"', '\''])
    (h : c ∈ (htmlEscape s).toList) : c = '&' := by
  rw [← chars_htmlRules] at hc
  obtain ⟨r, hr, rfl⟩ := List.mem_map.mp hc
  rw [toList_htmlEscape] at h
  exact Scheme.special_encode (S := htmlScheme) hr h

/-- An ampersand of an escaped text begins an entity. -/
theorem entity_of_htmlEscape {s : String} {u v : List Char}
    (h : (htmlEscape s).toList = u ++ '&' :: v) : ∃ e ∈ entities, e.toList <+: '&' :: v := by
  rw [toList_htmlEscape] at h
  obtain ⟨r, hr, hprefix⟩ := Scheme.word_isPrefix_of_encode (S := htmlScheme) h
  have hmem : r.word ∈ htmlRules.map Rule.word := List.mem_map_of_mem hr
  rw [words_htmlRules] at hmem
  obtain ⟨e, he, heq⟩ := List.mem_map.mp hmem
  exact ⟨e, he, by rwa [heq]⟩

theorem htmlUnescape_htmlEscape (s : String) : htmlUnescape (htmlEscape s) = s := by
  rw [htmlUnescape, toList_htmlEscape]
  exact (congrArg String.ofList (htmlScheme.decode_encode s.toList)).trans String.ofList_toList

/-- **HTML escaping is complete and reversible.** -/
theorem htmlEscape_reversible :
    (∀ s, (htmlEscape s).toList = s.toList.flatMap fun c => (entity c).toList) ∧
    (∀ s, '<' ∉ (htmlEscape s).toList ∧ '>' ∉ (htmlEscape s).toList ∧
      '"' ∉ (htmlEscape s).toList ∧ '\'' ∉ (htmlEscape s).toList) ∧
    (∀ s u v, (htmlEscape s).toList = u ++ '&' :: v →
      ∃ e ∈ entities, e.toList <+: '&' :: v) ∧
    (∀ s, htmlUnescape (htmlEscape s) = s) ∧
    Function.Injective htmlEscape := by
  refine ⟨?_, ?_, ?_, htmlUnescape_htmlEscape, ?_⟩
  · intro s
    rw [toList_htmlEscape, Escape.encode]
    exact List.flatMap_congr fun c _ => word_htmlRules c
  · intro s
    refine ⟨?_, ?_, ?_, ?_⟩
    all_goals
      intro h
      have hamp := eq_amp_of_mem_htmlEscape (by simp) h
      revert hamp
      decide
  · intro s u v h
    exact entity_of_htmlEscape h
  · exact Function.LeftInverse.injective htmlUnescape_htmlEscape

/-! ## The page -/

structure ProtocolQuery where
  action : Option String
  code : Option String
  server : Option String

/-- The page up to the first value. -/
def protocolHead : String :=
  "<!DOCTYPE html><html><head><title>updown</title>\n" ++
  "        <style>body \x7b font-family: sans-serif; background: #0a0a0a; color: #fff; " ++
  "display: flex; align-items: center; justify-content: center; height: 100vh; \x7d\n" ++
  "        .card \x7b background: #141414; border: 1px solid #222; border-radius: 16px; " ++
  "padding: 32px; text-align: center; \x7d\n" ++
  "        </style></head><body>\n" ++
  "        <div class=\"card\">\n" ++
  "            <h2>updown agent</h2>\n" ++
  "            <p>Processing "

/-- Handle `updown://` protocol deep links. -/
def handleProtocol (downloadDir : String) (q : ProtocolQuery) : String :=
  let action := q.action.getD ""
  let server := q.server.getD "localhost:8080"
  let code := q.code.getD ""
  let action := htmlEscape action
  let server := htmlEscape server
  let code := htmlEscape code
  protocolHead ++ action ++ " request...</p>\n            <p>Server: " ++ server ++
    "</p>\n            <p>Code: " ++ code ++
    "</p>\n            <p>Files will be saved to: " ++ htmlEscape downloadDir ++
    "</p>\n        </div>\n        </body></html>"

/-- The characters of a page that a browser reads as markup. -/
def markup (page : String) : List Char :=
  page.toList.filter fun c => c = '<' ∨ c = '>' ∨ c = '"' ∨ c = '\''

theorem markup_append (s t : String) : markup (s ++ t) = markup s ++ markup t := by
  rw [markup, String.toList_append, List.filter_append]
  rfl

theorem markup_htmlEscape (s : String) : markup (htmlEscape s) = [] := by
  rw [markup, List.filter_eq_nil_iff]
  intro c hc hmarkup
  have hmem : c ∈ ['&', '<', '>', '"', '\''] := by
    rcases of_decide_eq_true hmarkup with rfl | rfl | rfl | rfl <;> simp
  rw [eq_amp_of_mem_htmlEscape hmem hc] at hmarkup
  exact absurd hmarkup (by decide)

/-- **The markup of the page is the same for every query** and every directory. -/
theorem markup_handleProtocol (dir dir' : String) (q q' : ProtocolQuery) :
    markup (handleProtocol dir q) = markup (handleProtocol dir' q') := by
  simp only [handleProtocol, markup_append, markup_htmlEscape]

end Updown
