import PromptDoc.Prompt.Basic
import PromptDoc.Text.Space

/-!
# Templates

A template names its inputs in placeholders: two opening braces, a name and two
closing braces, with white space around the name. Names are opaque; a dot in
one does not mean a part of another. `Consistency.ofTemplate` compares the
placeholders with declared names.
-/

namespace PromptDoc

namespace Template

def isNameChar (c : Char) : Bool :=
  c.isAlphanum || c = '_' || c = '.' || c = '-'

/-- Takes a placeholder from the front of a text: gives the name in it and what
follows. White space, names and braces have no characters in common, so each part
ends where the next one begins. -/
def takePlaceholder? : List Char → Option (List Char × List Char)
  | '\x7b' :: '\x7b' :: rest =>
    takeName? (Text.trimStart rest)
  | _ => none
where
  takeName? (inner : List Char) : Option (List Char × List Char) :=
    match Text.trimStart (inner.dropWhile isNameChar) with
    | '\x7d' :: '\x7d' :: after =>
      if (inner.takeWhile isNameChar).isEmpty then none
      else some (inner.takeWhile isNameChar, after)
    | _ => none

theorem length_lt_of_takePlaceholder? {s name after : List Char}
    (h : takePlaceholder? s = some (name, after)) : after.length < s.length := by
  unfold takePlaceholder? takePlaceholder?.takeName? at h
  split at h
  · next rest =>
    split at h
    · next closing hclosing =>
      obtain ⟨-, heq⟩ := Option.ite_none_left_eq_some.1 h
      obtain ⟨-, rfl⟩ := Prod.mk.inj (Option.some.inj heq)
      have hlength : (Text.trimStart ((Text.trimStart rest).dropWhile isNameChar)).length
          ≤ rest.length :=
        ((List.dropWhile_suffix _).trans
          ((List.dropWhile_suffix _).trans (List.dropWhile_suffix _))).length_le
      rw [hclosing] at hlength
      simp only [List.length_cons] at hlength ⊢
      omega
    · cases h
  · cases h

/-- The names in the placeholders of a text, from the first to the last. Behind a
placeholder the search goes on, so two of them never overlap. -/
def names : List Char → List (List Char)
  | [] => []
  | c :: rest =>
    match h : takePlaceholder? (c :: rest) with
    | some (name, after) =>
      have := length_lt_of_takePlaceholder? h
      name :: names after
    | none => names rest
termination_by s => s.length
decreasing_by
  · exact this
  · exact Nat.lt_succ_self rest.length

end Template

def ascending (names : List String) : List String :=
  names.eraseDups.mergeSort fun a b => decide (a ≤ b)

namespace Template

/-- The different names in a template's placeholders, in ascending order. -/
def placeholders (template : String) : List String :=
  ascending ((names template.toList).map String.ofList)

end Template

/-- What placeholders and declared inputs have each for themselves. -/
structure Consistency where
  /-- Placeholders without an input, ascending. -/
  undeclared : List String
  /-- Inputs without a placeholder, ascending. -/
  unused : List String
deriving DecidableEq

namespace Consistency

/-- Compares a template with names of inputs; empty names do not count. -/
def ofTemplate (template : String) (names : List String) : Consistency :=
  let placeholders := Template.placeholders template
  let declared := names.filter fun n => !n.isEmpty
  ⟨placeholders.filter fun p => !declared.contains p,
    (ascending declared).filter fun n => !placeholders.contains n⟩

def ofPrompt (p : Prompt) : Consistency :=
  ofTemplate p.template p.inputNames

/-- Whether every placeholder is declared and every input is used. -/
def holds (c : Consistency) : Bool :=
  c.undeclared.isEmpty && c.unused.isEmpty

end Consistency

end PromptDoc
