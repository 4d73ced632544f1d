import PromptDoc.Yaml.Block
import PromptDoc.Yaml.Token.Basic

/-!
# Block scalars

A block scalar is read in two steps: its lines are cut out of the text, the
indentation removed, and the lines are joined to the scalar's text. A literal
block keeps its line breaks; a folded block turns a line feed between two lines
that do not start with a blank into a space.
-/

namespace PromptDoc.Yaml.Token

/-- A line of a block scalar that is not empty, the line break after it, and
the line breaks of the empty lines that follow. -/
structure BlockLine where
  text : List Char
  ending : List Char
  blank : List Char
deriving DecidableEq

/-- The content of a block scalar: the line breaks before its first line, and
its lines. -/
structure BlockContent where
  leading : List Char
  lines : List BlockLine
deriving DecidableEq

/-- What the header of a block scalar says. -/
structure BlockHeader where
  chomping : Chomping
  /-- The indentation beyond the parent, when it is given. -/
  indent : Option Nat
deriving DecidableEq

def chomping? (c : Char) : Option Chomping :=
  if c = '+' then some .keep else if c = '-' then some .strip else none

/-- An optional digit from one to nine in front of the text; zero is refused. -/
def indentDigit? : List Char → Option (Option Nat × List Char)
  | [] => some (none, [])
  | c :: rest =>
    if c = '0' then none
    else if c.isDigit then some (some (c.toNat - '0'.toNat), rest)
    else some (none, c :: rest)

/-- The indicators in a block scalar's header, in either order. -/
def headerIndicators? : List Char → Option (BlockHeader × List Char)
  | [] => some (⟨.clip, none⟩, [])
  | c :: rest =>
    match chomping? c with
    | some chomping => (indentDigit? rest).map fun (indent, rest) => (⟨chomping, indent⟩, rest)
    | none =>
      match indentDigit? (c :: rest) with
      | none => none
      | some (none, rest) => some (⟨.clip, none⟩, rest)
      | some (some indent, []) => some (⟨.clip, some indent⟩, [])
      | some (some indent, d :: rest) =>
        match chomping? d with
        | some chomping => some (⟨chomping, some indent⟩, rest)
        | none => some (⟨.clip, some indent⟩, d :: rest)

/-- The end of a header line: blanks, a comment and the line break. -/
def headerEnd? (cs : List Char) : Option (List Char) :=
  let rest := cs.dropWhile isBlank
  let rest := match rest with
    | '#' :: _ => rest.dropWhile (!isBreak ·)
    | _ => rest
  match rest with
  | [] => some []
  | c :: rest => if isBreak c then some rest else none

/-- What stands between two lines of a block: the line breaks of empty lines,
the column where something else starts, and the text from there. -/
structure BlankLines where
  breaks : List Char
  column : Nat
  rest : List Char
deriving DecidableEq

/-- Skips empty lines and up to `indent` columns of indentation. A tab may not
stand in place of indentation. -/
def blankLines? (indent : Nat) : (column : Nat) → List Char → Option BlankLines
  | column, [] => some ⟨[], column, []⟩
  | column, c :: rest =>
    if column < indent ∧ c = ' ' then blankLines? indent (column + 1) rest
    else if column < indent ∧ c = '\t' then none
    else if isBreak c then
      (blankLines? indent 0 rest).map fun b => { b with breaks := c :: b.breaks }
    else some ⟨[], column, c :: rest⟩

/-- Skips empty lines and all spaces before the first line of a block, and
finds the widest indentation on the way. -/
def widestIndent? : (column widest : Nat) → List Char → Option (Nat × BlankLines)
  | column, widest, [] => some (max widest column, ⟨[], column, []⟩)
  | column, widest, c :: rest =>
    if c = ' ' then widestIndent? (column + 1) widest rest
    else if c = '\t' then none
    else if isBreak c then
      (widestIndent? 0 (max widest column) rest).map fun (w, b) =>
        (w, { b with breaks := c :: b.breaks })
    else some (max widest column, ⟨[], column, c :: rest⟩)

theorem blankLines?_length {indent column : Nat} {cs : List Char} {b : BlankLines}
    (h : blankLines? indent column cs = some b) : b.rest.length ≤ cs.length := by
  induction cs generalizing column b with
  | nil =>
    simp only [blankLines?, Option.some.injEq] at h
    subst h
    simp
  | cons c rest ih =>
    rw [blankLines?] at h
    split at h
    · exact Nat.le_succ_of_le (ih h)
    split at h
    · cases h
    split at h
    · obtain ⟨b', hb, hb'⟩ := Option.map_eq_some_iff.1 h
      have hlen := ih hb
      subst hb'
      exact Nat.le_succ_of_le hlen
    · simp only [Option.some.injEq] at h
      subst h
      simp

/-- Cuts the lines of a block out of the text, which starts at the block's
column; gives the lines and what stands after them. -/
def blockLines? (indent : Nat) (cs : List Char) : Option (List BlockLine × Position × List Char) :=
  let line := cs.takeWhile (!isBreak ·)
  match _hc : cs.dropWhile (!isBreak ·) with
  | [] => some ([⟨line, [], []⟩], ⟨indent + line.length, 0⟩, [])
  | c :: rest =>
    match _hb : blankLines? indent 0 rest with
    | none => none
    | some ⟨breaks, column, rest'⟩ =>
      let here : BlockLine := ⟨line, [c], breaks⟩
      if column = indent ∧ rest' ≠ [] then
        (blockLines? indent rest').map fun (lines, after) => (here :: lines, after)
      else some ([here], ⟨column, column⟩, rest')
termination_by cs.length
decreasing_by
  have h₁ := blankLines?_length _hb
  have h₂ : (c :: rest).length ≤ cs.length := _hc ▸ (List.dropWhile_suffix _).length_le
  simp only [List.length_cons] at h₂
  simp only at h₁
  omega

/-- The content of a block scalar after its header line. `parent` is the
indentation of the enclosing collection plus one. -/
def blockContent? (parent : Nat) (indent : Option Nat) (cs : List Char) :
    Option (BlockContent × Position × List Char) :=
  let start : Option (Nat × BlankLines) := match indent with
    | some digit => (blankLines? (parent - 1 + digit) 0 cs).map (parent - 1 + digit, ·)
    | none => (widestIndent? 0 0 cs).map fun (widest, b) => (max (max widest parent) 1, b)
  match start with
  | none => none
  | some (column, b) =>
    if b.column = column ∧ b.rest ≠ [] then
      (blockLines? column b.rest).map fun (lines, after) => (⟨b.breaks, lines⟩, after)
    else some (⟨b.breaks, []⟩, ⟨b.column, b.column⟩, b.rest)

/-- What the breaks after the last line come to. -/
def chompText (chomping : Chomping) (ending blank : List Char) : List Char :=
  match chomping with
  | .strip => []
  | .clip => ending
  | .keep => ending ++ blank

def literalLines (chomping : Chomping) : List BlockLine → List Char
  | [] => []
  | [l] => l.text ++ chompText chomping l.ending l.blank
  | l :: m :: rest => l.text ++ (l.ending ++ (l.blank ++ literalLines chomping (m :: rest)))

def startsBlank : List Char → Bool
  | [] => false
  | c :: _ => isBlank c

/-- What stands between two lines of a folded block. -/
def foldBetween (l m : BlockLine) : List Char :=
  if l.ending = ['\n'] ∧ ¬startsBlank l.text ∧ ¬startsBlank m.text then
    if l.blank.isEmpty then [' '] else l.blank
  else l.ending ++ l.blank

def foldedLines (chomping : Chomping) : List BlockLine → List Char
  | [] => []
  | [l] => l.text ++ chompText chomping l.ending l.blank
  | l :: m :: rest => l.text ++ (foldBetween l m ++ foldedLines chomping (m :: rest))

def blockText (folded : Bool) (chomping : Chomping) (content : BlockContent) : List Char :=
  if content.lines.isEmpty then chompText chomping [] content.leading
  else content.leading ++
    if folded then foldedLines chomping content.lines else literalLines chomping content.lines

/-- Reads a block scalar after its indicator. -/
def blockScalar? (folded : Bool) (parent : Nat) (cs : List Char) : Option ScalarResult :=
  match headerIndicators? cs with
  | none => none
  | some (header, rest) =>
    match headerEnd? rest with
    | none => none
    | some rest =>
      (blockContent? parent header.indent rest).map fun (content, position, rest) =>
        ⟨blockText folded header.chomping content, position, rest⟩

end PromptDoc.Yaml.Token
