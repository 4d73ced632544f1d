import PromptDoc.Decimal.Reading
import PromptDoc.Yaml.Token.Basic

/-!
# Anchors, aliases, tags and directives

The names that may stand before the content of a node, and the directives that
may stand before a document. Every reader here takes the text after the opening
indicator and gives what it read and the remaining text; none of them crosses
the end of the line.
-/

namespace PromptDoc.Yaml.Token

/-- Characters that may follow the name of an anchor or alias besides a gap. -/
def endsName : List Char → Bool
  | [] => true
  | c :: rest => atGap (c :: rest) || c ∈ ['?', ':', ',', ']', '\x7d', '%', '@', '\x60']

def anchorName? (cs : List Char) : Option (List Char × List Char) :=
  let name := cs.takeWhile isWordChar
  let rest := cs.dropWhile isWordChar
  if !name.isEmpty && endsName rest then some (name, rest) else none

/-- Characters that may occur in a tag. The ones that end a flow entry occur
only where `full` says so. -/
def isTagChar (full : Bool) (c : Char) : Bool :=
  isWordChar c ||
    c ∈ [';', '/', '?', ':', '@', '&', '=', '+', '$', '.', '%', '!', '~', '*', '\'', '(', ')'] ||
    (full && c ∈ [',', '[', ']'])

def escapedByte? : List Char → Option (Nat × List Char)
  | '%' :: a :: b :: rest => (Digits.read? 16 [a, b]).map (·, rest)
  | _ => none

/-- So many escaped bytes that continue a character's encoding, as the low
part of its code. -/
def continuation? : (count code : Nat) → List Char → Option (Nat × List Char)
  | 0, code, cs => some (code, cs)
  | count + 1, code, cs =>
    match escapedByte? cs with
    | some (b, rest) =>
      if 0x80 ≤ b ∧ b < 0xC0 then continuation? count (code * 64 + (b - 0x80)) rest else none
    | none => none

def escapedTagChar? (cs : List Char) : Option (Char × List Char) :=
  match escapedByte? cs with
  | none => none
  | some (b, rest) =>
    let code? :=
      if b < 0x80 then some (b, rest)
      else if 0xC0 ≤ b ∧ b < 0xE0 then continuation? 1 (b - 0xC0) rest
      else if 0xE0 ≤ b ∧ b < 0xF0 then continuation? 2 (b - 0xE0) rest
      else if 0xF0 ≤ b ∧ b < 0xF8 then continuation? 3 (b - 0xF0) rest
      else none
    match code? with
    | some (code, rest) =>
      if code.isValidChar then some (Char.ofNat code, rest) else none
    | none => none

/-- The text of a tag: the longest run of tag characters, with escapes
replaced. `fuel` bounds its length. -/
def tagText? (full : Bool) : (fuel : Nat) → List Char → Option (List Char × List Char)
  | 0, cs => some ([], cs)
  | _ + 1, [] => some ([], [])
  | fuel + 1, c :: rest =>
    if c = '%' then
      match escapedTagChar? (c :: rest) with
      | some (d, rest) => (tagText? full fuel rest).map fun (text, rest) => (d :: text, rest)
      | none => none
    else if isTagChar full c then
      (tagText? full fuel rest).map fun (text, rest) => (c :: text, rest)
    else some ([], c :: rest)

/-- A handle and a suffix, and the text after them. -/
structure TagResult where
  handle : List Char
  suffix : List Char
  rest : List Char
deriving DecidableEq

/-- A tag that is written out between angle brackets. -/
def verbatimTag? (cs : List Char) : Option TagResult :=
  match tagText? true cs.length cs with
  | some (text, '>' :: rest) => if text.isEmpty then none else some ⟨[], text, rest⟩
  | _ => none

/-- A tag with a handle between exclamation marks, or with the primary handle
alone. The lone exclamation mark is the tag of its own name. -/
def shorthandTag? (cs : List Char) : Option TagResult :=
  let word := cs.takeWhile isWordChar
  match cs.dropWhile isWordChar with
  | '!' :: rest =>
    match tagText? false rest.length rest with
    | some (suffix, rest) =>
      if suffix.isEmpty then none else some ⟨'!' :: (word ++ ['!']), suffix, rest⟩
    | none => none
  | rest =>
    match tagText? false rest.length rest with
    | some (more, rest) =>
      if (word ++ more).isEmpty then some ⟨[], ['!'], rest⟩ else some ⟨['!'], word ++ more, rest⟩
    | none => none

/-- A tag after its exclamation mark. A gap has to follow it, or a comma inside
a flow collection. -/
def tag? (flow : Bool) (cs : List Char) : Option TagResult :=
  let result := match cs with
    | '<' :: rest => verbatimTag? rest
    | cs => shorthandTag? cs
  match result with
  | none => none
  | some r => if atGap r.rest || (flow && r.rest.head? == some ',') then some r else none

/-- A number of at most nine digits. -/
def versionNumber? (cs : List Char) : Option (Nat × List Char) :=
  let digits := cs.takeWhile Char.isDigit
  if digits.isEmpty ∨ 9 < digits.length then none
  else some (Digits.decimal digits, cs.dropWhile Char.isDigit)

/-- The number of a version directive after its name. -/
def versionDirective? (cs : List Char) : Option (Token × List Char) :=
  match versionNumber? (cs.dropWhile isBlank) with
  | some (major, '.' :: rest) =>
    (versionNumber? rest).map fun (minor, rest) => (.versionDirective major minor, rest)
  | _ => none

/-- A handle: an exclamation mark, or a word between two. -/
def tagHandle? : List Char → Option (List Char × List Char)
  | '!' :: cs =>
    let word := cs.takeWhile isWordChar
    match cs.dropWhile isWordChar with
    | '!' :: rest => some ('!' :: (word ++ ['!']), rest)
    | rest => if word.isEmpty then some (['!'], rest) else none
  | _ => none

/-- The handle and the replacement of a tag directive after its name. -/
def tagDirective? (cs : List Char) : Option (Token × List Char) :=
  match tagHandle? (cs.dropWhile isBlank) with
  | some (handle, c :: rest) =>
    if isBlank c then
      let rest := rest.dropWhile isBlank
      match tagText? true rest.length rest with
      | some (text, rest) =>
        if !text.isEmpty && atGap rest then some (.tagDirective handle text, rest) else none
      | none => none
    else none
  | _ => none

/-- A directive after its percent sign. Only blanks and a comment may stand
between it and the end of its line, where the remaining text starts. -/
def directive? (cs : List Char) : Option (Token × List Char) :=
  let name := cs.takeWhile isWordChar
  let rest := cs.dropWhile isWordChar
  if !atGap rest then none
  else
    let result :=
      if name = "YAML".toList then versionDirective? rest
      else if name = "TAG".toList then tagDirective? rest
      else none
    match result with
    | none => none
    | some (token, rest) =>
      let rest := rest.dropWhile isBlank
      let rest := match rest with
        | '#' :: _ => rest.dropWhile (!isBreak ·)
        | _ => rest
      match rest with
      | [] => some (token, [])
      | c :: _ => if isBreak c then some (token, rest) else none

end PromptDoc.Yaml.Token
