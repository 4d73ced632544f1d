import PromptDoc.Yaml.Token.Block
import PromptDoc.Yaml.Token.Plain
import PromptDoc.Yaml.Token.Property

/-!
# Cutting a text into tokens

Whether a scalar or a flow collection is a mapping key shows only at the colon
after it, so the lexer remembers for every level of flow collections where a
key may have begun and keeps the tokens since then apart (`Pending`). A colon
puts the `key` token between the two parts. A possible key ends with its line
and is at most 1024 bytes long; one that starts at the column of its block
mapping has to become a key.

`indents` holds the columns of the open block collections, innermost first.
-/

namespace PromptDoc.Yaml.Token

/-- Where a key may have begun. -/
structure KeyStart where
  position : Position
  /-- Nothing else than a key may stand here. -/
  required : Bool
deriving DecidableEq

/-- The tokens of one level of flow collections, newest first: those before the
place where a key may have begun, and those after it. -/
structure Pending where
  settled : List Token
  start : Option KeyStart
  since : List Token
deriving DecidableEq

namespace Pending

def empty : Pending := ⟨[], none, []⟩

/-- All tokens, newest first. -/
def all (f : Pending) : List Token :=
  f.since ++ f.settled

def push (f : Pending) (t : Token) : Pending :=
  match f.start with
  | none => { f with settled := t :: f.settled }
  | some _ => { f with since := t :: f.since }

/-- More tokens, newest first. -/
def pushAll (f : Pending) (ts : List Token) : Pending :=
  match f.start with
  | none => { f with settled := ts ++ f.settled }
  | some _ => { f with since := ts ++ f.since }

/-- Gives up the possible key; none if it is required. -/
def settle? (f : Pending) : Option Pending :=
  match f.start with
  | none => some f
  | some k => if k.required then none else some ⟨f.all, none, []⟩

end Pending

/-- The greatest number of bytes between the start of an implicit key and its
colon. -/
def keyByteLimit : Nat := 1024

/-- The state of the lexer between two tokens. -/
structure Lexer where
  /-- Columns of the open block collections, innermost first. -/
  indents : List Nat
  /-- Whether a key may start here. -/
  keyAllowed : Bool
  /-- The tokens of the innermost flow collection, or of the block level. -/
  pending : Pending
  /-- The tokens of the levels around it, innermost first. -/
  outer : List Pending
  position : Position
deriving DecidableEq

namespace Lexer

def initial : Lexer := ⟨[], true, .empty, [], .lineStart⟩

def inFlow (s : Lexer) : Bool :=
  !s.outer.isEmpty

/-- The column of the innermost block collection plus one; zero outside all. -/
def parent (s : Lexer) : Nat :=
  match s.indents with
  | [] => 0
  | n :: _ => n + 1

def push (s : Lexer) (t : Token) : Lexer :=
  { s with pending := s.pending.push t }

def skip (s : Lexer) (cs : List Char) : Lexer :=
  { s with position := s.position.after cs }

/-- Sets whether a key may start next. -/
def allowKey (s : Lexer) (allowed : Bool) : Lexer :=
  { s with keyAllowed := allowed }

def settle? (s : Lexer) : Option Lexer :=
  s.pending.settle?.map fun f => { s with pending := f }

def endLine? (s : Lexer) : Option Lexer :=
  match s.pending.settle?, s.outer.mapM Pending.settle? with
  | some f, some outer => some { s with pending := f, outer := outer }
  | _, _ => none

/-- Notes that a key may begin here. -/
def markKey? (s : Lexer) : Option Lexer :=
  if s.keyAllowed then
    s.settle?.map fun s =>
      let required := !s.inFlow && s.parent == s.position.column + 1
      { s with pending := { s.pending with start := some ⟨s.position, required⟩ } }
  else some s

/-- Closes the block collections to the right of a column. -/
def unindent (s : Lexer) (closes : Nat → Bool) : Lexer :=
  if s.inFlow then s
  else
    { s with
      indents := s.indents.dropWhile closes
      pending := s.pending.pushAll ((s.indents.takeWhile closes).map fun _ => .blockEnd) }

/-- Opens a block collection with the given token unless one is open at this
column already. -/
def indent (s : Lexer) (t : Token) : Lexer :=
  if !s.inFlow && s.parent ≤ s.position.column then
    { s.push t with indents := s.position.column :: s.indents }
  else s

/-- What skipping blanks, comments and line breaks comes to. -/
structure Skipped where
  keyAllowed : Bool
  /-- Whether a line ended. -/
  newLine : Bool
  position : Position
  rest : List Char
deriving DecidableEq

/-- Skips blanks, comments and line breaks. A tab is skipped only where it
cannot be taken for indentation; in block context a key may start on a new
line. -/
def skipGap (flow : Bool) : (keyAllowed newLine comment : Bool) → Position → List Char → Skipped
  | allowed, newLine, _, p, [] => ⟨allowed, newLine, p, []⟩
  | allowed, newLine, comment, p, c :: rest =>
    if isBreak c then skipGap flow (allowed || !flow) true false .lineStart rest
    else if comment then skipGap flow allowed newLine true (p.next c) rest
    else if c = ' ' || (c = '\t' && (flow || !allowed)) ||
        (c = byteOrderMark && p.column == 0) then
      skipGap flow allowed newLine false (p.next c) rest
    else if c = '#' then skipGap flow allowed newLine true (p.next c) rest
    else ⟨allowed, newLine, p, c :: rest⟩

/-- The state and the text after one more token. -/
abbrev Step := Lexer × List Char

/-- A marker between documents, three characters long, or a directive: either
ends all block collections. -/
def atDocumentLevel? (s : Lexer) : Option Lexer :=
  (s.unindent fun _ => true).settle?.map (·.allowKey false)

def openFlow? (s : Lexer) (t : Token) (c : Char) (rest : List Char) : Option Step :=
  s.markKey?.map fun s =>
    let s := (s.push t).skip [c]
    ({ s with keyAllowed := true, pending := .empty, outer := s.pending :: s.outer }, rest)

/-- Closes a flow collection: its tokens join those of the level around it. -/
def closeFlow? (s : Lexer) (t : Token) (c : Char) (rest : List Char) : Option Step :=
  s.settle?.map fun s =>
    let s := match s.outer with
      | [] => s
      | f :: outer => { s with pending := f.pushAll s.pending.all, outer := outer }
    (((s.push t).skip [c]).allowKey false, rest)

/-- The comma between the entries of a flow collection. -/
def flowEntry? (s : Lexer) (c : Char) (rest : List Char) : Option Step :=
  s.settle?.map fun s => (((s.push .flowEntry).skip [c]).allowKey true, rest)

/-- The dash before an entry of a block sequence. -/
def blockEntry? (s : Lexer) (c : Char) (rest : List Char) : Option Step :=
  if !s.inFlow && !s.keyAllowed then none
  else (s.indent .blockSequenceStart).settle?.map fun s =>
    (((s.push .blockEntry).skip [c]).allowKey true, rest)

def explicitKey? (s : Lexer) (c : Char) (rest : List Char) : Option Step :=
  if !s.inFlow && !s.keyAllowed then none
  else (s.indent .blockMappingStart).settle?.map fun s =>
    (((s.push .key).skip [c]).allowKey (!s.inFlow), rest)

/-- Turns what began at `k` into a key: the key token, and the start of a block
mapping if there is none at its column, come before it. -/
def confirmKey (s : Lexer) (k : KeyStart) : Lexer :=
  let opens := !s.inFlow && s.parent ≤ k.position.column
  let before := if opens then .key :: .blockMappingStart :: s.pending.settled
    else .key :: s.pending.settled
  { s with
    indents := if opens then k.position.column :: s.indents else s.indents
    pending := ⟨s.pending.since ++ before, none, []⟩ }

/-- The colon before a value: after a key that began on this line, or after an
explicit key, or, inside a flow collection, after nothing. -/
def valueMark? (s : Lexer) (c : Char) (rest : List Char) : Option Step :=
  match s.pending.start with
  | some k =>
    if s.position.bytes ≤ k.position.bytes + keyByteLimit then
      some ((((s.confirmKey k).push .value).skip [c]).allowKey false, rest)
    else if k.required then none
    else valueWithoutKey s.settle?
  | none => valueWithoutKey (some s)
where
  /-- The colon when nothing before it is a key. -/
  valueWithoutKey : Option Lexer → Option Step
    | none => none
    | some s =>
      if !s.inFlow && !s.keyAllowed then none
      else
        let s := s.indent .blockMappingStart
        some (((s.push .value).skip [c]).allowKey (!s.inFlow), rest)

/-- An anchor, an alias or a tag: the possible start of a key. -/
def property? (s : Lexer) (t : Token) (text rest : List Char) : Option Step :=
  s.markKey?.map fun s => (((s.push t).skip text).allowKey false, rest)

/-- The characters of `cs` before its end part `rest`. -/
def consumed (cs rest : List Char) : List Char :=
  cs.take (cs.length - rest.length)

/-- Whether a plain scalar may start with `c` before `rest`. -/
def startsPlain (flow : Bool) (c : Char) (rest : List Char) : Bool :=
  !(isBlank c || isBreak c || isIndicator c) ||
    (c = '-' && !(rest.head?.any isBlank)) ||
    (!flow && (c = '?' || c = ':') && !atGap rest)

/-- The state after a scalar was cut out: a possible key ends with the line, so
it is given up when the scalar contains a line break. -/
def afterScalar? (s : Lexer) (cs : List Char) (p : Position) (rest : List Char) : Option Step :=
  let s := { s with position := p }
  if (consumed cs rest).any isBreak then s.endLine?.map (·, rest) else some (s, rest)

/-- A plain scalar. When it stops after a line break, a key may follow. -/
def plainScalar? (s : Lexer) (cs : List Char) : Option Step :=
  match s.markKey? with
  | none => none
  | some s =>
    match plain? s.inFlow s.parent .none s.position cs with
    | none => none
    | some r =>
      let s := (s.push (.scalar true r.scalar.text)).allowKey r.gap.hasBreak
      s.afterScalar? cs r.scalar.position r.scalar.rest

/-- A quoted scalar after its opening quote. -/
def quotedScalar? (s : Lexer) (c : Char) (rest : List Char) : Option Step :=
  match s.markKey? with
  | none => none
  | some s =>
    let p := s.position.next c
    let result := if c = '"' then doubleQuoted? (.text .none) p rest else singleQuoted? .none p rest
    match result with
    | none => none
    | some r =>
      ((s.push (.scalar false r.text)).allowKey false).afterScalar? rest r.position r.rest

/-- A block scalar after its indicator. A key may follow on the next line. -/
def blockScalarAt? (s : Lexer) (c : Char) (rest : List Char) : Option Step :=
  match s.settle? with
  | none => none
  | some s =>
    (blockScalar? (c == '>') s.parent rest).map fun r =>
      ({ (s.push (.scalar false r.text)).allowKey true with position := r.position }, r.rest)

/-- One token at the first character after a gap. -/
def token? (s : Lexer) (c : Char) (rest : List Char) : Option Step :=
  let flow := s.inFlow
  let atLineStart := s.position.column == 0
  if atLineStart && c = '%' then
    match s.atDocumentLevel?, directive? rest with
    | some s, some (t, rest') =>
      some ((s.push t).skip (c :: consumed rest rest'), rest')
    | _, _ => none
  else if atLineStart && startsMarker '-' (c :: rest) then
    s.atDocumentLevel?.map fun s => ((s.push .documentStart).skip [c, c, c], rest.drop 2)
  else if atLineStart && startsMarker '.' (c :: rest) then
    s.atDocumentLevel?.map fun s => ((s.push .documentEnd).skip [c, c, c], rest.drop 2)
  else if c = '[' then s.openFlow? .flowSequenceStart c rest
  else if c = '\x7b' then s.openFlow? .flowMappingStart c rest
  else if c = ']' then s.closeFlow? .flowSequenceEnd c rest
  else if c = '\x7d' then s.closeFlow? .flowMappingEnd c rest
  else if c = ',' then s.flowEntry? c rest
  else if c = '-' && atGap rest then s.blockEntry? c rest
  else if c = '?' && (flow || atGap rest) then s.explicitKey? c rest
  else if c = ':' && (flow || atGap rest) then s.valueMark? c rest
  else if c = '*' then
    match anchorName? rest with
    | some (name, rest) => s.property? (.alias name) (c :: name) rest
    | none => none
  else if c = '&' then
    match anchorName? rest with
    | some (name, rest) => s.property? (.anchor name) (c :: name) rest
    | none => none
  else if c = '!' then
    match tag? flow rest with
    | some r => s.property? (.tag r.handle r.suffix) (c :: consumed rest r.rest) r.rest
    | none => none
  else if (c = '|' || c = '>') && !flow then s.blockScalarAt? c rest
  else if c = '\'' || c = '"' then s.quotedScalar? c rest
  else if startsPlain flow c rest then s.plainScalar? (c :: rest)
  else none

/-- The end of the text: all block collections end, and no key may be missing. -/
def finish? (s : Lexer) : Option (List Token) :=
  (s.unindent fun _ => true).settle?.map fun s =>
    ((s.pending :: s.outer).flatMap Pending.all).reverse

/-- One token after a gap. `inl` holds all tokens of a text that has ended. -/
def step? (s : Lexer) (cs : List Char) : Option (List Token ⊕ Step) :=
  let gap := skipGap s.inFlow s.keyAllowed false false s.position cs
  let s' := { s with keyAllowed := gap.keyAllowed, position := gap.position }
  match if gap.newLine then s'.endLine? else some s' with
  | none => none
  | some s =>
    match gap.rest with
    | [] => s.finish?.map .inl
    | c :: rest =>
      ((s.unindent fun n => s.position.column < n).token? c rest).map .inr

/-- All tokens of a text, from a state between two tokens. -/
def run? (s : Lexer) (cs : List Char) : Option (List Token) :=
  match s.step? cs with
  | none => none
  | some (.inl tokens) => some tokens
  | some (.inr (s', rest)) => if rest.length < cs.length then s'.run? rest else none
termination_by cs.length

end Lexer

/-- The tokens of a text; none when it cannot be cut into tokens. -/
def scan? (cs : List Char) : Option (List Token) :=
  Lexer.initial.run? cs

end PromptDoc.Yaml.Token
