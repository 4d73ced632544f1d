import PromptDoc.Decimal.Reading
import PromptDoc.Yaml.Token.Basic

/-!
# Quoted scalars

Reading of scalars between single or double quotes. The text may run over
several lines; a line break with the blanks around it is folded. A line that
looks like a marker between documents may not occur inside.
-/

namespace PromptDoc.Yaml.Token

/-- Whether the text at this position is a marker between documents. -/
def isMarkerAt (p : Position) (cs : List Char) : Bool :=
  p.column == 0 && (startsMarker '-' cs || startsMarker '.' cs)

/-- Reads a scalar after its single quote; two quotes stand for one. -/
def singleQuoted? : Gap → Position → List Char → Option ScalarResult
  | _, _, [] => none
  | gap, p, c :: rest =>
    if isBreak c then singleQuoted? (gap.addBreak c) .lineStart rest
    else if isBlank c then singleQuoted? (gap.addBlank c) (p.next c) rest
    else if isMarkerAt p (c :: rest) then none
    else if c = '\'' then
      match rest with
      | '\'' :: rest =>
        (singleQuoted? .none ((p.next c).next c) rest).map (·.prepend (gap.text ++ ['\'']))
      | rest => some ⟨gap.text, p.next c, rest⟩
    else (singleQuoted? .none (p.next c) rest).map (·.prepend (gap.text ++ [c]))

def escaped? (c : Char) : Option Char :=
  if c = '0' then some '\x00'
  else if c = 'a' then some '\x07'
  else if c = 'b' then some '\x08'
  else if c = 't' ∨ c = '\t' then some '\t'
  else if c = 'n' then some '\n'
  else if c = 'v' then some '\x0b'
  else if c = 'f' then some '\x0c'
  else if c = 'r' then some '\r'
  else if c = 'e' then some '\x1b'
  else if c = ' ' ∨ c = '"' ∨ c = '/' ∨ c = '\\' then some c
  else if c = 'N' then some '\u0085'
  else if c = '_' then some '\u00a0'
  else if c = 'L' then some '\u2028'
  else if c = 'P' then some '\u2029'
  else none

/-- The number of hexadecimal digits after the letter of an escape. -/
def codeWidth? (c : Char) : Option Nat :=
  if c = 'x' then some 2
  else if c = 'u' then some 4
  else if c = 'U' then some 8
  else none

/-- The character with a given code, if there is one. -/
def charOfCode? (n : Nat) : Option Char :=
  if n.isValidChar then some (Char.ofNat n) else none

/-- Where the reading of a double-quoted scalar stands. -/
inductive QuotedMode where
  /-- Between words, or within one when there is no gap. -/
  | text (gap : Gap)
  /-- After a backslash. -/
  | escape
  /-- Within the digits of an escape: how many are missing and what the others
  amount to. -/
  | code (missing read : Nat)
deriving DecidableEq

/-- Reads a scalar after its double quote. -/
def doubleQuoted? : QuotedMode → Position → List Char → Option ScalarResult
  | _, _, [] => none
  | .text gap, p, c :: rest =>
    if isBreak c then doubleQuoted? (.text (gap.addBreak c)) .lineStart rest
    else if isBlank c then doubleQuoted? (.text (gap.addBlank c)) (p.next c) rest
    else if isMarkerAt p (c :: rest) then none
    else if c = '"' then some ⟨gap.text, p.next c, rest⟩
    else if c = '\\' then (doubleQuoted? .escape (p.next c) rest).map (·.prepend gap.text)
    else (doubleQuoted? (.text .none) (p.next c) rest).map (·.prepend (gap.text ++ [c]))
  | .escape, p, c :: rest =>
    if isBreak c then doubleQuoted? (.text (.breaks [] [])) .lineStart rest
    else match codeWidth? c with
      | some width => doubleQuoted? (.code width 0) (p.next c) rest
      | none =>
        match escaped? c with
        | some d => (doubleQuoted? (.text .none) (p.next c) rest).map (·.prepend [d])
        | none => none
  | .code missing n, p, c :: rest =>
    match Digits.value? 16 c with
    | none => none
    | some digit =>
      if missing ≤ 1 then
        match charOfCode? (n * 16 + digit) with
        | some d => (doubleQuoted? (.text .none) (p.next c) rest).map (·.prepend [d])
        | none => none
      else doubleQuoted? (.code (missing - 1) (n * 16 + digit)) (p.next c) rest

end PromptDoc.Yaml.Token
