import PromptDoc.Yaml.Token.Quoted

/-!
# Plain scalars

A plain scalar ends before a colon with a gap after it, before a comment,
before a marker between documents, before a line that is indented too little,
and inside a flow collection before the collection's own punctuation.
-/

namespace PromptDoc.Yaml.Token

/-- Characters that end a plain scalar inside a flow collection. -/
def isFlowPunctuation (c : Char) : Bool :=
  c ∈ [',', '[', ']', '\x7b', '\x7d']

/-- Whether the next character is one that may not follow a colon inside a
flow collection. -/
def clashesWithColon : List Char → Bool
  | [] => false
  | c :: _ => c = '?' || isFlowPunctuation c

/-- What the reading of a plain scalar gives; `gap` is what was skipped after
its last word. -/
structure PlainResult where
  scalar : ScalarResult
  gap : Gap
deriving DecidableEq

def PlainResult.prepend (cs : List Char) (r : PlainResult) : PlainResult :=
  { r with scalar := r.scalar.prepend cs }

/-- Reads a plain scalar. In block context its further lines have to start at
column `indent` or beyond; a tab may not stand in place of that indentation. -/
def plain? (flow : Bool) (indent : Nat) : Gap → Position → List Char → Option PlainResult
  | gap, p, [] => some ⟨⟨[], p, []⟩, gap⟩
  | gap, p, c :: rest =>
    if isBlank c then
      if gap.hasBreak && p.column < indent && c = '\t' then none
      else plain? flow indent (gap.addBlank c) (p.next c) rest
    else if isBreak c then plain? flow indent (gap.addBreak c) .lineStart rest
    else if gap != .none &&
        ((!flow && p.column < indent) || isMarkerAt p (c :: rest) || c = '#') then
      some ⟨⟨[], p, c :: rest⟩, gap⟩
    else if flow && c = ':' && clashesWithColon rest then none
    else if (c = ':' && atGap rest) || (flow && isFlowPunctuation c) then
      some ⟨⟨[], p, c :: rest⟩, gap⟩
    else (plain? flow indent .none (p.next c) rest).map (·.prepend (gap.text ++ [c]))

end PromptDoc.Yaml.Token
