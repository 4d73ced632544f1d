import PromptDoc.Text.CaseTable

/-!
# Lowercase text

`lowercase` is the full lowercase mapping of Unicode, without the rules of
single languages. Two characters need more than a table: the capital I with a
dot becomes two characters, and a capital sigma at the end of a word becomes
the final sigma.
-/

namespace PromptDoc.Text

def inRanges (ranges : List (Nat × Nat)) (c : Char) : Bool :=
  ranges.any fun (first, last) => first ≤ c.toNat && c.toNat ≤ last

def CaseRun.maps (run : CaseRun) (c : Char) : Bool :=
  run.first ≤ c.toNat && c.toNat ≤ run.last && (c.toNat - run.first) % run.step = 0

def lowercaseChar (c : Char) : List Char :=
  if c.toNat < 0x80 then [c.toLower]
  else if c = '\u0130' then ['i', '\u0307']
  else match lowercaseRuns.find? (·.maps c) with
    | some run => [Char.ofNat (c.toNat + run.offset).toNat]
    | none => [c]

/-- Whether the first character that case does not look through has a case. -/
def startsCased (cs : List Char) : Bool :=
  match cs.dropWhile (inRanges caseIgnorableRanges) with
  | c :: _ => inRanges casedRanges c
  | [] => false

/-- The lowercase form of a text after the characters `before`, last first. -/
def lowercaseAfter : (before : List Char) → List Char → List Char
  | _, [] => []
  | before, c :: rest =>
    (if c = '\u03a3' then
      [if startsCased before && !startsCased rest then '\u03c2' else '\u03c3']
    else lowercaseChar c) ++ lowercaseAfter (c :: before) rest

def lowercase (s : String) : String :=
  String.ofList (lowercaseAfter [] s.toList)

/-- Equality up to the case of the letters from A to Z. -/
def sameIgnoringAsciiCase (s t : String) : Bool :=
  s.toLower == t.toLower

end PromptDoc.Text
