import PromptDoc.Json.Printer
import PromptDoc.Violation

/-!
# Rules for strings and numbers

The rules that a schema can put on a string, and the comparison of numbers
with a constant.
-/

namespace PromptDoc

def isHexDigit (c : Char) : Bool :=
  c.isDigit || ('a' ≤ c && c ≤ 'f') || ('A' ≤ c && c ≤ 'F')

/-- A rule for strings. -/
inductive TextRule where
  /-- Any string. -/
  | any
  /-- At least one character. -/
  | nonEmpty
  /-- A UUID of version one to six. -/
  | uuid
  /-- Lower-case letters, digits, hyphens and underscores, the first one a
  letter or a digit. -/
  | slug
deriving DecidableEq

namespace TextRule

def isUuid (s : List Char) : Bool :=
  s.length == 36 &&
    (s.zipIdx.all fun (c, i) =>
      if i = 8 || i = 13 || i = 18 || i = 23 then c = '-'
      else if i = 14 then '1' ≤ c && c ≤ '6'
      else if i = 19 then c ∈ ['8', '9', 'a', 'b', 'A', 'B']
      else isHexDigit c)

/-- Characters of a slug after its first. -/
def isSlugChar (c : Char) : Bool :=
  c.isLower || c.isDigit || c = '_' || c = '-'

def isSlug : List Char → Bool
  | [] => false
  | c :: rest => (c.isLower || c.isDigit) && rest.all isSlugChar

/-- The pattern of a rule, as a schema writes it. -/
def pattern? : TextRule → Option String
  | .uuid => some ("^[0-9a-fA-F]\x7b8\x7d-[0-9a-fA-F]\x7b4\x7d-[1-6][0-9a-fA-F]\x7b3\x7d-" ++
      "[89abAB][0-9a-fA-F]\x7b3\x7d-[0-9a-fA-F]\x7b12\x7d$")
  | .slug => some "^[a-z0-9][a-z0-9_-]*$"
  | _ => none

def accepts (rule : TextRule) (s : String) : Bool :=
  match rule with
  | .any => true
  | .nonEmpty => !s.isEmpty
  | .uuid => isUuid s.toList
  | .slug => isSlug s.toList

def violation (rule : TextRule) (s : String) : Violation.Kind × String :=
  match rule.pattern? with
  | some pattern =>
    (.pattern, (Json.str s).compact ++ " does not match \"" ++ pattern ++ "\"")
  | none => (.constraint, (Json.str s).compact ++ " is shorter than 1 character")

end TextRule

namespace Json

/-- Whether a value is the number `n`; doubles are compared with a tolerance
below their own precision at one. -/
def isNumber (n : Nat) : Json → Bool
  | .int m => m == n
  | .float x =>
    let (a, b) := x.ratio
    let (low, high) := if x.negative then (a + n * b, 0) else (a, n * b)
    ((low - high) + (high - low)) * 0x10000000000000 < b
  | _ => false

/-- Whether a value is an integer, or a double that is one. -/
def isInteger : Json → Bool
  | .int _ => true
  | .float x => x.toInt?.isSome
  | _ => false

/-- Whether a value is a number above zero; other values than numbers count as
such. -/
def isPositiveOrOther : Json → Bool
  | .int n => 0 < n
  | .float x => !x.isZero && !x.negative
  | _ => true

end Json

end PromptDoc
