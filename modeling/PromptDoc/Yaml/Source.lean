import PromptDoc.Yaml.Character

/-!
# YAML source text

Before anything else a text loses its byte order mark, is refused when it has
a character that YAML does not allow, and gets one spelling for its line
breaks: a carriage return with or without a line feed and a next-line
character all become one line feed. Separators of lines and of paragraphs stay
what they are.
-/

namespace PromptDoc.Yaml.Source

/-- One line feed for each spelling of a line break. -/
def unifyBreaks : List Char → List Char
  | [] => []
  | '\r' :: '\n' :: rest => '\n' :: unifyBreaks rest
  | c :: rest => (if c = '\r' ∨ c = '\u0085' then '\n' else c) :: unifyBreaks rest

/-- The text without a leading byte order mark. -/
def dropMark : List Char → List Char
  | [] => []
  | c :: rest => if c = byteOrderMark then rest else c :: rest

/-- The text as the reader sees it; none when it has a character that YAML
does not allow. -/
def prepare? (text : List Char) : Option (List Char) :=
  let body := dropMark text
  if body.all isReadable then some (unifyBreaks body) else none

end PromptDoc.Yaml.Source
