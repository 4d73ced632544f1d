/-!
# Lines

Line breaks are a line feed, or a carriage return with a line feed. A carriage
return alone is part of its line.
-/

namespace PromptDoc.Text

/-- The lines of a text without their breaks; there is one more of them than
breaks. -/
def lines : List Char → List (List Char)
  | [] => [[]]
  | '\r' :: '\n' :: rest => [] :: lines rest
  | '\n' :: rest => [] :: lines rest
  | c :: rest =>
    match lines rest with
    | [] => [[c]]
    | l :: ls => (c :: l) :: ls

def unlines : List (List Char) → List Char
  | [] => []
  | [l] => l
  | l :: m :: ls => l ++ '\n' :: unlines (m :: ls)

/-- The text with a carriage return before every line feed. -/
def toCrlf (s : List Char) : List Char :=
  s.flatMap fun c => if c = '\n' then ['\r', '\n'] else [c]

/-- The text without the carriage returns that stand before a line feed. -/
def toLf : List Char → List Char
  | [] => []
  | '\r' :: '\n' :: rest => '\n' :: toLf rest
  | c :: rest => c :: toLf rest

/-- Whether a carriage return stands before a line feed anywhere. -/
def hasCrlf : List Char → Bool
  | [] => false
  | '\r' :: '\n' :: _ => true
  | _ :: rest => hasCrlf rest

end PromptDoc.Text
