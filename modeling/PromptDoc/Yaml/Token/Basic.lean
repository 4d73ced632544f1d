import PromptDoc.Yaml.Character

/-!
# YAML tokens

The tokens that a text is cut into, the position within a line, and the gaps
between the words of a scalar that runs over several lines.
-/

namespace PromptDoc.Yaml

/-- A token. Collections in block style are delimited by tokens that stand for
changes of indentation; `key` and `value` come before the parts of an entry. -/
inductive Token where
  | versionDirective (major minor : Nat)
  | tagDirective (handle replacement : List Char)
  | documentStart
  | documentEnd
  | blockSequenceStart
  | blockMappingStart
  | blockEnd
  | flowSequenceStart
  | flowSequenceEnd
  | flowMappingStart
  | flowMappingEnd
  | blockEntry
  | flowEntry
  | key
  | value
  | alias (name : List Char)
  | anchor (name : List Char)
  | tag (handle suffix : List Char)
  | scalar (plain : Bool) (text : List Char)
deriving DecidableEq, Inhabited

/-- The number of bytes of a text. -/
def byteCount : List Char → Nat
  | [] => 0
  | c :: cs => c.utf8Size + byteCount cs

/-- A position within a line: how many characters and how many bytes of the
line come before it. -/
structure Position where
  column : Nat
  bytes : Nat
deriving DecidableEq, Inhabited

namespace Position

def lineStart : Position := ⟨0, 0⟩

/-- The position after one more character of the line. -/
def next (p : Position) (c : Char) : Position :=
  ⟨p.column + 1, p.bytes + c.utf8Size⟩

/-- The position after more characters of the line. -/
def after (p : Position) (cs : List Char) : Position :=
  cs.foldl next p

@[simp] theorem after_nil (p : Position) : p.after [] = p := rfl

@[simp] theorem after_cons (p : Position) (c : Char) (cs : List Char) :
    p.after (c :: cs) = (p.next c).after cs := rfl

theorem after_append (p : Position) (cs ds : List Char) :
    p.after (cs ++ ds) = (p.after cs).after ds :=
  List.foldl_append

@[simp] theorem column_next (p : Position) (c : Char) : (p.next c).column = p.column + 1 := rfl

@[simp] theorem column_after (p : Position) (cs : List Char) :
    (p.after cs).column = p.column + cs.length := by
  induction cs generalizing p with
  | nil => rfl
  | cons c cs ih =>
      rw [after_cons, ih, column_next, List.length_cons, Nat.add_assoc, Nat.add_comm 1]

theorem bytes_after (p : Position) (cs : List Char) :
    (p.after cs).bytes = p.bytes + byteCount cs := by
  induction cs generalizing p with
  | nil => rfl
  | cons c cs ih =>
      rw [after_cons, ih, byteCount, ← Nat.add_assoc]
      rfl

end Position

/-- The blanks and line breaks between two words of a scalar. -/
inductive Gap where
  /-- No gap: the next character belongs to the same word. -/
  | none
  /-- Blanks within a line. -/
  | blanks (seen : List Char)
  /-- Line breaks: the first one, absent when it was escaped, and the others.
  Blanks around them do not count. -/
  | breaks (first more : List Char)
deriving DecidableEq

namespace Gap

def addBlank (c : Char) : Gap → Gap
  | .none => .blanks [c]
  | .blanks seen => .blanks (seen ++ [c])
  | .breaks first more => .breaks first more

def addBreak (c : Char) : Gap → Gap
  | .breaks first more => .breaks first (more ++ [c])
  | _ => .breaks [c] []

/-- What the gap stands for: blanks for themselves, a single line feed for a
space, several for one less; other line breaks stay. -/
def text : Gap → List Char
  | .none => []
  | .blanks seen => seen
  | .breaks ['\n'] [] => [' ']
  | .breaks ['\n'] more => more
  | .breaks first more => first ++ more

def hasBreak : Gap → Bool
  | .breaks _ _ => true
  | _ => false

end Gap

/-- What the reading of a scalar gives: its text, the position after it and
the remaining characters. -/
structure ScalarResult where
  text : List Char
  position : Position
  rest : List Char
deriving DecidableEq

def ScalarResult.prepend (cs : List Char) (r : ScalarResult) : ScalarResult :=
  { r with text := cs ++ r.text }

theorem ScalarResult.prepend_prepend (cs ds : List Char) (r : ScalarResult) :
    (r.prepend ds).prepend cs = r.prepend (cs ++ ds) := by
  simp only [prepend, List.append_assoc]

end PromptDoc.Yaml
