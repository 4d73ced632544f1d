import PromptDoc.Text.Diff.Compact

/-!
# Unified diffs

`unifiedDiff` shows the changes between two texts line by line, with three
lines of context. A line ends after a line feed, after a carriage return, or
after both together; a last line without an end is marked.
-/

namespace PromptDoc.Text

/-- The lines of a text with their ends. -/
def linesWithEnds : List Char → List (List Char)
  | [] => []
  | '\r' :: '\n' :: rest => ['\r', '\n'] :: linesWithEnds rest
  | c :: rest =>
    if c = '\n' ∨ c = '\r' then [c] :: linesWithEnds rest
    else match linesWithEnds rest with
      | [] => [[c]]
      | l :: ls => (c :: l) :: ls

/-- A stretch of both texts: either the same lines, or old lines that new ones
replace. -/
structure Stretch where
  same : Bool
  oldStart : Nat
  oldEnd : Nat
  newStart : Nat
  newEnd : Nat
deriving DecidableEq

namespace Stretch

/-- The first edit of a kind, as long as all edits of that kind together. -/
def total? (kind : Edit.Kind) (edits : List Edit) : Option Edit :=
  match edits.filter fun e => e.kind = kind with
  | [] => none
  | e :: rest => some { e with length := (rest.map Edit.length).foldl (· + ·) e.length }

def ofChanges (edits : List Edit) : List Stretch :=
  match total? .delete edits, total? .insert edits with
  | some d, some i => [⟨false, d.oldStart, d.oldEnd, i.newStart, i.newEnd⟩]
  | some d, none => [⟨false, d.oldStart, d.oldEnd, d.newStart, d.newEnd⟩]
  | none, some i => [⟨false, i.oldStart, i.oldEnd, i.newStart, i.newEnd⟩]
  | none, none => []

def ofKept (edits : List Edit) : List Stretch :=
  (total? .keep edits).toList.map fun k => ⟨true, k.oldStart, k.oldEnd, k.newStart, k.newEnd⟩

/-- The stretches of edits; `run` holds the edits of the current one. -/
def ofEdits : (run : List Edit) → List Edit → List Stretch
  | run, [] => close run
  | [], e :: rest => ofEdits [e] rest
  | r :: run, e :: rest =>
    if (r.kind = .keep) = (e.kind = .keep) then ofEdits ((r :: run) ++ [e]) rest
    else close (r :: run) ++ ofEdits [e] rest
where
  /-- The stretch of a finished run. -/
  close : List Edit → List Stretch
    | [] => []
    | r :: run => if r.kind = .keep then ofKept (r :: run) else ofChanges (r :: run)

/-- Lines of context around a change. -/
def context : Nat := 3

def length (s : Stretch) : Nat := s.oldEnd - s.oldStart

/-- The last lines of a stretch that is the same, as far as they are context. -/
def lastLines (s : Stretch) : Stretch :=
  let skipped := s.length - context
  { s with oldStart := s.oldStart + skipped, newStart := s.newStart + skipped }

/-- The first lines of a stretch that is the same, as far as they are context. -/
def firstLines (s : Stretch) : Stretch :=
  let skipped := s.length - context
  { s with oldEnd := s.oldEnd - skipped, newEnd := s.newEnd - skipped }

def trimEnds (ss : List Stretch) : List Stretch :=
  let ss := match ss with
    | s :: rest => if s.same then s.lastLines :: rest else s :: rest
    | [] => []
  match ss.reverse with
  | s :: rest => if s.same then (s.firstLines :: rest).reverse else ss
  | [] => []

/-- Groups stretches into hunks: the same lines in between are shared out when
they are more than the context of both neighbours. -/
def hunks : (group : List Stretch) → List Stretch → List (List Stretch)
  | group, [] =>
    if group.any (!·.same) || 1 < group.length then [group] else []
  | group, s :: rest =>
    if s.same && 2 * context < s.length then
      (group ++ [s.firstLines]) :: hunks [s.lastLines] rest
    else hunks (group ++ [s]) rest

end Stretch

namespace Diff

def range (first last : Nat) : String :=
  let n := last - first
  if n = 1 then toString (first + 1)
  else toString (if n = 0 then first else first + 1) ++ "," ++ toString n

def header (hunk : List Stretch) : String :=
  match hunk, hunk.getLast? with
  | s :: _, some t =>
    "@@ -" ++ range s.oldStart t.oldEnd ++ " +" ++ range s.newStart t.newEnd ++ " @@\n"
  | _, _ => ""

/-- One line of a hunk behind its mark. -/
def line (mark : Char) (l : List Char) : List Char :=
  let ended := l.getLast? == some '\n' || l.getLast? == some '\r'
  mark :: (l ++ if ended then [] else "\n\\ No newline at end of file\n".toList)

/-- The lines of a text in a range, each behind a mark. -/
def marked (mark : Char) (ls : Lines) (first last : Nat) : List Char :=
  ((ls.extract first last).toList.map (line mark)).flatten

def stretch (old new : Lines) (s : Stretch) : List Char :=
  if s.same then marked ' ' old s.oldStart s.oldEnd
  else marked '-' old s.oldStart s.oldEnd ++ marked '+' new s.newStart s.newEnd

def hunk (old new : Lines) (h : List Stretch) : List Char :=
  (header h).toList ++ h.flatMap (stretch old new)

end Diff

/-- The unified diff between two versions of the file at a path; empty when
they are equal. -/
def unifiedDiff (path : String) (before after : List Char) : List Char :=
  let old := (linesWithEnds before).toArray
  let new := (linesWithEnds after).toArray
  match Stretch.hunks [] (Stretch.trimEnds (Stretch.ofEdits [] (Edit.compact old new))) with
  | [] => []
  | hs => ("--- a/" ++ path ++ "\n+++ b/" ++ path ++ "\n").toList ++ hs.flatMap (Diff.hunk old new)

end PromptDoc.Text
