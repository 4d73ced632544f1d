import PromptDoc.Text.Diff.Edit

/-!
# Compact edits

The same change can often be placed at several runs of equal lines. Here edits
are moved so that insertions stand as late as possible and next to other
changes, and neighbouring edits of one kind become one.
-/

namespace PromptDoc.Text.Edit

/-- An edit among the others: those before it, nearest first, and those after
it. -/
structure Focus where
  before : List Edit
  here : Edit
  after : List Edit

def earlier (e : Edit) (n : Nat) : Edit :=
  { e with oldStart := e.oldStart - n, newStart := e.newStart - n }

def later (e : Edit) (n : Nat) : Edit :=
  { e with oldStart := e.oldStart + n, newStart := e.newStart + n }

/-- How many lines kept before an insertion equal its last lines. -/
def repeatedBefore (old new : Lines) (kept change : Edit) : Nat :=
  if change.kind = .insert then
    commonEnd old new ⟨kept.oldStart, kept.oldEnd, change.newStart, change.newEnd⟩
  else 0

/-- How many lines kept after an insertion equal its first lines. -/
def repeatedAfter (old new : Lines) (kept change : Edit) : Nat :=
  if change.kind = .insert then
    commonStart old new ⟨kept.oldStart, kept.oldEnd, change.newStart, change.newEnd⟩
  else 0

def keepFirst (oldStart newStart n : Nat) : List Edit → List Edit
  | e :: rest =>
    if e.kind = .keep then { e.earlier n with length := e.length + n } :: rest
    else ⟨.keep, oldStart, newStart, n⟩ :: e :: rest
  | [] => [⟨.keep, oldStart, newStart, n⟩]

/-- Kept lines behind the edits before a place. -/
def keepLast (oldStart newStart n : Nat) : List Edit → List Edit
  | e :: rest =>
    if e.kind = .keep then { e with length := e.length + n } :: rest
    else ⟨.keep, oldStart, newStart, n⟩ :: e :: rest
  | [] => [⟨.keep, oldStart, newStart, n⟩]

namespace Focus

/-- Moves a change towards the start as far as it goes: over kept lines that
repeat its last ones, over changes of the other kind, and into changes of its
own kind. -/
def moveUp (old new : Lines) : (fuel : Nat) → Focus → Focus
  | 0, f => f
  | fuel + 1, ⟨before, here, after⟩ =>
    match before with
    | [] => ⟨[], here, after⟩
    | previous :: before =>
      if previous.kind = .keep then
        let n := repeatedBefore old new previous here
        let left : Edit := { previous with length := previous.length - n }
        let after' := if n = 0 then after
          else keepFirst (previous.oldEnd - n) (here.newEnd - n) n after
        if left.length = 0 then moveUp old new fuel ⟨before, here.earlier n, after'⟩
        else if n = 0 then ⟨previous :: before, here, after⟩
        else moveUp old new fuel ⟨left :: before, here.earlier n, after'⟩
      else if previous.kind = here.kind then
        moveUp old new fuel
          ⟨before, { previous with length := previous.length + here.length }, after⟩
      else moveUp old new fuel ⟨before, here, previous :: after⟩

def moveDown (old new : Lines) : (fuel : Nat) → Focus → Focus
  | 0, f => f
  | fuel + 1, ⟨before, here, after⟩ =>
    match after with
    | [] => ⟨before, here, []⟩
    | next :: after =>
      if next.kind = .keep then
        let n := repeatedAfter old new next here
        let right : Edit := { next.later n with length := next.length - n }
        let before' := if n = 0 then before
          else keepLast next.oldStart here.newStart n before
        if right.length = 0 then moveDown old new fuel ⟨before', here.later n, after⟩
        else if n = 0 then ⟨before, here, next :: after⟩
        else moveDown old new fuel ⟨before', here.later n, right :: after⟩
      else if next.kind = here.kind then
        moveDown old new fuel ⟨before, { here with length := here.length + next.length }, after⟩
      else moveDown old new fuel ⟨next :: before, here, after⟩

end Focus

/-- Moves every change of a kind, from the first to the last. -/
def settle (old new : Lines) (kind : Kind) : (fuel : Nat) → (before after : List Edit) → List Edit
  | 0, before, after => before.reverse ++ after
  | _ + 1, before, [] => before.reverse
  | fuel + 1, before, e :: after =>
    if e.kind = kind then
      let steps := old.size + new.size + before.length + after.length + 2
      let f := (Focus.moveUp old new steps ⟨before, e, after⟩).moveDown old new (2 * steps)
      settle old new kind fuel (f.here :: f.before) f.after
    else settle old new kind fuel (e :: before) after

/-- The edits between two texts, deletions and then insertions put in their
places. -/
def compact (old new : Lines) : List Edit :=
  let fuel := (old.size + new.size + 2) * (old.size + new.size + 2)
  settle old new .insert fuel [] (settle old new .delete fuel [] (shortest old new))

end PromptDoc.Text.Edit
