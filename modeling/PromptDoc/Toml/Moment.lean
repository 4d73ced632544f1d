import PromptDoc.Decimal.Reading

/-!
# Dates and times in TOML

A moment is a date, a time of day, or both with or without an offset. `text?`
reads one and gives its standard text: a capital T between date and time, no
zeros at the end of the fraction and at most nine digits in it.
-/

namespace PromptDoc.Toml.Moment

/-- A number of exactly so many digits between two bounds, and the rest. -/
def field? (digits least greatest : Nat) (cs : List Char) : Option (Nat × List Char) :=
  let ds := cs.take digits
  if ds.length = digits ∧ ds.all Char.isDigit ∧ least ≤ Digits.decimal ds ∧
      Digits.decimal ds ≤ greatest then some (Digits.decimal ds, cs.drop digits)
  else none

/-- A number in at least so many digits. -/
def padded (digits n : Nat) : List Char :=
  let ds := Nat.toDigits 10 n
  List.replicate (digits - ds.length) '0' ++ ds

def daysIn (year month : Nat) : Nat :=
  if month = 2 then
    if year % 4 = 0 ∧ (year % 100 ≠ 0 ∨ year % 400 = 0) then 29 else 28
  else if month = 4 ∨ month = 6 ∨ month = 9 ∨ month = 11 then 30
  else 31

def after? (c : Char) : List Char → Option (List Char)
  | d :: rest => if d = c then some rest else none
  | [] => none

/-- The text of a date at the front, and the rest. -/
def date? (cs : List Char) : Option (List Char × List Char) := do
  let (year, cs) ← field? 4 0 9999 cs
  let cs ← after? '-' cs
  let (month, cs) ← field? 2 1 12 cs
  let cs ← after? '-' cs
  let (day, cs) ← field? 2 1 (daysIn year month) cs
  some (padded 4 year ++ '-' :: (padded 2 month ++ '-' :: padded 2 day), cs)

/-- The text of a fraction of a second at the front, and the rest. -/
def fraction? : List Char → Option (List Char × List Char)
  | '.' :: cs =>
    let ds := (cs.takeWhile Char.isDigit).take 9
    let kept := (ds.reverse.dropWhile (· = '0')).reverse
    if ds.isEmpty then none
    else some (if kept.isEmpty then [] else '.' :: kept, cs.dropWhile Char.isDigit)
  | cs => some ([], cs)

/-- The text of a time of day at the front, and the rest. -/
def time? (cs : List Char) : Option (List Char × List Char) := do
  let (hour, cs) ← field? 2 0 23 cs
  let cs ← after? ':' cs
  let (minute, cs) ← field? 2 0 59 cs
  let cs ← after? ':' cs
  let (second, cs) ← field? 2 0 60 cs
  let (fraction, cs) ← fraction? cs
  some (padded 2 hour ++ ':' :: (padded 2 minute ++ ':' :: (padded 2 second ++ fraction)), cs)

/-- The text of an offset that takes up the whole rest. No offset is negative
zero. -/
def offset? : List Char → Option (List Char)
  | [] => some []
  | c :: cs =>
    if c = 'Z' ∨ c = 'z' then if cs.isEmpty then some ['Z'] else none
    else if c = '+' ∨ c = '-' then do
      let (hours, cs) ← field? 2 0 23 cs
      let cs ← after? ':' cs
      let (minutes, cs) ← field? 2 0 59 cs
      let sign := if hours = 0 ∧ minutes = 0 then '+' else c
      if cs.isEmpty then some (sign :: (padded 2 hours ++ ':' :: padded 2 minutes)) else none
    else none

/-- The text of a time of day with an offset that takes up the whole rest. -/
def timeAndOffset? (cs : List Char) : Option (List Char) := do
  let (time, cs) ← time? cs
  let offset ← offset? cs
  some (time ++ offset)

/-- The standard text of a moment that takes up the whole text; date and time
are separated by a T of either case. -/
def text? (cs : List Char) : Option (List Char) :=
  match date? cs with
  | some (date, []) => some date
  | some (date, c :: rest) =>
    if c = 'T' ∨ c = 't' then (timeAndOffset? rest).map fun time => date ++ 'T' :: time
    else none
  | none =>
    match time? cs with
    | some (time, []) => some time
    | _ => none

def isDate (cs : List Char) : Bool :=
  match date? cs with
  | some (_, []) => true
  | _ => false

end PromptDoc.Toml.Moment
