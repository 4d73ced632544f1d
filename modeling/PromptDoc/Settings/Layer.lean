import PromptDoc.Text.Lowercase
import PromptDoc.Toml.Value

/-!
# Layers of settings

Settings come from several sources, each of which gives a table. A table is laid
over another field by field; anything else takes the place of what was there.
Keys are lowercase, however they are written.

The keys of a source are addresses such as `walk.extensions` or
`walk.extensions[0]`. `Toml.setAt` puts a value at an address and makes the
tables and lists on the way where they are missing.
-/

namespace PromptDoc.Toml

/-- A step of an address. -/
inductive Step where
  | field (key : String)
  /-- An item of a list; negative numbers count from its end. -/
  | item (n : Int)
deriving DecidableEq

def isAddressChar (c : Char) : Bool :=
  c.isAlphanum || c = '_' || c = '-' || c = ' '

def isNumberBlank (c : Char) : Bool :=
  c = ' ' || c = '\t'

/-- The number of an item, an optional sign and digits, up to its bracket. -/
def itemNumber? (cs : List Char) : Option (Int × List Char) :=
  let (negative, rest) := Numeral.takeSign (cs.dropWhile isNumberBlank)
  match Digits.read? 10 (rest.takeWhile Char.isDigit) with
  | none => none
  | some n =>
    match (rest.dropWhile Char.isDigit).dropWhile isNumberBlank with
    | ']' :: rest => some (if negative then -(n : Int) else n, rest)
    | _ => none

/-- The steps after the first name of an address. -/
def stepsAfter? : (fuel : Nat) → List Char → Option (List Step)
  | _, [] => some []
  | 0, _ => none
  | fuel + 1, c :: rest =>
    if c = '.' then
      let name := rest.takeWhile isAddressChar
      if name.isEmpty then none
      else (stepsAfter? fuel (rest.dropWhile isAddressChar)).map
        (.field (String.ofList name) :: ·)
    else if c = '[' then
      match itemNumber? rest with
      | some (n, rest) => (stepsAfter? fuel rest).map (.item n :: ·)
      | none => none
    else none

/-- The steps of an address. A key that is no address is one name. -/
def addressOf (key : String) : List Step :=
  let cs := key.toList
  let name := cs.takeWhile isAddressChar
  match name.isEmpty, stepsAfter? cs.length (cs.dropWhile isAddressChar) with
  | false, some steps => .field (String.ofList name) :: steps
  | _, _ => [.field key]

mutual

/-- A value laid over what may be there already. -/
def laidOn (below : Option Toml) : Toml → Toml
  | .table fs => fieldsLaidOn (below.getD (.table [])) fs
  | v => v

/-- Fields laid over a value one after another. -/
def fieldsLaidOn (below : Toml) : List (String × Toml) → Toml
  | [] => below
  | (key, v) :: fs =>
    let key := Text.lowercase key
    fieldsLaidOn (below.set key (v.laidOn (below.get? key))) fs

end

def position (n : Int) (length : Nat) : Nat :=
  (if 0 ≤ n then n else length + n).toNat

/-- Puts a value at a place in a list, which is filled up with empty tables. -/
def setItem (items : List Toml) (n : Nat) (v : Toml) : List Toml :=
  (items ++ List.replicate (n + 1 - items.length) (Toml.table [])).set n v

def setAt (v : Toml) : List Step → Toml → Toml
  | [], _ => v
  | [.field key], t =>
    let key := Text.lowercase key
    t.set key (v.laidOn (t.get? key))
  | .field key :: steps, t =>
    let key := Text.lowercase key
    t.set key (setAt v steps ((t.get? key).getD (.table [])))
  | .item n :: steps, t =>
    let place := position n t.items.length
    .list (setItem t.items place (setAt v steps ((t.items[place]?).getD (.table []))))

/-- A source laid over what other sources have given. -/
def layer (below : Toml) (source : List (String × Toml)) : Toml :=
  source.foldl (fun t (key, v) => setAt v (addressOf key) t) below

end PromptDoc.Toml
