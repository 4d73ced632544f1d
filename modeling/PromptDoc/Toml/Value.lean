import PromptDoc.Decimal.Extended
import PromptDoc.Keyed

/-!
# TOML values

`Toml` is the value of a TOML document or of a part of one. Dates and times are
kept as their text.
-/

namespace PromptDoc

/-- A TOML value; tables keep the order of their fields. -/
inductive Toml where
  | bool (b : Bool)
  | int (n : Int)
  | float (x : Extended)
  | text (s : String)
  | list (items : List Toml)
  | table (fields : List (String × Toml))
deriving Inhabited

namespace Toml

/-- The fields of a table; no other value has any. -/
def fields : Toml → List (String × Toml)
  | .table fs => fs
  | _ => []

/-- The items of a list; no other value has any. -/
def items : Toml → List Toml
  | .list vs => vs
  | _ => []

def get? (v : Toml) (key : String) : Option Toml :=
  v.fields.lookup key

/-- The value as a table with a field set; what is no table becomes one. -/
def set (t : Toml) (key : String) (v : Toml) : Toml :=
  .table (Keyed.insert t.fields key v)

end Toml

end PromptDoc
