import PromptDoc.Decimal.Binary64
import PromptDoc.Decimal.Width
import PromptDoc.Keyed

/-!
# JSON values

`Json` is the untyped document every other part works on. Objects are lists of
fields in their own order; integers and doubles are different numbers. What a
reader never builds is ruled out by `Json.WellFormed`: repeated keys within an
object and integers outside the 64-bit ranges.

`Json.agrees` compares two values up to the order of object fields.
-/

namespace PromptDoc

/-- A JSON value whose objects keep the order of their fields. -/
inductive Json where
  | null
  | bool (b : Bool)
  | int (n : Int)
  | float (x : Binary64)
  | str (s : String)
  | arr (items : List Json)
  | obj (fields : List (String × Json))
deriving Inhabited

/-- The fields of an object, in order. -/
abbrev Fields := List (String × Json)

namespace Json

mutual

/-- Decides equality of values, field order included. -/
def decEq : (a b : Json) → Decidable (a = b)
  | .null, .null => isTrue rfl
  | .bool a, .bool b =>
    if h : a = b then isTrue (by rw [h]) else isFalse fun e => h (Json.bool.inj e)
  | .int a, .int b =>
    if h : a = b then isTrue (by rw [h]) else isFalse fun e => h (Json.int.inj e)
  | .float a, .float b =>
    if h : a = b then isTrue (by rw [h]) else isFalse fun e => h (Json.float.inj e)
  | .str a, .str b =>
    if h : a = b then isTrue (by rw [h]) else isFalse fun e => h (Json.str.inj e)
  | .arr a, .arr b =>
    match decEqItems a b with
    | isTrue h => isTrue (by rw [h])
    | isFalse h => isFalse fun e => h (Json.arr.inj e)
  | .obj a, .obj b =>
    match decEqFields a b with
    | isTrue h => isTrue (by rw [h])
    | isFalse h => isFalse fun e => h (Json.obj.inj e)
  | .null, .bool _ | .null, .int _ | .null, .float _ | .null, .str _ | .null, .arr _
  | .null, .obj _ | .bool _, .null | .bool _, .int _ | .bool _, .float _ | .bool _, .str _
  | .bool _, .arr _ | .bool _, .obj _ | .int _, .null | .int _, .bool _ | .int _, .float _
  | .int _, .str _ | .int _, .arr _ | .int _, .obj _ | .float _, .null | .float _, .bool _
  | .float _, .int _ | .float _, .str _ | .float _, .arr _ | .float _, .obj _ | .str _, .null
  | .str _, .bool _ | .str _, .int _ | .str _, .float _ | .str _, .arr _ | .str _, .obj _
  | .arr _, .null | .arr _, .bool _ | .arr _, .int _ | .arr _, .float _ | .arr _, .str _
  | .arr _, .obj _ | .obj _, .null | .obj _, .bool _ | .obj _, .int _ | .obj _, .float _
  | .obj _, .str _ | .obj _, .arr _ => isFalse nofun

def decEqItems : (a b : List Json) → Decidable (a = b)
  | [], [] => isTrue rfl
  | [], _ :: _ => isFalse nofun
  | _ :: _, [] => isFalse nofun
  | x :: xs, y :: ys =>
    match decEq x y, decEqItems xs ys with
    | isTrue h, isTrue t => isTrue (by rw [h, t])
    | isFalse h, _ => isFalse fun e => h (List.cons.inj e).1
    | _, isFalse t => isFalse fun e => t (List.cons.inj e).2

def decEqFields : (a b : List (String × Json)) → Decidable (a = b)
  | [], [] => isTrue rfl
  | [], _ :: _ => isFalse nofun
  | _ :: _, [] => isFalse nofun
  | (k, x) :: xs, (l, y) :: ys =>
    if hk : k = l then
      match decEq x y, decEqFields xs ys with
      | isTrue h, isTrue t => isTrue (by rw [hk, h, t])
      | isFalse h, _ => isFalse fun e => h (Prod.mk.inj (List.cons.inj e).1).2
      | _, isFalse t => isFalse fun e => t (List.cons.inj e).2
    else isFalse fun e => hk (Prod.mk.inj (List.cons.inj e).1).1

end

instance : DecidableEq Json := decEq

/-- The fields of an object; no other value has any. -/
def fields? : Json → Option Fields
  | .obj fields => some fields
  | _ => none

/-- The items of an array; no other value has any. -/
def items? : Json → Option (List Json)
  | .arr items => some items
  | _ => none

end Json

namespace Fields

def keys (fs : Fields) : List String :=
  fs.map Prod.fst

def get? (fs : Fields) (key : String) : Option Json :=
  fs.lookup key

def has (fs : Fields) (key : String) : Bool :=
  (get? fs key).isSome

/-- Puts a value under a key: a key that occurs keeps its place, a new one
comes last. -/
def insert (fs : Fields) (key : String) (value : Json) : Fields :=
  Keyed.insert fs key value

/-- Changes the value under a key, if the key occurs. -/
def modify (fs : Fields) (key : String) (f : Json → Json) : Fields :=
  fs.map fun (k, v) => if k = key then (k, f v) else (k, v)

end Fields

namespace Json

def get? (v : Json) (key : String) : Option Json :=
  v.fields?.bind (Fields.get? · key)

mutual

/-- Equality up to the order of object fields. Integers and doubles never
agree; doubles agree when they are numerically equal. -/
def agrees : Json → Json → Bool
  | .null, .null => true
  | .bool a, .bool b => a == b
  | .int a, .int b => a == b
  | .float a, .float b => a.sameNumber b
  | .str a, .str b => a == b
  | .arr a, .arr b => agreesItems a b
  | .obj a, .obj b => a.length == b.length && agreesFields a b
  | _, _ => false

def agreesItems : List Json → List Json → Bool
  | [], [] => true
  | x :: xs, y :: ys => agrees x y && agreesItems xs ys
  | _, _ => false

/-- Every field agrees with the field of the same key in `other`. -/
def agreesFields : List (String × Json) → Fields → Bool
  | [], _ => true
  | (k, x) :: xs, other =>
    (match Fields.get? other k with
      | some y => agrees x y
      | none => false) && agreesFields xs other

end

mutual

/-- What every reader builds: no object repeats a key and every integer fits
64 bits, signed or unsigned. -/
def WellFormed : Json → Prop
  | .int n => Width.fitsWord n
  | .arr items => WellFormedItems items
  | .obj fields => (fields.map Prod.fst).Nodup ∧ WellFormedFields fields
  | _ => True

def WellFormedItems : List Json → Prop
  | [] => True
  | x :: xs => WellFormed x ∧ WellFormedItems xs

def WellFormedFields : List (String × Json) → Prop
  | [] => True
  | (_, x) :: xs => WellFormed x ∧ WellFormedFields xs

end

end Json

end PromptDoc
