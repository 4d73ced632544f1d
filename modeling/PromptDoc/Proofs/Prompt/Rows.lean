import PromptDoc.Proofs.Canonical
import PromptDoc.Proofs.Json.Fields
import PromptDoc.Proofs.Schema
import PromptDoc.Prompt.Encode

/-!
# Records row by row

The document forms of a prompt and of its parts are records of declared fields.
A `Row` is one of them: its name, what the schema asks of it, and its value when
it is there. A record suits its schema when every row does (`suits_ofRows`), and
each field is found under its name (`get?_ofRows`).
-/

namespace PromptDoc

open Yaml

/-- A value that a schema asks for and that a round trip keeps, nested at most
`n` deep. -/
structure Suits (n : Nat) (schema : Schema) (v : Json) : Prop where
  accepts : schema.Accepts v
  portable : Portable n v

/-- A declared field of a record. -/
structure Row where
  name : String
  schema : Schema
  value : Option Json

namespace Row

/-- The row of a field that may be absent. -/
def optional {α : Type} (name : String) (schema : Schema) (encode : α → Json) (o : Option α) :
    Row :=
  ⟨name, schema, o.map encode⟩

/-- The row of a field that is there. -/
def present {α : Type} (name : String) (schema : Schema) (encode : α → Json) (a : α) : Row :=
  ⟨name, schema, some (encode a)⟩

/-- The row as a property of a schema. -/
def property (r : Row) : String × Schema :=
  (r.name, r.schema)

/-- The value, if there is one, suits its schema. -/
def Fits (n : Nat) (r : Row) : Prop :=
  ∀ v, r.value = some v → Suits n r.schema v

end Row

namespace Fields

/-- The fields that are there. -/
def ofRows (rows : List Row) : Fields :=
  rows.filterMap fun r => r.value.map (r.name, ·)

theorem ofRows_nil : ofRows [] = [] :=
  rfl

theorem ofRows_optional {α : Type} (name : String) (schema : Schema) (encode : α → Json)
    (o : Option α) (rows : List Row) :
    ofRows (Row.optional name schema encode o :: rows) =
      optional name encode o ++ ofRows rows := by
  cases o <;> rfl

theorem ofRows_present {α : Type} (name : String) (schema : Schema) (encode : α → Json) (a : α)
    (rows : List Row) :
    ofRows (Row.present name schema encode a :: rows) = (name, encode a) :: ofRows rows :=
  rfl

theorem mem_ofRows {rows : List Row} {f : String × Json} :
    f ∈ ofRows rows ↔ ∃ r ∈ rows, r.name = f.1 ∧ r.value = some f.2 := by
  rw [ofRows, List.mem_filterMap]
  constructor
  · rintro ⟨r, hr, h⟩
    obtain ⟨v, hv, rfl⟩ := Option.map_eq_some_iff.1 h
    exact ⟨r, hr, rfl, hv⟩
  · rintro ⟨r, hr, hname, hvalue⟩
    exact ⟨r, hr, by rw [hvalue, hname]; rfl⟩

theorem keys_ofRows_sublist (rows : List Row) :
    (ofRows rows).keys.Sublist (rows.map Row.name) := by
  induction rows with
  | nil => exact List.Sublist.slnil
  | cons r rows ih =>
      rw [keys, ofRows, List.map_cons]
      cases hvalue : r.value with
      | none =>
          rw [List.filterMap_cons_none (by rw [hvalue]; rfl)]
          exact ih.cons r.name
      | some v =>
          rw [List.filterMap_cons_some (by rw [hvalue]; rfl)]
          exact ih.cons_cons r.name

/-- Rows in order make fields in order. -/
theorem isSorted_ofRows {order : List String} {rows : List Row}
    (h : (rows.map Row.name).Pairwise fun a b => precedes order a b = true) :
    IsSorted order (ofRows rows) :=
  h.sublist (keys_ofRows_sublist rows)

variable {rows : List Row}

/-- Every field is found under its name. -/
theorem get?_ofRows (hnames : (rows.map Row.name).Nodup) {r : Row} (hr : r ∈ rows) :
    (ofRows rows).get? r.name = r.value := by
  induction rows with
  | nil => cases hr
  | cons s rows ih =>
      obtain ⟨hnew, hnames⟩ := List.nodup_cons.1 hnames
      have habsent : (ofRows rows).get? s.name = none :=
        get?_eq_none fun h => hnew ((keys_ofRows_sublist rows).subset h)
      rcases List.mem_cons.1 hr with rfl | hr
      · rw [ofRows]
        cases hvalue : r.value with
        | none =>
            rw [List.filterMap_cons_none (by rw [hvalue]; rfl)]
            exact habsent
        | some v =>
            rw [List.filterMap_cons_some (by rw [hvalue]; rfl)]
            exact List.lookup_cons_self
      · have hne : (r.name == s.name) = false := by
          rw [beq_eq_false_iff_ne]
          intro heq
          exact hnew (heq ▸ List.mem_map_of_mem hr)
        rw [← ih hnames hr, ofRows]
        cases hvalue : s.value with
        | none => rw [List.filterMap_cons_none (by rw [hvalue]; rfl), ofRows]
        | some v =>
            rw [List.filterMap_cons_some (by rw [hvalue]; rfl), get?, List.lookup_cons, hne]
            rfl

theorem exists_ofRows (hnames : (rows.map Row.name).Nodup) :
    ∃ fs, ofRows rows = fs ∧ ∀ r ∈ rows, get? fs r.name = r.value :=
  ⟨_, rfl, fun _ hr => get?_ofRows hnames hr⟩

/-- A record suits its schema when every row does, those that have to be there
are, and a reader can read the names. -/
theorem suits_ofRows {n : Nat} {required : List String} (others : OtherKeys)
    (hnames : (rows.map Row.name).Nodup) (hkeys : ∀ name ∈ rows.map Row.name, KeyFits name)
    (hrequired : ∀ name ∈ required, ∃ r ∈ rows, r.name = name ∧ r.value.isSome = true)
    (hrows : ∀ r ∈ rows, r.Fits n) :
    Suits (n + 1) (.record required others (rows.map Row.property)) (.obj (ofRows rows)) := by
  have hproperties : (rows.map Row.property).map Prod.fst = rows.map Row.name := by
    rw [List.map_map]
    rfl
  constructor
  · refine Schema.accepts_record_iff.2
      ⟨fun name hname => ?_, fun p hp v hv => ?_, fun _ key hkey => ?_⟩
    · obtain ⟨r, hr, rfl, hsome⟩ := hrequired name hname
      rw [has, get?_ofRows hnames hr]
      exact hsome
    · obtain ⟨r, hr, rfl⟩ := List.mem_map.1 hp
      exact (hrows r hr v ((get?_ofRows hnames hr).symm.trans hv)).accepts
    · rw [hproperties]
      exact (keys_ofRows_sublist rows).subset hkey
  · refine portable_obj.2 ⟨hnames.sublist (keys_ofRows_sublist rows), fun f hf => ?_⟩
    obtain ⟨r, hr, hname, hvalue⟩ := mem_ofRows.1 hf
    exact ⟨hname ▸ hkeys r.name (List.mem_map_of_mem hr), (hrows r hr f.2 hvalue).portable⟩

/-- The declared fields of a record that suits its schema suit theirs. -/
theorem exists_of_suits_record {n : Nat} {required : List String} {others : OtherKeys}
    {properties : List (String × Schema)} {fs : Fields}
    (h : Suits n (.record required others properties) (.obj fs)) :
    ∃ m, n = m + 1 ∧ ∀ p ∈ properties, ∀ v, get? fs p.1 = some v → Suits m p.2 v := by
  obtain ⟨-, hproperties, -⟩ := Schema.accepts_record_iff.1 h.accepts
  obtain ⟨m, rfl⟩ := h.portable.exists_of_obj
  refine ⟨m, rfl, fun p hp v hv => ⟨?_, ?_⟩⟩
  · exact hproperties p hp v hv
  · exact ((portable_obj.1 h.portable).2 _ (mem_of_get? hv)).2

end Fields

end PromptDoc
