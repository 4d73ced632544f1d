import PromptDoc.Proofs.Json.Pointer
import PromptDoc.Proofs.Json.WellFormed
import PromptDoc.Proofs.Schema.Fieldwise

/-!
# Where violations are found

A schema asks something of several values of a document, each at its place
(`Schema.Asks`). Every violation is one of a value itself, found at the place of that
value (`Schema.mem_violations_iff`).
-/

namespace PromptDoc

theorem TextRule.kind_of_violation_eq {rule : TextRule} {text message : String}
    {kind : Violation.Kind} (h : rule.violation text = (kind, message)) :
    kind ≠ .missing ∧ kind ≠ .unknownKey := by
  rw [TextRule.violation] at h
  split at h <;> obtain ⟨rfl, -⟩ := Prod.mk.inj h <;> decide

namespace Schema

variable {schema : Schema} {document : Json}

/-- What a schema asks of a document, value by value: the value at a place is asked to
have a shape. -/
inductive Asks (schema : Schema) (document : Json) : Place → Schema → Json → Prop
  | root : Asks schema document [] schema document
  | item {place : Place} {items : Schema} {xs : List Json} {i : Nat} {x : Json} :
    Asks schema document place (.arrayOf items) (.arr xs) → xs[i]? = some x →
      Asks schema document (place ++ [toString i]) items x
  | field {place : Place} {required : List String} {others : OtherKeys}
      {properties : List (String × Schema)} {fs : Fields} {p : String × Schema} {x : Json} :
    Asks schema document place (.record required others properties) (.obj fs) →
      p ∈ properties → fs.get? p.1 = some x → Asks schema document (place ++ [p.1]) p.2 x
  | value {place : Place} {values : Schema} {fs : Fields} {f : String × Json} :
    Asks schema document place (.recordOf values) (.obj fs) → f ∈ fs →
      Asks schema document (place ++ [f.1]) values f.2

/-- The violations of a value itself, without those of its items and its fields. -/
def ownViolations (place : Place) : Schema → Json → List Violation
  | .arrayOf _, .arr _ => []
  | .record required others properties, .obj fields =>
    missingFields place required fields ++
      unknownKeys place others (properties.map Prod.fst) fields
  | .recordOf _, .obj _ => []
  | schema, v => violations place schema v

variable {place : Place} {s : Schema} {x : Json} {v : Violation}

mutual

/-- A violation below a value that is asked for is the own violation of a value that is
asked for; by recursion on the shape. -/
theorem exists_asks_of_mem_violations : ∀ {s : Schema} {place : Place} {x : Json},
    Asks schema document place s x → v ∈ violations place s x →
      ∃ place s x, Asks schema document place s x ∧ v ∈ ownViolations place s x
  | .arrayOf items, place, x, hasks, hv => by
      cases x with
      | arr xs =>
          rw [violations] at hv
          obtain ⟨⟨x, i⟩, hitem, hv⟩ := List.mem_flatMap.1 hv
          have hget : xs[i]? = some x := List.mem_zipIdx_iff_getElem?.1 hitem
          exact exists_asks_of_mem_violations (.item hasks hget) hv
      | _ => exact ⟨place, _, _, hasks, hv⟩
  | .record required others properties, place, x, hasks, hv => by
      cases x with
      | obj fs =>
          rw [violations, List.mem_append, List.mem_append] at hv
          rcases hv with (hv | hv) | hv
          · exact ⟨place, _, _, hasks, List.mem_append_left _ hv⟩
          · exact exists_asks_of_mem_propertyViolations (fun p hp x => .field hasks hp) hv
          · exact ⟨place, _, _, hasks, List.mem_append_right _ hv⟩
      | _ => exact ⟨place, _, _, hasks, hv⟩
  | .recordOf values, place, x, hasks, hv => by
      cases x with
      | obj fs =>
          rw [violations] at hv
          obtain ⟨f, hf, hv⟩ := List.mem_flatMap.1 hv
          exact exists_asks_of_mem_violations (.value hasks hf) hv
      | _ => exact ⟨place, _, _, hasks, hv⟩
  | .anything, place, x, hasks, hv | .constant n, place, x, hasks, hv
  | .oneOf options, place, x, hasks, hv | .boolean, place, x, hasks, hv
  | .text rule, place, x, hasks, hv | .positiveInteger, place, x, hasks, hv
  | .array, place, x, hasks, hv => ⟨place, _, x, hasks, hv⟩

theorem exists_asks_of_mem_propertyViolations : ∀ {properties : List (String × Schema)}
    {place : Place} {fs : Fields},
    (∀ p ∈ properties, ∀ x, fs.get? p.1 = some x →
      Asks schema document (place ++ [p.1]) p.2 x) →
    v ∈ propertyViolations place fs properties →
      ∃ place s x, Asks schema document place s x ∧ v ∈ ownViolations place s x
  | [], place, fs, hasks, hv => by cases hv
  | (name, s) :: properties, place, fs, hasks, hv => by
      rw [propertyViolations, List.mem_append] at hv
      rw [List.forall_mem_cons] at hasks
      rcases hv with hv | hv
      · cases hget : fs.get? name with
        | none =>
            rw [hget] at hv
            cases hv
        | some x =>
            rw [hget] at hv
            exact exists_asks_of_mem_violations (hasks.1 x hget) hv
      · exact exists_asks_of_mem_propertyViolations hasks.2 hv

end

/-- A value that is asked for brings all its violations. -/
theorem Asks.mem_violations (hasks : Asks schema document place s x)
    (hv : v ∈ violations place s x) : v ∈ violations [] schema document := by
  induction hasks with
  | root => exact hv
  | item _ hitem ih =>
      refine ih ?_
      rw [violations]
      exact List.mem_flatMap.2 ⟨(_, _), List.mem_zipIdx_iff_getElem?.2 hitem, hv⟩
  | field _ hp hget ih =>
      refine ih ?_
      rw [violations, propertyViolations_eq_flatMap]
      refine List.mem_append_left _ (List.mem_append_right _ (List.mem_flatMap.2 ⟨_, hp, ?_⟩))
      rw [hget]
      exact hv
  | value _ hf ih =>
      refine ih ?_
      rw [violations]
      exact List.mem_flatMap.2 ⟨_, hf, hv⟩

theorem mem_violations_of_mem_ownViolations (hv : v ∈ ownViolations place s x) :
    v ∈ violations place s x := by
  rw [ownViolations.eq_def] at hv
  split at hv
  · cases hv
  · rw [violations, List.append_assoc]
    rcases List.mem_append.1 hv with hv | hv
    · exact List.mem_append_left _ hv
    · exact List.mem_append_right _ (List.mem_append_right _ hv)
  · cases hv
  · exact hv

/-- Every violation of a document is one of a value itself. -/
theorem mem_violations_iff : v ∈ violations [] schema document ↔
    ∃ place s x, Asks schema document place s x ∧ v ∈ ownViolations place s x := by
  constructor
  · exact exists_asks_of_mem_violations .root
  · rintro ⟨place, s, x, hasks, hv⟩
    exact hasks.mem_violations (mem_violations_of_mem_ownViolations hv)

/-! ## Places of values -/

/-- What is asked for at a place stands there. -/
theorem Asks.at? (hasks : Asks schema document place s x) (hdoc : document.WellFormed) :
    document.at? place = some x ∧ x.WellFormed := by
  induction hasks with
  | root => exact ⟨rfl, hdoc⟩
  | item _ hitem ih =>
      obtain ⟨hplace, hxs⟩ := ih
      rw [Json.at?_concat, hplace, Option.bind_some, Json.child?_arr_toString]
      exact ⟨hitem, Json.wellFormedItems_iff.1 hxs _ (List.mem_of_getElem? hitem)⟩
  | field _ _ hget ih =>
      obtain ⟨hplace, hfs⟩ := ih
      rw [Json.at?_concat, hplace]
      exact ⟨hget, hfs.of_get? hget⟩
  | value _ hf ih =>
      obtain ⟨hplace, hfs⟩ := ih
      rw [Json.at?_concat, hplace]
      exact ⟨Fields.get?_of_mem hfs.1 hf, Json.wellFormedFields_iff.1 hfs.2 _ hf⟩

/-- A field of an object that is not among its properties, although others are
forbidden. -/
def Undeclared (schema : Schema) (document : Json) (place : Place) (key : String) (x : Json) :
    Prop :=
  ∃ required properties, ∃ fs : Fields,
    Asks schema document place (.record required .forbidden properties) (.obj fs) ∧
      (key, x) ∈ fs ∧ key ∉ properties.map Prod.fst

mutual

/-- The fields that the records of a schema require. -/
def requiredNames : Schema → List String
  | .arrayOf items => requiredNames items
  | .record required _ properties => required ++ requiredNamesOfProperties properties
  | .recordOf values => requiredNames values
  | _ => []

/-- The fields that the records in the shapes of properties require. -/
def requiredNamesOfProperties : List (String × Schema) → List String
  | [] => []
  | (_, schema) :: rest => requiredNames schema ++ requiredNamesOfProperties rest

end

theorem requiredNames_subset_of_mem {properties : List (String × Schema)} {p : String × Schema}
    (hp : p ∈ properties) : requiredNames p.2 ⊆ requiredNamesOfProperties properties := by
  induction properties with
  | nil => cases hp
  | cons q properties ih =>
      rw [requiredNamesOfProperties]
      rcases List.mem_cons.1 hp with rfl | hp
      · exact List.subset_append_left _ _
      · exact List.subset_append_of_subset_right _ (ih hp)

theorem Asks.requiredNames_subset (hasks : Asks schema document place s x) :
    requiredNames s ⊆ requiredNames schema := by
  induction hasks with
  | root => exact List.Subset.refl _
  | item _ _ ih | value _ _ ih =>
      rw [requiredNames] at ih
      exact ih
  | field _ hp _ ih =>
      rw [requiredNames] at ih
      refine List.Subset.trans (requiredNames_subset_of_mem hp) (List.Subset.trans ?_ ih)
      exact List.subset_append_right _ _

theorem mem_unknownKeys_iff {others : OtherKeys} {names : List String} {fs : Fields} :
    v ∈ unknownKeys place others names fs ↔
      others = .forbidden ∧ ∃ f ∈ fs, f.1 ∉ names ∧ v = unknown place f.1 := by
  cases others with
  | forbidden =>
      constructor
      · intro hv
        obtain ⟨key, hkey, rfl⟩ := List.mem_map.1 hv
        obtain ⟨hkey, hnew⟩ := List.mem_filter.1 hkey
        obtain ⟨f, hf, rfl⟩ := List.mem_map.1 hkey
        exact ⟨rfl, f, hf, by simpa using hnew, rfl⟩
      · rintro ⟨-, f, hf, hnew, rfl⟩
        refine List.mem_map_of_mem (List.mem_filter.2 ⟨List.mem_map_of_mem hf, ?_⟩)
        simpa using hnew
  | _ => simp [unknownKeys]

/-- An undeclared field is reported under its key. -/
theorem Undeclared.mem_violations {key : String} (h : Undeclared schema document place key x) :
    unknown place key ∈ violations [] schema document := by
  obtain ⟨required, properties, fs, hasks, hmem, hnew⟩ := h
  refine mem_violations_iff.2 ⟨place, _, _, hasks, List.mem_append_right _ ?_⟩
  exact mem_unknownKeys_iff.2 ⟨rfl, (key, x), hmem, hnew, rfl⟩

theorem Undeclared.at? {key : String} (h : Undeclared schema document place key x)
    (hdoc : document.WellFormed) : document.at? (place ++ [key]) = some x := by
  obtain ⟨required, properties, fs, hasks, hmem, -⟩ := h
  obtain ⟨hplace, hfs⟩ := hasks.at? hdoc
  rw [Json.at?_concat, hplace]
  exact Fields.get?_of_mem hfs.1 hmem

/-- A violation at a place, neither of an absent nor of an undeclared field. -/
def IsBroken (place : Place) (v : Violation) : Prop :=
  ∃ kind message, kind ≠ .missing ∧ kind ≠ .unknownKey ∧ v = broken place kind message

theorem isBroken_of_mem_wrongType {y : Json} {type : String} (hv : v ∈ [wrongType place y type]) :
    IsBroken place v :=
  ⟨.type, _, by decide, by decide, List.mem_singleton.1 hv⟩

theorem isBroken_of_mem_ite {c : Prop} [Decidable c] {kind : Violation.Kind} {message : String}
    (hmissing : kind ≠ .missing) (hunknown : kind ≠ .unknownKey)
    (hv : v ∈ if c then [] else [broken place kind message]) : IsBroken place v :=
  ⟨kind, message, hmissing, hunknown, List.mem_singleton.1 (List.mem_ite_nil_left.1 hv).2⟩

theorem isBroken_of_mem_textViolations {rule : TextRule} (hv : v ∈ textViolations place rule x) :
    IsBroken place v := by
  cases x with
  | str text =>
      rw [textViolations] at hv
      obtain ⟨-, hv⟩ := List.mem_ite_nil_left.1 hv
      cases hrule : rule.violation text with
      | mk kind message =>
          rw [hrule] at hv
          obtain ⟨hmissing, hunknown⟩ := TextRule.kind_of_violation_eq hrule
          exact ⟨kind, message, hmissing, hunknown, List.mem_singleton.1 hv⟩
  | _ => exact isBroken_of_mem_wrongType hv

theorem isBroken_of_mem_positiveIntegerViolations (hv : v ∈ positiveIntegerViolations place x) :
    IsBroken place v := by
  rw [positiveIntegerViolations, List.mem_append] at hv
  rcases hv with hv | hv
  · exact isBroken_of_mem_wrongType (List.mem_ite_nil_left.1 hv).2
  · exact isBroken_of_mem_ite (by decide) (by decide) hv

/-- A record has violations of its own for absent required fields and for undeclared
keys. Any other value is itself not what the schema asks for. -/
theorem cases_of_mem_ownViolations (hasks : Asks schema document place s x)
    (hv : v ∈ ownViolations place s x) :
    (∃ fs : Fields, ∃ field ∈ schema.requiredNames, x = .obj fs ∧ fs.has field = false ∧
        v = missing place field) ∨
      (∃ key y, Undeclared schema document place key y ∧ v = unknown place key) ∨
      IsBroken place v := by
  cases s with
  | anything => cases hv
  | constant n | oneOf options => exact .inr (.inr (isBroken_of_mem_ite (by decide) (by decide) hv))
  | boolean =>
      cases x with
      | bool b => cases hv
      | _ => exact .inr (.inr (isBroken_of_mem_wrongType hv))
  | text rule => exact .inr (.inr (isBroken_of_mem_textViolations hv))
  | positiveInteger => exact .inr (.inr (isBroken_of_mem_positiveIntegerViolations hv))
  | array | arrayOf items =>
      cases x with
      | arr xs => cases hv
      | _ => exact .inr (.inr (isBroken_of_mem_wrongType hv))
  | record required others properties =>
      cases x with
      | obj fs =>
          rcases List.mem_append.1 hv with hv | hv
          · obtain ⟨field, hfield, rfl⟩ := List.mem_map.1 hv
            obtain ⟨hfield, habsent⟩ := List.mem_filter.1 hfield
            refine .inl ⟨fs, field, hasks.requiredNames_subset ?_, rfl, by simpa using habsent, rfl⟩
            exact List.mem_append_left _ hfield
          · obtain ⟨rfl, f, hf, hnew, rfl⟩ := mem_unknownKeys_iff.1 hv
            exact .inr (.inl ⟨f.1, f.2, ⟨required, properties, fs, hasks, hf, hnew⟩, rfl⟩)
      | _ => exact .inr (.inr (isBroken_of_mem_wrongType hv))
  | recordOf values =>
      cases x with
      | obj fs => cases hv
      | _ => exact .inr (.inr (isBroken_of_mem_wrongType hv))

end Schema

end PromptDoc
