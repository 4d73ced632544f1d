import PromptDoc.Proofs.Prompt.Faithful

/-!
# The parts of a prompt

Inputs, models, assertions and tests are records, so their document forms are
given row by row, and they are faithful because their fields are. A test has a
default for its inputs and one for its assertions, which need room for an empty
record.
-/

namespace PromptDoc

open Yaml

namespace Faithful

theorem text {schema : Schema} : Faithful schema 0 Json.asText? .str :=
  .of_exact Json.asText?_eq_some

theorem truth {schema : Schema} : Faithful schema 0 Json.asBool? .bool :=
  .of_exact Json.asBool?_eq_some

theorem texts {schema : Schema} : Faithful schema 0 Json.asTexts? Fields.ofStrings :=
  .of_exact Json.asTexts?_eq_some

theorem record {schema : Schema} : Faithful schema 0 Json.fields? .obj :=
  .of_exact Json.fields?_eq_some

/-- A value that is taken as it is. -/
theorem value {schema : Schema} : Faithful schema 0 some id :=
  .of_exact fun v w => by simp

end Faithful

theorem Fields.allow?_value (fs : Fields) (name : String) :
    fs.allow? name some = some (fs.get? name) := by
  unfold Fields.allow?
  cases fs.get? name <;> rfl

/-- A record without fields, where no field has to be there. -/
theorem suits_empty {n : Nat} {others : OtherKeys} (properties : List (String × Schema)) :
    Suits (n + 1) (.record [] others properties) (.obj []) := by
  constructor
  · refine Schema.accepts_record_iff.2 ⟨?_, ?_, ?_⟩
    · intro name hname
      cases hname
    · intro p _ v hv
      cases hv
    · intro _ key hkey
      cases hkey
  · refine portable_obj.2 ⟨List.nodup_nil, ?_⟩
    intro f hf
    cases hf

/-- An array without items needs room for itself only. -/
theorem suits_nil {n : Nat} (schema : Schema) : Suits (n + 1) (.arrayOf schema) (.arr []) := by
  constructor
  · refine Schema.accepts_arrayOf_iff.2 ⟨[], rfl, ?_⟩
    intro x hx
    cases hx
  · refine portable_arr.2 ?_
    intro x hx
    cases hx

theorem InputKind.ofName?_eq_some (s : String) (t : InputKind) :
    ofName? s = some t ↔ s = t.name := by
  constructor
  · intro h
    have hname := List.find?_some h
    exact (of_decide_eq_true hname).symm
  · rintro rfl
    cases t <;> rfl

namespace Input

theorem type_eq_some (v : Json) (t : InputKind) :
    v.asText?.bind InputKind.ofName? = some t ↔ v = .str t.name := by
  simp only [Option.bind_eq_some_iff, Json.asText?_eq_some, InputKind.ofName?_eq_some]
  constructor
  · rintro ⟨s, rfl, rfl⟩
    rfl
  · rintro rfl
    exact ⟨t.name, rfl, rfl⟩

theorem faithful_type {schema : Schema} :
    Faithful schema 0 (fun v => v.asText?.bind InputKind.ofName?) fun t => .str t.name :=
  .of_exact type_eq_some

/-- The rows of an input. -/
def rows (i : Input) : List Row :=
  [.present "name" Edition.nonEmpty .str i.name,
    .present "type" (.oneOf (InputKind.all.map InputKind.name)) (fun t => .str t.name) i.type,
    .present "required" .boolean .bool i.required,
    .optional "ref" (.text .any) .str i.reference,
    .optional "description" (.text .any) .str i.description,
    .optional "default" .anything id i.standard]

theorem toJson_eq (i : Input) : i.toJson = .obj (Fields.ofRows i.rows) := by
  simp only [toJson, rows, Fields.ofRows_present, Fields.ofRows_optional, Fields.ofRows_nil,
    List.append_assoc, List.cons_append, List.nil_append, List.append_nil]

theorem nodup_rows (i : Input) : (i.rows.map Row.name).Nodup := by
  show inputOrder.Nodup
  decide

theorem ofJson?_eq_some {v : Json} {i : Input} :
    ofJson? v = some i ↔
      ∃ fs : Fields, v = .obj fs ∧ fs.require? "name" Json.asText? = some i.name ∧
        fs.require? "type" (fun v => v.asText?.bind InputKind.ofName?) = some i.type ∧
        (∃ o, fs.allow? "required" Json.asBool? = some o ∧ i.required = o.getD false) ∧
        fs.allow? "ref" Json.asText? = some i.reference ∧
        fs.allow? "description" Json.asText? = some i.description ∧
        fs.get? "default" = i.standard := by
  simp only [ofJson?, Option.bind_eq_bind, Option.bind_eq_some_iff, Option.pure_def,
    Option.some.injEq, Json.fields?_eq_some]
  constructor
  · rintro ⟨fs, rfl, name, hname, type, htype, required, hrequired, reference, hreference,
      description, hdescription, rfl⟩
    exact ⟨fs, rfl, hname, htype, ⟨required, hrequired, rfl⟩, hreference, hdescription, rfl⟩
  · rintro ⟨fs, rfl, hname, htype, ⟨required, hrequired, heq⟩, hreference, hdescription,
      hstandard⟩
    refine ⟨fs, rfl, _, hname, _, htype, _, hrequired, _, hreference, _, hdescription, ?_⟩
    rw [hstandard, ← heq]

theorem faithful : Faithful Edition.input 0 ofJson? toJson where
  again := by
    intro v i h
    obtain ⟨fs, -, hname, htype, ⟨o, hrequired, ho⟩, hreference, hdescription, -⟩ :=
      ofJson?_eq_some.1 h
    obtain ⟨gs, hgs, hget⟩ := Fields.exists_ofRows i.nodup_rows
    simp only [rows, List.forall_mem_cons] at hget
    obtain ⟨hget₁, hget₂, hget₃, hget₄, hget₅, hget₆, -⟩ := hget
    rw [ho] at hget₃
    rw [toJson_eq, hgs]
    exact ofJson?_eq_some.2 ⟨gs, rfl, Faithful.text.require?_again hname hget₁,
      faithful_type.require?_again htype hget₂,
      ⟨_, Faithful.truth.default_again hrequired rfl hget₃, ho⟩,
      Faithful.text.allow?_again hreference hget₄,
      Faithful.text.allow?_again hdescription hget₅, hget₆.trans Option.map_id'⟩
  suits := by
    intro v i n h hroom hsuits
    obtain ⟨fs, rfl, hname, htype, ⟨o, hrequired, ho⟩, hreference, hdescription, hstandard⟩ :=
      ofJson?_eq_some.1 h
    obtain ⟨m, rfl, hsource⟩ := Fields.exists_of_suits_record hsuits
    simp only [List.forall_mem_cons] at hsource
    obtain ⟨hsource₁, hsource₂, hsource₃, hsource₄, hsource₅, hsource₆, -⟩ := hsource
    have hroom : 0 ≤ m := Nat.zero_le m
    rw [toJson_eq]
    refine Fields.suits_ofRows .forbidden i.nodup_rows ?_ ?_ ?_
    · show ∀ name ∈ inputOrder, KeyFits name
      decide
    · simp [rows, Row.present, Row.optional]
    · simp only [rows, List.forall_mem_cons]
      refine ⟨Faithful.text.fits_present hroom hsource₁ hname,
        faithful_type.fits_present hroom hsource₂ htype, ?_,
        Faithful.text.fits_optional hroom hsource₄ hreference,
        Faithful.text.fits_optional hroom hsource₅ hdescription,
        Faithful.value.fits_optional hroom hsource₆ ?_, List.forall_mem_nil _⟩
      · rw [ho]
        refine Faithful.truth.fits_default hroom hsource₃ hrequired ⟨?_, portable_bool false⟩
        rw [Schema.Accepts]
        exact ⟨false, rfl⟩
      · rw [Fields.allow?_value, hstandard]

end Input

namespace Model

/-- The rows of a model. -/
def rows (x : Model) : List Row :=
  [.present "provider" Edition.nonEmpty .str x.provider,
    .present "name" Edition.nonEmpty .str x.name,
    .optional "params" Edition.free .obj x.params]

theorem toJson_eq (x : Model) : x.toJson = .obj (Fields.ofRows x.rows) := by
  simp only [toJson, rows, Fields.ofRows_present, Fields.ofRows_optional, Fields.ofRows_nil,
    List.cons_append, List.nil_append, List.append_nil]

theorem nodup_rows (x : Model) : (x.rows.map Row.name).Nodup := by
  show ["provider", "name", "params"].Nodup
  decide

theorem ofJson?_eq_some {v : Json} {x : Model} :
    ofJson? v = some x ↔
      ∃ fs : Fields, v = .obj fs ∧ fs.require? "provider" Json.asText? = some x.provider ∧
        fs.require? "name" Json.asText? = some x.name ∧
        fs.allow? "params" Json.fields? = some x.params := by
  simp only [ofJson?, Option.bind_eq_bind, Option.bind_eq_some_iff, Option.pure_def,
    Option.some.injEq, Json.fields?_eq_some v]
  constructor
  · rintro ⟨fs, rfl, provider, hprovider, name, hname, params, hparams, rfl⟩
    exact ⟨fs, rfl, hprovider, hname, hparams⟩
  · rintro ⟨fs, rfl, hprovider, hname, hparams⟩
    exact ⟨fs, rfl, _, hprovider, _, hname, _, hparams, rfl⟩

theorem faithful : Faithful Edition.model 0 ofJson? toJson where
  again := by
    intro v x h
    obtain ⟨fs, -, hprovider, hname, hparams⟩ := ofJson?_eq_some.1 h
    obtain ⟨gs, hgs, hget⟩ := Fields.exists_ofRows x.nodup_rows
    simp only [rows, List.forall_mem_cons] at hget
    obtain ⟨hget₁, hget₂, hget₃, -⟩ := hget
    rw [toJson_eq, hgs]
    exact ofJson?_eq_some.2 ⟨gs, rfl, Faithful.text.require?_again hprovider hget₁,
      Faithful.text.require?_again hname hget₂, Faithful.record.allow?_again hparams hget₃⟩
  suits := by
    intro v x n h hroom hsuits
    obtain ⟨fs, rfl, hprovider, hname, hparams⟩ := ofJson?_eq_some.1 h
    obtain ⟨m, rfl, hsource⟩ := Fields.exists_of_suits_record hsuits
    simp only [List.forall_mem_cons] at hsource
    obtain ⟨hsource₁, hsource₂, hsource₃, -⟩ := hsource
    have hroom : 0 ≤ m := Nat.zero_le m
    rw [toJson_eq]
    refine Fields.suits_ofRows .forbidden x.nodup_rows ?_ ?_ ?_
    · show ∀ name ∈ ["provider", "name", "params"], KeyFits name
      decide
    · simp [rows, Row.present, Row.optional]
    · simp only [rows, List.forall_mem_cons]
      exact ⟨Faithful.text.fits_present hroom hsource₁ hprovider,
        Faithful.text.fits_present hroom hsource₂ hname,
        Faithful.record.fits_optional hroom hsource₃ hparams, List.forall_mem_nil _⟩

end Model

namespace Assertions

/-- The assertions that a test can make. -/
def names : List String :=
  ["contains", "notContains", "maxTokens"]

/-- The rows of assertions. -/
def rows (a : Assertions) : List Row :=
  [.optional "contains" Edition.strings Fields.ofStrings a.contains,
    .optional "notContains" Edition.strings Fields.ofStrings a.notContains,
    .optional "maxTokens" .positiveInteger (fun n : Nat => .int n) a.maxTokens]

theorem toJson_eq (a : Assertions) : a.toJson = .obj (Fields.ofRows a.rows) := by
  have hmax : Fields.optional "maxTokens" (fun n => .int n) a.maxTokens =
      Fields.optional "maxTokens" (fun n : Nat => .int n) a.maxTokens := by
    cases a.maxTokens <;> rfl
  simp only [toJson, rows, Fields.ofRows_optional, Fields.ofRows_nil, List.append_assoc,
    List.append_nil, hmax]

theorem names_rows (a : Assertions) : a.rows.map Row.name = names :=
  rfl

theorem nodup_rows (a : Assertions) : (a.rows.map Row.name).Nodup := by
  rw [names_rows]
  decide

theorem ofJson?_eq_some {v : Json} {a : Assertions} :
    ofJson? v = some a ↔
      ∃ fs : Fields, v = .obj fs ∧ fs.allow? "contains" Json.asTexts? = some a.contains ∧
        fs.allow? "notContains" Json.asTexts? = some a.notContains ∧
        fs.allow? "maxTokens" Json.asCount? = some a.maxTokens := by
  simp only [ofJson?, Option.bind_eq_bind, Option.bind_eq_some_iff, Option.pure_def,
    Option.some.injEq, Json.fields?_eq_some]
  constructor
  · rintro ⟨fs, rfl, contains, hcontains, notContains, hnot, maxTokens, hmax, rfl⟩
    exact ⟨fs, rfl, hcontains, hnot, hmax⟩
  · rintro ⟨fs, rfl, hcontains, hnot, hmax⟩
    exact ⟨fs, rfl, _, hcontains, _, hnot, _, hmax, rfl⟩

theorem faithful : Faithful Edition.assertions 0 ofJson? toJson where
  again := by
    intro v a h
    obtain ⟨fs, -, hcontains, hnot, hmax⟩ := ofJson?_eq_some.1 h
    obtain ⟨gs, hgs, hget⟩ := Fields.exists_ofRows a.nodup_rows
    simp only [rows, List.forall_mem_cons] at hget
    obtain ⟨hget₁, hget₂, hget₃, -⟩ := hget
    rw [toJson_eq, hgs]
    exact ofJson?_eq_some.2 ⟨gs, rfl, Faithful.texts.allow?_again hcontains hget₁,
      Faithful.texts.allow?_again hnot hget₂, Json.faithful_count.allow?_again hmax hget₃⟩
  suits := by
    intro v a n h hroom hsuits
    obtain ⟨fs, rfl, hcontains, hnot, hmax⟩ := ofJson?_eq_some.1 h
    obtain ⟨m, rfl, hsource⟩ := Fields.exists_of_suits_record hsuits
    simp only [List.forall_mem_cons] at hsource
    obtain ⟨hsource₁, hsource₂, hsource₃, -⟩ := hsource
    have hroom : 0 ≤ m := Nat.zero_le m
    rw [toJson_eq]
    refine Fields.suits_ofRows .unspecified a.nodup_rows ?_ (List.forall_mem_nil _) ?_
    · show ∀ name ∈ ["contains", "notContains", "maxTokens"], KeyFits name
      decide
    · simp only [rows, List.forall_mem_cons]
      exact ⟨Faithful.texts.fits_optional hroom hsource₁ hcontains,
        Faithful.texts.fits_optional hroom hsource₂ hnot,
        Json.faithful_count.fits_optional hroom hsource₃ hmax, List.forall_mem_nil _⟩

end Assertions

namespace TestCase

/-- The rows of a test. -/
def rows (t : TestCase) : List Row :=
  [.present "name" Edition.nonEmpty .str t.name, .present "with" Edition.free .obj t.inputs,
    .present "assert" Edition.assertions Assertions.toJson t.assertions]

theorem toJson_eq (t : TestCase) : t.toJson = .obj (Fields.ofRows t.rows) :=
  rfl

theorem nodup_rows (t : TestCase) : (t.rows.map Row.name).Nodup := by
  show ["name", "with", "assert"].Nodup
  decide

theorem ofJson?_eq_some {v : Json} {t : TestCase} :
    ofJson? v = some t ↔
      ∃ fs : Fields, v = .obj fs ∧ fs.require? "name" Json.asText? = some t.name ∧
        (∃ o, fs.allow? "with" Json.fields? = some o ∧ t.inputs = o.getD []) ∧
        ∃ o, fs.allow? "assert" Assertions.ofJson? = some o ∧ t.assertions = o.getD .none := by
  simp only [ofJson?, Option.bind_eq_bind, Option.bind_eq_some_iff, Option.pure_def,
    Option.some.injEq, Json.fields?_eq_some v]
  constructor
  · rintro ⟨fs, rfl, name, hname, inputs, hinputs, assertions, hassertions, rfl⟩
    exact ⟨fs, rfl, hname, ⟨inputs, hinputs, rfl⟩, assertions, hassertions, rfl⟩
  · rintro ⟨fs, rfl, hname, ⟨inputs, hinputs, hi⟩, assertions, hassertions, ha⟩
    refine ⟨fs, rfl, _, hname, _, hinputs, _, hassertions, ?_⟩
    rw [← hi, ← ha]

theorem faithful : Faithful Edition.test 2 ofJson? toJson where
  again := by
    intro v t h
    obtain ⟨fs, -, hname, ⟨o, hinputs, ho⟩, p, hassertions, hp⟩ := ofJson?_eq_some.1 h
    obtain ⟨gs, hgs, hget⟩ := Fields.exists_ofRows t.nodup_rows
    simp only [rows, List.forall_mem_cons] at hget
    obtain ⟨hget₁, hget₂, hget₃, -⟩ := hget
    rw [ho] at hget₂
    rw [hp] at hget₃
    rw [toJson_eq, hgs]
    exact ofJson?_eq_some.2 ⟨gs, rfl, Faithful.text.require?_again hname hget₁,
      ⟨_, Faithful.record.default_again hinputs rfl hget₂, ho⟩,
      _, Assertions.faithful.default_again hassertions rfl hget₃, hp⟩
  suits := by
    intro v t n h hroom hsuits
    obtain ⟨fs, rfl, hname, ⟨o, hinputs, ho⟩, p, hassertions, hp⟩ := ofJson?_eq_some.1 h
    obtain ⟨m, rfl, hsource⟩ := Fields.exists_of_suits_record hsuits
    simp only [List.forall_mem_cons] at hsource
    obtain ⟨hsource₁, hsource₂, hsource₃, -⟩ := hsource
    obtain ⟨k, rfl⟩ : ∃ k, m = k + 1 := ⟨m - 1, by omega⟩
    have hroom : 0 ≤ k + 1 := Nat.zero_le (k + 1)
    rw [toJson_eq]
    refine Fields.suits_ofRows .forbidden t.nodup_rows ?_ ?_ ?_
    · show ∀ name ∈ ["name", "with", "assert"], KeyFits name
      decide
    · simp [rows, Row.present]
    · simp only [rows, List.forall_mem_cons]
      refine ⟨Faithful.text.fits_present hroom hsource₁ hname, ?_, ?_, List.forall_mem_nil _⟩
      · rw [ho]
        exact Faithful.record.fits_default hroom hsource₂ hinputs (suits_empty _)
      · rw [hp]
        exact Assertions.faithful.fits_default hroom hsource₃ hassertions (suits_empty _)

end TestCase

end PromptDoc
