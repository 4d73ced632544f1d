import Mathlib.Data.List.Nodup
import PromptDoc.Proofs.Decimal.Rational
import PromptDoc.Proofs.Json.Related
import PromptDoc.Proofs.Prompt.RoundTrip

/-!
# What a prompt keeps of its document

The document form of a parsed prompt holds what the document declared.
`Prompt.Keeps` says so field by field: values are the same, inputs and tests
stand in their order and only get what has a default, a bound for tokens denotes
the same number, and nothing else is there (`keeps_of_parse`). Where a record was
decoded field by field, its rows are the fields that it came from, in the order in
which they are written (`Fields.perm_ofRows`).
-/

namespace PromptDoc

namespace Fields

/-- The fields, with a default under a key that is absent. -/
def withDefault (fs : Fields) (key : String) (value : Json) : Fields :=
  if fs.has key then fs else fs.insert key value

theorem get?_withDefault (fs : Fields) (key other : String) (value : Json) :
    (fs.withDefault key value).get? other =
      if other = key then some ((fs.get? key).getD value) else fs.get? other := by
  rw [withDefault, has]
  cases hget : fs.get? key with
  | none => exact get?_insert fs key other value
  | some v =>
      simp only [Option.isSome_some, if_true, Option.getD_some]
      split
      · next heq => rw [heq, hget]
      · rfl

theorem nodup_keys_withDefault {fs : Fields} (h : fs.keys.Nodup) (key : String) (value : Json) :
    (fs.withDefault key value).keys.Nodup := by
  rw [withDefault]
  split
  · exact h
  · exact nodup_keys_insert h key value

/-- Where keys are apart, look-ups say which fields there are. -/
theorem perm_of_get?_eq {fs gs : Fields} (hfs : fs.keys.Nodup) (hgs : gs.keys.Nodup)
    (h : ∀ key, fs.get? key = gs.get? key) : fs.Perm gs := by
  refine (List.perm_ext_iff_of_nodup (List.Nodup.of_map _ hfs)
    (List.Nodup.of_map _ hgs)).2 ?_
  rintro ⟨key, v⟩
  constructor
  · intro hmem
    exact mem_of_get? ((h key).symm.trans (get?_of_mem hfs hmem))
  · intro hmem
    exact mem_of_get? ((h key).trans (get?_of_mem hgs hmem))

/-- Rows are the fields of a record that has no others and the values of the rows. -/
theorem perm_ofRows {rows : List Row} {fs : Fields} (hnames : (rows.map Row.name).Nodup)
    (hkeys : fs.keys.Nodup)
    (hdeclared : ∀ key, key ∉ rows.map Row.name → fs.get? key = none)
    (hvalues : ∀ r ∈ rows, fs.get? r.name = r.value) : (ofRows rows).Perm fs := by
  refine perm_of_get?_eq (hnames.sublist (keys_ofRows_sublist rows)) hkeys fun key => ?_
  by_cases hkey : key ∈ rows.map Row.name
  · obtain ⟨r, hr, rfl⟩ := List.mem_map.1 hkey
    rw [get?_ofRows hnames hr, hvalues r hr]
  · rw [hdeclared key hkey]
    exact get?_eq_none fun hmem => hkey ((keys_ofRows_sublist rows).subset hmem)

theorem rel_of_allow? {α : Type} {decode : Json → Option α} {fs : Fields} {name : String}
    {o : Option α} (h : fs.allow? name decode = some o) :
    Option.Rel (fun v a => decode v = some a) (fs.get? name) o := by
  rw [allow?] at h
  generalize fs.get? name = v at h
  cases v with
  | none => exact Option.some.inj h ▸ .none
  | some v =>
      obtain ⟨a, ha, rfl⟩ := Option.map_eq_some_iff.1 h
      exact .some ha

section

variable {α : Type} {decode : Json → Option α} {encode : α → Json} {fs : Fields} {name : String}
  (hexact : ∀ v a, decode v = some a ↔ v = encode a)

include hexact

theorem get?_of_require? {a : α} (h : fs.require? name decode = some a) :
    fs.get? name = some (encode a) := by
  obtain ⟨v, hv, ha⟩ := Option.bind_eq_some_iff.1 h
  rw [hv, (hexact v a).1 ha]

theorem get?_of_allow? {o : Option α} (h : fs.allow? name decode = some o) :
    fs.get? name = o.map encode := by
  have hrel := rel_of_allow? h
  generalize fs.get? name = v at hrel
  cases hrel with
  | none => rfl
  | some ha => rw [(hexact _ _).1 ha, Option.map_some]

/-- The default of a field in its encoding. -/
theorem get?_withDefault_of_allow? {o : Option α} (h : fs.allow? name decode = some o) (a : α) :
    (fs.withDefault name (encode a)).get? name = some (encode (o.getD a)) := by
  rw [get?_withDefault, if_pos rfl, get?_of_allow? hexact h]
  cases o <;> rfl

end

end Fields

/-- A positive integer, written either way, is a number of that kind. -/
theorem Schema.accepts_positiveInteger_iff {v : Json} :
    Accepts .positiveInteger v ↔ ∃ n : Int, v.asRat? = some (n : ℚ) ∧ 0 < n := by
  rw [Accepts]
  cases v with
  | int n => simp [Json.isInteger, Json.isPositiveOrOther, Json.asRat?]
  | float x =>
      have hpos : ∀ n : Int, x.toRat = n → ((Json.float x).isPositiveOrOther = true ↔ 0 < n) := by
        intro n hn
        have hcast : (0 : ℚ) < n ↔ 0 < n := Int.cast_pos
        rw [← hcast, ← hn, Binary64.toRat_pos_iff]
        simp [Json.isPositiveOrOther]
      simp only [Json.isInteger, Json.asRat?, Option.some.injEq, Option.isSome_iff_exists,
        Binary64.toInt?_eq_some_iff]
      constructor
      · rintro ⟨⟨n, hn⟩, hpositive⟩
        exact ⟨n, hn, (hpos n hn).1 hpositive⟩
      · rintro ⟨n, hn, hpositive⟩
        exact ⟨⟨n, hn⟩, (hpos n hn).2 hpositive⟩
  | _ => simp [Json.isInteger, Json.asRat?]

namespace Prompt

/-- An input and its document form: the same fields and whether it is required. -/
def KeepsInput (v w : Json) : Prop :=
  ∃ fs gs : Fields, v = .obj fs ∧ w = .obj gs ∧
    gs.Perm (fs.withDefault "required" (.bool false))

/-- A model and its document form: the same fields. -/
def KeepsModel (v w : Json) : Prop :=
  ∃ fs gs : Fields, v = .obj fs ∧ w = .obj gs ∧ gs.Perm fs

/-- Two values that denote the same number. -/
def SameNumber (v w : Json) : Prop :=
  ∃ q, v.asRat? = some q ∧ w.asRat? = some q

/-- Assertions and their document form: the declared ones are the same, and the
bound for tokens is the same number. -/
structure KeepsAssertions (fs gs : Fields) : Prop where
  keys_nodup : gs.keys.Nodup
  contains : gs.get? "contains" = fs.get? "contains"
  notContains : gs.get? "notContains" = fs.get? "notContains"
  maxTokens : Option.Rel SameNumber (fs.get? "maxTokens") (gs.get? "maxTokens")
  undeclared : ∀ key, key ∉ Assertions.names → gs.get? key = none

/-- A test and its document form: the same fields, with inputs and assertions. -/
def KeepsTest (v w : Json) : Prop :=
  ∃ fs gs as bs : Fields, v = .obj fs ∧ w = .obj gs ∧
    (fs.get? "assert").getD (.obj []) = .obj as ∧ KeepsAssertions as bs ∧
    gs.Perm ((fs.withDefault "with" (.obj [])).insert "assert" (.obj bs))

/-- Arrays whose items are kept, one by one. -/
def KeepsItems (K : Json → Json → Prop) (v w : Json) : Prop :=
  ∃ xs ys, v = .arr xs ∧ w = .arr ys ∧ List.Forall₂ K xs ys

/-- The root fields that are not taken over as they are. -/
def rebuilt : List String :=
  ["version", "inputs", "model", "tests", "tags"]

/-- The root fields of a document and those of the document form of its prompt. -/
structure Keeps (fs gs : Fields) : Prop where
  keys_nodup : gs.keys.Nodup
  version : gs.get? "version" = some (.int 2)
  inputs : ∃ w, gs.get? "inputs" = some w ∧
    KeepsItems KeepsInput ((fs.get? "inputs").getD (.arr [])) w
  model : Option.Rel KeepsModel (fs.get? "model") (gs.get? "model")
  tests : Option.Rel (KeepsItems KeepsTest) (fs.get? "tests") (gs.get? "tests")
  tags : gs.get? "tags" = some ((fs.get? "tags").getD (.arr []))
  /-- All other declared fields. -/
  same : ∀ key ∈ rootOrder, key ∉ rebuilt → gs.get? key = fs.get? key
  undeclared : ∀ key, key ∉ rootOrder → gs.get? key = none

/-! ## Parts -/

/-- A record that its schema accepts has no keys that are not declared. -/
theorem get?_eq_none_of_accepts {required : List String} {properties : List (String × Schema)}
    {fs : Fields} (h : (Schema.record required .forbidden properties).Accepts (.obj fs))
    {key : String} (hkey : key ∉ properties.map Prod.fst) : fs.get? key = none := by
  obtain ⟨-, -, hothers⟩ := Schema.accepts_record_iff.1 h
  exact Fields.get?_eq_none fun hmem => hkey (hothers rfl key hmem)

theorem keepsInput_toJson {v : Json} {i : Input} (hv : v.WellFormed)
    (haccepts : Edition.input.Accepts v) (h : Input.ofJson? v = some i) :
    KeepsInput v i.toJson := by
  obtain ⟨fs, rfl, hname, htype, ⟨o, hrequired, ho⟩, href, hdescription, hdefault⟩ :=
    Input.ofJson?_eq_some.1 h
  have hother : ∀ key, key ≠ "required" →
      (fs.withDefault "required" (.bool false)).get? key = fs.get? key :=
    fun key hkey => (Fields.get?_withDefault _ _ _ _).trans (if_neg hkey)
  refine ⟨fs, _, rfl, i.toJson_eq, Fields.perm_ofRows i.nodup_rows
    (Fields.nodup_keys_withDefault hv.1 _ _) (fun key hkey => ?_) ?_⟩
  · rw [hother]
    · exact get?_eq_none_of_accepts haccepts hkey
    · rintro rfl
      exact hkey (show "required" ∈ inputOrder by decide)
  · simp only [Input.rows, List.forall_mem_cons, Row.present, Row.optional]
    refine ⟨(hother _ (by decide)).trans (Fields.get?_of_require? Json.asText?_eq_some hname),
      (hother _ (by decide)).trans (Fields.get?_of_require? Input.type_eq_some htype), ?_,
      (hother _ (by decide)).trans (Fields.get?_of_allow? Json.asText?_eq_some href),
      (hother _ (by decide)).trans (Fields.get?_of_allow? Json.asText?_eq_some hdescription),
      (hother _ (by decide)).trans (hdefault.trans Option.map_id'.symm), List.forall_mem_nil _⟩
    rw [ho]
    exact Fields.get?_withDefault_of_allow? Json.asBool?_eq_some hrequired false

/-- A count is the number that it was read from. -/
theorem sameNumber_of_asCount? {v : Json} {n : Nat} (h : v.asCount? = some n) :
    SameNumber v (.int n) := by
  refine ⟨n, ?_, by simp [Json.asRat?]⟩
  obtain ⟨-, rfl | ⟨x, rfl, hx⟩⟩ := Json.asCount?_eq_some.1 h
  · simp [Json.asRat?]
  · simpa [Json.asRat?] using Binary64.toInt?_eq_some_iff.1 hx

theorem keepsAssertions_rows {fs : Fields} {a : Assertions}
    (h : Assertions.ofJson? (.obj fs) = some a) : KeepsAssertions fs (Fields.ofRows a.rows) := by
  obtain ⟨gs, heq, hcontains, hnot, hmax⟩ := Assertions.ofJson?_eq_some.1 h
  obtain rfl := Json.obj.inj heq
  have hsublist := Fields.keys_ofRows_sublist a.rows
  obtain ⟨gs, hgs, hget⟩ := Fields.exists_ofRows a.nodup_rows
  simp only [Assertions.rows, List.forall_mem_cons, Row.optional] at hget
  obtain ⟨hget₁, hget₂, hget₃, -⟩ := hget
  rw [hgs] at hsublist ⊢
  refine ⟨a.nodup_rows.sublist hsublist, ?_, ?_, ?_, ?_⟩
  · rw [hget₁, Fields.get?_of_allow? Json.asTexts?_eq_some hcontains]
  · rw [hget₂, Fields.get?_of_allow? Json.asTexts?_eq_some hnot]
  · rw [hget₃]
    refine rel_map (rel_imp (Fields.rel_of_allow? hmax) fun v n _ hn => ?_)
    exact sameNumber_of_asCount? hn
  · intro key hkey
    exact Fields.get?_eq_none fun hmem => hkey (hsublist.subset hmem)

theorem keepsModel_toJson {v : Json} {m : Model} (hv : v.WellFormed)
    (haccepts : Edition.model.Accepts v) (h : Model.ofJson? v = some m) :
    KeepsModel v m.toJson := by
  obtain ⟨fs, rfl, hprovider, hname, hparams⟩ := Model.ofJson?_eq_some.1 h
  refine ⟨fs, _, rfl, m.toJson_eq, Fields.perm_ofRows m.nodup_rows hv.1
    (fun key hkey => get?_eq_none_of_accepts haccepts hkey) ?_⟩
  simp only [Model.rows, List.forall_mem_cons]
  exact ⟨Fields.get?_of_require? Json.asText?_eq_some hprovider,
    Fields.get?_of_require? Json.asText?_eq_some hname,
    Fields.get?_of_allow? Json.fields?_eq_some hparams, List.forall_mem_nil _⟩

theorem keepsTest_toJson {v : Json} {t : TestCase} (hv : v.WellFormed)
    (haccepts : Edition.test.Accepts v) (h : TestCase.ofJson? v = some t) :
    KeepsTest v t.toJson := by
  obtain ⟨fs, rfl, hname, ⟨o, hwith, ho⟩, o', hassert, ho'⟩ := TestCase.ofJson?_eq_some.1 h
  obtain ⟨as, has, hdecoded⟩ : ∃ as : Fields, (fs.get? "assert").getD (.obj []) = .obj as ∧
      Assertions.ofJson? (.obj as) = some t.assertions := by
    have hrel := Fields.rel_of_allow? hassert
    generalize fs.get? "assert" = x at hrel
    cases hrel with
    | none => exact ⟨[], rfl, ho' ▸ rfl⟩
    | some ha =>
        obtain ⟨as, rfl, -⟩ := Assertions.ofJson?_eq_some.1 ha
        exact ⟨as, rfl, ho' ▸ ha⟩
  have hother : ∀ (bs : Fields) (key : String), key ≠ "assert" →
      ((fs.withDefault "with" (.obj [])).insert "assert" (.obj bs)).get? key =
        (fs.withDefault "with" (.obj [])).get? key :=
    fun bs key hkey => (Fields.get?_insert _ _ _ _).trans (if_neg hkey)
  refine ⟨fs, _, as, _, rfl, t.toJson_eq, has, keepsAssertions_rows hdecoded,
    Fields.perm_ofRows t.nodup_rows
      (Fields.nodup_keys_insert (Fields.nodup_keys_withDefault hv.1 _ _) _ _)
      (fun key hkey => ?_) ?_⟩
  · have hne : key ≠ "name" ∧ key ≠ "with" ∧ key ≠ "assert" := by
      simpa [TestCase.rows, Row.present] using hkey
    rw [hother _ _ hne.2.2, Fields.get?_withDefault, if_neg hne.2.1]
    exact get?_eq_none_of_accepts haccepts hkey
  · simp only [TestCase.rows, List.forall_mem_cons, Row.present]
    refine ⟨?_, ?_, ?_, List.forall_mem_nil _⟩
    · rw [hother _ _ (by decide), Fields.get?_withDefault, if_neg (by decide)]
      exact Fields.get?_of_require? Json.asText?_eq_some hname
    · rw [hother _ _ (by decide), ho]
      exact Fields.get?_withDefault_of_allow? Json.fields?_eq_some hwith []
    · rw [Fields.get?_insert, if_pos rfl, Assertions.toJson_eq]

/-- Arrays are kept when their items are. -/
theorem keepsItems_toJson {α : Type} {items : Schema} {decode : Json → Option α}
    {encode : α → Json} {K : Json → Json → Prop}
    (hitem : ∀ {v a}, v.WellFormed → items.Accepts v → decode v = some a → K v (encode a))
    {v : Json} {as : List α} (hv : v.WellFormed) (haccepts : (Schema.arrayOf items).Accepts v)
    (h : v.items?.bind (·.mapM decode) = some as) : KeepsItems K v (.arr (as.map encode)) := by
  obtain ⟨xs, hxs, has⟩ := Option.bind_eq_some_iff.1 h
  obtain rfl := (Json.items?_eq_some v xs).1 hxs
  obtain ⟨ys, heq, haccepts⟩ := Schema.accepts_arrayOf_iff.1 haccepts
  obtain rfl := Json.arr.inj heq
  refine ⟨xs, _, rfl, rfl, List.forall₂_map_right_iff.2 ?_⟩
  refine forall₂_imp_of_mem (Json.mapM_eq_some_iff.1 has) fun x hx a => ?_
  exact hitem (Json.wellFormedItems_iff.1 hv x hx) (haccepts x hx)

/-! ## Documents -/

/-- Most rows of a decoded prompt are the fields that they were decoded from, whatever
version it is given. -/
theorem get?_eq_value {fs : Fields} {q : Prompt} (h : DecodedFrom fs q) (n : Nat) :
    ∀ r ∈ { q with version := n }.rows, r.name ∉ rebuilt → fs.get? r.name = r.value := by
  have skip : ∀ {r : Row}, r.name ∈ rebuilt → r.name ∉ rebuilt → fs.get? r.name = r.value :=
    fun hmem hname => absurd hmem hname
  have htext := Json.asText?_eq_some
  have hrecord := Json.fields?_eq_some
  simp only [rows, List.forall_mem_cons]
  exact ⟨skip (by simp [Row.present, rebuilt]), fun _ => Fields.get?_of_require? htext h.id,
    fun _ => Fields.get?_of_require? htext h.name, fun _ => Fields.get?_of_allow? htext h.slug,
    fun _ => Fields.get?_of_require? htext h.template, skip (by simp [Row.present, rebuilt]),
    skip (by simp [Row.optional, rebuilt]), fun _ => Fields.get?_of_allow? hrecord h.controls,
    fun _ => Fields.get?_of_allow? (Json.asNamed?_eq_some Json.asTexts?_eq_some) h.enums,
    fun _ => Fields.get?_of_allow? (Json.asNamed?_eq_some (Json.asNamed?_eq_some htext)) h.labels,
    fun _ => Fields.get?_of_allow? hrecord h.metadata, skip (by simp [Row.optional, rebuilt]),
    fun _ => Fields.get?_of_allow? hrecord h.context,
    fun _ => Fields.get?_of_allow? hrecord h.policies, skip (by simp [Row.present, rebuilt]),
    fun _ => Fields.get?_of_allow? Json.items?_eq_some h.snapshots,
    fun _ => Fields.get?_of_allow? htext h.frameworkRef, List.forall_mem_nil _⟩

/-- What was decoded from the tagged fields of a document keeps the fields of the
document. -/
theorem keeps_of_decodedFrom {ds fs : Fields} {q : Prompt} (h : DecodedFrom fs q)
    (hsource : ∀ key, key ≠ "version" → fs.get? key = ds.get? key)
    (hd : (Json.obj ds).WellFormed) {e : Edition} (haccepts : e.schema.Accepts (.obj fs)) :
    Keeps ds { q with version := Version.latest.number }.toFields := by
  obtain ⟨gs, hgs, hget⟩ :=
    Fields.exists_ofRows { q with version := Version.latest.number }.nodup_rows
  have hsublist := Fields.keys_ofRows_sublist { q with version := Version.latest.number }.rows
  have hrows := hget
  simp only [rows, List.forall_mem_cons, Row.present, Row.optional] at hrows
  obtain ⟨hversion, -, -, -, -, hinputs, hmodel, -, -, -, -, htests, -, -, htags, -⟩ := hrows
  rw [toFields_eq, hgs]
  rw [hgs, names_rows] at hsublist
  have hschema : ∀ p ∈ Edition.properties e.version, p.1 ≠ "version" →
      ∀ v, ds.get? p.1 = some v → p.2.Accepts v := by
    intro p hp hname v hv
    exact (Schema.accepts_record_iff.1 haccepts).2.1 p hp v ((hsource _ hname).trans hv)
  exact {
    keys_nodup := (show rootOrder.Nodup by decide).sublist hsublist
    version := hversion
    inputs := by
      obtain ⟨o, hread, ho⟩ := h.inputs
      have hrel := Fields.rel_of_allow? hread
      rw [hsource _ (by decide)] at hrel
      refine ⟨_, hinputs, ?_⟩
      rw [ho]
      cases hv : ds.get? "inputs" with
      | none =>
          rw [hv] at hrel
          cases hrel
          exact ⟨[], [], rfl, rfl, .nil⟩
      | some v =>
          rw [hv] at hrel
          cases hrel with
          | some his =>
              exact keepsItems_toJson keepsInput_toJson (hd.of_get? hv)
                (hschema ("inputs", .arrayOf Edition.input) (by simp [Edition.properties])
                  (by decide) v hv) his
    model := by
      have hrel := Fields.rel_of_allow? h.model
      rw [hsource _ (by decide)] at hrel
      rw [hmodel]
      refine rel_map (rel_imp hrel fun v m hv hm => keepsModel_toJson (hd.of_get? hv) ?_ hm)
      exact hschema ("model", Edition.model) (by simp [Edition.properties]) (by decide) v hv
    tests := by
      have hrel := Fields.rel_of_allow? h.tests
      rw [hsource _ (by decide)] at hrel
      rw [htests]
      refine rel_map (rel_imp hrel fun v ts hv hts =>
        keepsItems_toJson keepsTest_toJson (hd.of_get? hv) ?_ hts)
      exact hschema ("tests", .arrayOf Edition.test) (by simp [Edition.properties]) (by decide) v hv
    tags := by
      obtain ⟨o, hread, ho⟩ := h.tags
      have hvalue := Fields.get?_of_allow? Json.asTexts?_eq_some hread
      rw [hsource _ (by decide)] at hvalue
      rw [htags, ho, hvalue]
      cases o <;> rfl
    same := by
      intro key hkey hname
      rw [← names_rows { q with version := Version.latest.number }] at hkey
      obtain ⟨r, hr, rfl⟩ := List.mem_map.1 hkey
      have hversion : r.name ≠ "version" := fun heq => hname (heq ▸ by decide)
      rw [hget r hr, ← hsource r.name hversion, get?_eq_value h _ r hr hname]
    undeclared := fun key hkey => Fields.get?_eq_none fun hmem => hkey (hsublist.subset hmem) }

/-- The document form of a parsed prompt keeps what the document declared, adds
defaults and nothing else. -/
theorem keeps_of_parse {d : Json} {p : Prompt} (hd : d.WellFormed) (h : parse d = .ok p) :
    ∃ fs gs : Fields, d = .obj fs ∧ p.toJson = .obj gs ∧ Keeps fs gs := by
  obtain ⟨v, fs, q, htag, haccepts, hdecoded, rfl⟩ := exists_of_parse h
  cases d with
  | obj ds =>
      obtain rfl := Json.obj.inj htag
      have hsource : ∀ key, key ≠ "version" →
          Fields.get? (Fields.insert ds "version" (.int v.number)) key = Fields.get? ds key :=
        fun key hkey => (Fields.get?_insert _ _ _ _).trans (if_neg hkey)
      exact ⟨ds, _, rfl, rfl, keeps_of_decodedFrom hdecoded hsource hd haccepts⟩
  | _ => cases htag

/-- The prompt of a document with undeclared assertions, an absent version and a
default that is null. -/
theorem keeps_of_parse_untagged :
    let d : Json := .obj [("template", .str "Hello"), ("metadata", .obj [("b", .int 1), ("a", .null)]),
      ("inputs", .arr [.obj [("default", .null), ("type", .str "string"), ("name", .str "x")]]),
      ("tests", .arr [.obj [("name", .str "short"), ("assert", .obj [("regex", .str "a"),
        ("maxTokens", .float ⟨false, 0x10000000000000, -46, by decide⟩)])]]),
      ("id", .str "123e4567-e89b-12d3-a456-426614174000"), ("name", .str "greeting")]
    let p : Prompt :=
      ⟨2, "123e4567-e89b-12d3-a456-426614174000", "greeting", none, "Hello",
        [⟨"x", .string, false, none, none, some .null⟩], none, none, none, none,
        some [("b", .int 1), ("a", .null)], some [⟨"short", [], ⟨none, none, some 64⟩⟩], none, none,
        [], none, none⟩
    d.WellFormed ∧ parse d = .ok p ∧
      ∃ fs gs : Fields, d = .obj fs ∧ p.toJson = .obj gs ∧ Keeps fs gs := by
  intro d p
  have hd : d.WellFormed := by decide +kernel
  have h : parse d = .ok p := by decide +kernel
  exact ⟨hd, h, keeps_of_parse hd h⟩

end Prompt

end PromptDoc
