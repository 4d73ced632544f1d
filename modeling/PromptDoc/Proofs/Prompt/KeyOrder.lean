import PromptDoc.Proofs.Prompt.Alike

/-!
# The order of keys does not count

`Prompt.Reordered` says of two documents that they differ in the order of keys
only, at the root, in the inputs, in the model, in the tests and in their
assertions. No schema tells such documents apart, so they are parsed to the same
prompt, with the same stable text, or rejected with the same error
(`parse_reordered`). The values elsewhere are the user's own and the same in both.
-/

namespace PromptDoc

open Schema

namespace Prompt

/-- What may differ under a key of a test. -/
def ReorderedInTest : String → Json → Json → Prop
  | "assert" => Json.ReorderedRecord
  | _ => Eq

/-- What may differ under a root key. -/
def ReorderedInRoot : String → Json → Json → Prop
  | "inputs" => Json.RelatedArrays Json.ReorderedRecord
  | "model" => Json.ReorderedRecord
  | "tests" => Json.RelatedArrays (Json.RelatedObjects (Fields.Reordered ReorderedInTest))
  | _ => Eq

/-- Documents that differ only in the order of the keys of the root, of the
inputs, of the model, of the tests and of their assertions. -/
def Reordered : Json → Json → Prop :=
  Json.RelatedObjects (Fields.Reordered ReorderedInRoot)

end Prompt

/-- A record schema does not tell records with another order of keys apart, when
the schemas of its fields do not tell their values apart. -/
theorem Json.alike_of_reordered {R : String → Json → Json → Prop} {required : List String}
    {others : OtherKeys} {properties : List (String × Schema)} (hne : properties ≠ [])
    (hrequired : ∀ name ∈ required, name ∈ properties.map Prod.fst)
    (hvalues : ∀ p ∈ properties, ∀ v w, v.WellFormed → R p.1 v w → p.2.Alike v w) (v w : Json)
    (hv : v.WellFormed) (h : RelatedObjects (Fields.Reordered R) v w) :
    (record required others properties).Alike v w := by
  refine alike_of_relatedObjects hne hrequired ?_ h
  rintro fs gs rfl h
  refine ⟨fun p hp => rel_imp (h.rel_get? hv.1 p.1) fun x y hget => ?_, fun _ => ?_⟩
  · exact hvalues p hp x y (hv.of_get? hget)
  · exact h.keys_perm.filter _

theorem Json.alike_of_reorderedItems {R : Json → Json → Prop} {items : Schema}
    (hitems : ∀ x y, x.WellFormed → R x y → items.Alike x y) (v w : Json) (hv : v.WellFormed)
    (h : RelatedArrays R v w) : (arrayOf items).Alike v w := by
  refine alike_of_relatedArrays ?_ h
  rintro xs rfl x hx y
  exact hitems x y (wellFormedItems_iff.1 hv x hx)

namespace Prompt

theorem alike_of_same (schema : Schema) (v w : Json) (_ : v.WellFormed) :
    v = w → schema.Alike v w :=
  alike_of_eq schema v w

theorem alike_of_reorderedRecord {required : List String} {others : OtherKeys}
    {properties : List (String × Schema)} (hne : properties ≠ [])
    (hrequired : ∀ name ∈ required, name ∈ properties.map Prod.fst) (v w : Json) :
    v.WellFormed → v.ReorderedRecord w → (record required others properties).Alike v w :=
  Json.alike_of_reordered hne hrequired (fun p _ => alike_of_same p.2) v w

theorem alike_of_reorderedTest (v w : Json) (hv : v.WellFormed)
    (h : Json.RelatedObjects (Fields.Reordered ReorderedInTest) v w) : Edition.test.Alike v w := by
  refine Json.alike_of_reordered (by decide) (by decide) ?_ v w hv h
  simp only [List.forall_mem_cons]
  exact ⟨alike_of_same _, alike_of_same _, alike_of_reorderedRecord (by decide) (by decide),
    List.forall_mem_nil _⟩

/-- No edition tells documents apart that differ in the order of keys. -/
theorem alike_of_reordered {d d' : Json} (e : Edition) (hd : d.WellFormed)
    (h : Reordered d d') : e.schema.Alike d d' := by
  refine Json.alike_of_reordered (List.cons_ne_nil _ _) ?_ ?_ d d' hd h
  · show ∀ name ∈ Edition.required, name ∈ rootOrder
    decide
  · have hinputs := Json.alike_of_reorderedItems
      (alike_of_reorderedRecord (by decide) (by decide) : ∀ v w, v.WellFormed →
        v.ReorderedRecord w → Edition.input.Alike v w)
    have htests := Json.alike_of_reorderedItems alike_of_reorderedTest
    simp only [List.forall_mem_cons]
    exact ⟨alike_of_same _, alike_of_same _, alike_of_same _, alike_of_same _, alike_of_same _,
      hinputs, alike_of_reorderedRecord (by decide) (by decide), alike_of_same _, alike_of_same _,
      alike_of_same _, alike_of_same _, htests, alike_of_same _, alike_of_same _, alike_of_same _,
      alike_of_same _, alike_of_same _, List.forall_mem_nil _⟩

/-- Documents that differ in the order of keys have the same tag. -/
theorem version_eq_of_reordered {d d' : Json} (hd : d.WellFormed) (h : Reordered d d') :
    d.get? "version" = d'.get? "version" := by
  obtain rfl | ⟨fs, gs, rfl, rfl, h⟩ := h.eq_or_exists
  · rfl
  · exact eq_of_rel (h.rel_get? hd.1 "version") fun v w h => h

/-- Documents that differ in the order of keys are parsed to one prompt, with one
stable text, or rejected with one error. -/
theorem parse_reordered {d d' : Json} (hd : d.WellFormed) (h : Reordered d d') :
    (∃ p p', parse d = .ok p ∧ parse d' = .ok p' ∧ p' = p ∧ p'.toText = p.toText) ∨
      ∃ e, parse d = .error e ∧ parse d' = .error e := by
  have hkeys : ∀ fs : Fields, d' = .obj fs → fs.keys.Nodup := by
    rintro gs rfl
    obtain rfl | ⟨fs, gs, rfl, ⟨⟩, h⟩ := h.eq_or_exists
    · exact hd.1
    · exact h.keys_perm.nodup_iff.1 hd.1
  have hsame : parse d = parse d' :=
    parse_eq_of_alike (fun fs hfs => by subst hfs; exact hd.1) hkeys
      (version_eq_of_reordered hd h) fun v _ => alike_of_reordered _ hd h
  cases hp : parse d with
  | ok p => exact .inl ⟨p, p, rfl, hsame ▸ hp, rfl, rfl⟩
  | error e => exact .inr ⟨e, rfl, hsame ▸ hp⟩

/-- Keys in opposite order, at all five places. -/
theorem parse_reordered_opposite :
    let id : Json := .str "123e4567-e89b-12d3-a456-426614174000"
    let d : Json := .obj [("id", id), ("name", .str "greeting"), ("template", .str "Hello"),
      ("inputs", .arr [.obj [("name", .str "x"), ("type", .str "string")]]),
      ("model", .obj [("provider", .str "a"), ("name", .str "b")]),
      ("tests", .arr [.obj [("name", .str "short"),
        ("assert", .obj [("contains", .arr []), ("maxTokens", .int 5)])]])]
    let d' : Json := .obj [("tests", .arr [.obj [
        ("assert", .obj [("maxTokens", .int 5), ("contains", .arr [])]), ("name", .str "short")]]),
      ("model", .obj [("name", .str "b"), ("provider", .str "a")]),
      ("inputs", .arr [.obj [("type", .str "string"), ("name", .str "x")]]),
      ("template", .str "Hello"), ("name", .str "greeting"), ("id", id)]
    d.WellFormed ∧ Reordered d d' ∧
      ((∃ p p', parse d = .ok p ∧ parse d' = .ok p' ∧ p' = p ∧ p'.toText = p.toText) ∨
        ∃ e, parse d = .error e ∧ parse d' = .error e) := by
  intro id d d'
  have hd : d.WellFormed := by decide +kernel
  have htwo : ∀ f g : String × Json, Json.ReorderedRecord (.obj [f, g]) (.obj [g, f]) :=
    fun f g => ⟨[g, f], .swap g f [], .cons ⟨rfl, rfl⟩ (.cons ⟨rfl, rfl⟩ .nil)⟩
  have h : Reordered d d' :=
    ⟨_, (List.reverse_perm _).symm, .cons ⟨rfl, .cons ⟨_, (List.reverse_perm _).symm,
        .cons ⟨rfl, htwo _ _⟩ (.cons ⟨rfl, rfl⟩ .nil)⟩ .nil⟩ <|
      .cons ⟨rfl, htwo _ _⟩ <| .cons ⟨rfl, .cons (htwo _ _) .nil⟩ <| .cons ⟨rfl, rfl⟩ <|
      .cons ⟨rfl, rfl⟩ <| .cons ⟨rfl, rfl⟩ .nil⟩
  exact ⟨hd, h, parse_reordered hd h⟩

end Prompt

end PromptDoc
