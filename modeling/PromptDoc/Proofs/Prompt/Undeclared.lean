import PromptDoc.Proofs.Prompt.Alike

/-!
# Keys that are not declared

The latest version tolerates other root keys than the declared ones, and tests
tolerate other assertions. `Prompt.SameDeclared` says of two documents that they
differ in such fields only: these may be added, removed or changed, wherever they
stand. They influence neither the prompt nor, when the document is rejected, what
is reported (`parse_eq_of_sameDeclared`).
-/

namespace PromptDoc

open Schema

/-- A tolerant record schema looks at its declared fields only. -/
theorem Json.alike_of_relatedOn {names : List String} {R : String → Json → Json → Prop}
    {required : List String} {others : OtherKeys} {properties : List (String × Schema)}
    (hne : properties ≠ []) (hrequired : ∀ name ∈ required, name ∈ properties.map Prod.fst)
    (hnames : ∀ name ∈ properties.map Prod.fst, name ∈ names) (hothers : others ≠ .forbidden)
    (hvalues : ∀ p ∈ properties, ∀ v w, R p.1 v w → p.2.Alike v w) {v w : Json}
    (h : RelatedObjects (Fields.RelatedOn names R) v w) :
    (record required others properties).Alike v w := by
  refine alike_of_relatedObjects hne hrequired (fun fs gs _ h => ⟨fun p hp => ?_, ?_⟩) h
  · have hname := hnames p.1 (List.mem_map_of_mem hp)
    exact rel_imp (h.rel_get? hname) fun v w _ => hvalues p hp v w
  · exact fun hforbidden => absurd hforbidden hothers

/-- A record schema does not tell records apart with the same keys and alike
values. -/
theorem Json.alike_of_related {R : String → Json → Json → Prop} {required : List String}
    {others : OtherKeys} {properties : List (String × Schema)} (hne : properties ≠ [])
    (hrequired : ∀ name ∈ required, name ∈ properties.map Prod.fst)
    (hvalues : ∀ p ∈ properties, ∀ v w, R p.1 v w → p.2.Alike v w) {v w : Json}
    (h : RelatedObjects (Fields.Related R) v w) :
    (record required others properties).Alike v w := by
  refine alike_of_relatedObjects hne hrequired (fun fs gs _ h => ⟨fun p hp => ?_, fun _ => ?_⟩) h
  · exact rel_imp (h.rel_get? p.1) fun v w _ => hvalues p hp v w
  · rw [undeclared, undeclared, h.keys_eq]

namespace Prompt

/-- Assertions that differ only in those that are not declared. -/
def SameAssertions : Json → Json → Prop :=
  Json.RelatedObjects (Fields.RelatedOn Assertions.names fun _ => Eq)

/-- What may differ under a key of a test. -/
def SameInTest : String → Json → Json → Prop
  | "assert" => SameAssertions
  | _ => Eq

/-- What may differ under a root key. -/
def SameInRoot : String → Json → Json → Prop
  | "tests" => Json.RelatedArrays (Json.RelatedObjects (Fields.Related SameInTest))
  | _ => Eq

/-- Documents that differ only in fields that are not declared, at the root and
among the assertions of tests. -/
def SameDeclared : Json → Json → Prop :=
  Json.RelatedObjects (Fields.RelatedOn rootOrder SameInRoot)

theorem alike_of_sameAssertions (v w : Json) (h : SameAssertions v w) :
    Edition.assertions.Alike v w := by
  refine Json.alike_of_relatedOn (by decide) (by decide) (by decide) (by decide) ?_ h
  exact fun p _ => alike_of_eq p.2

theorem alike_of_sameTests (v w : Json)
    (h : Json.RelatedArrays (Json.RelatedObjects (Fields.Related SameInTest)) v w) :
    (arrayOf Edition.test).Alike v w := by
  refine alike_of_relatedArrays (fun xs _ x _ y h => ?_) h
  refine Json.alike_of_related (by decide) (by decide) ?_ h
  simp only [List.forall_mem_cons]
  exact ⟨alike_of_eq _, alike_of_eq _, alike_of_sameAssertions, List.forall_mem_nil _⟩

/-- The latest edition does not tell documents apart with the same declared
fields. -/
theorem alike_of_sameDeclared {d d' : Json} (h : SameDeclared d d') :
    (Edition.ofVersion .v2).schema.Alike d d' := by
  refine Json.alike_of_relatedOn (List.cons_ne_nil _ _) ?_ ?_ ?_ ?_ h
  · decide
  · exact fun _ h => h
  · exact nofun
  · simp only [List.forall_mem_cons]
    exact ⟨alike_of_eq _, alike_of_eq _, alike_of_eq _, alike_of_eq _, alike_of_eq _,
      alike_of_eq _, alike_of_eq _, alike_of_eq _, alike_of_eq _, alike_of_eq _, alike_of_eq _,
      alike_of_sameTests, alike_of_eq _, alike_of_eq _, alike_of_eq _, alike_of_eq _,
      alike_of_eq _, List.forall_mem_nil _⟩

/-- Fields that are not declared make no difference to a document of the latest
version: neither to the prompt nor to what is reported. -/
theorem parse_eq_of_sameDeclared {d d' : Json} (hd : d.WellFormed) (hd' : d'.WellFormed)
    (hversion : Version.ofDocument d = .ok .v2) (h : SameDeclared d d') : parse d = parse d' := by
  refine parse_eq_of_alike (by rintro fs rfl; exact hd.1) (by rintro fs rfl; exact hd'.1) ?_ ?_
  · obtain rfl | ⟨fs, gs, rfl, rfl, h⟩ := h.eq_or_exists
    · rfl
    · exact eq_of_rel (h.rel_get? (by decide : "version" ∈ rootOrder)) fun v w h => h
  · intro v hv
    obtain rfl := Except.ok.inj (hversion.symm.trans hv)
    exact alike_of_sameDeclared h

/-- Documents that are rejected, with and without fields that are not declared. -/
theorem parse_eq_of_sameDeclared_rejected :
    let d : Json := .obj [("owner", .str "me"), ("version", .int 2), ("id", .str "x"),
      ("tests", .arr [.obj [("assert", .obj [("regex", .str "a"), ("maxTokens", .int 0)])]])]
    let d' : Json := .obj [("version", .int 2), ("id", .str "x"),
      ("tests", .arr [.obj [("assert", .obj [("maxTokens", .int 0), ("name", .null)])]]),
      ("", .arr [])]
    d.WellFormed ∧ d'.WellFormed ∧ Version.ofDocument d = .ok .v2 ∧ SameDeclared d d' ∧
      parse d = parse d' := by
  intro d d'
  have hd : d.WellFormed := by decide +kernel
  have hd' : d'.WellFormed := by decide +kernel
  have hversion : Version.ofDocument d = .ok .v2 := by decide +kernel
  have hassert : SameAssertions (.obj [("regex", .str "a"), ("maxTokens", .int 0)])
      (.obj [("maxTokens", .int 0), ("name", .null)]) :=
    .cons ⟨rfl, rfl⟩ .nil
  have h : SameDeclared d d' :=
    .cons ⟨rfl, rfl⟩ <| .cons ⟨rfl, rfl⟩ <| .cons ⟨rfl, .cons (.cons ⟨rfl, hassert⟩ .nil) .nil⟩ .nil
  exact ⟨hd, hd', hversion, h, parse_eq_of_sameDeclared hd hd' hversion h⟩

end Prompt

end PromptDoc
