import Mathlib.Data.List.Perm.Basic
import PromptDoc.Proofs.Canonical
import PromptDoc.Proofs.Json.Related
import PromptDoc.Yaml.Writer

/-!
# The canonical form as a complete normal form

`Json.SameContent` says of two documents that they differ at most in the order of
the keys of the root and, where the inputs are an array, in the order of the keys of
each input that is an object. Two documents have the same canonical form exactly
when they have the same content (`canonical_eq_canonical_iff`): sorting erases these
orders and nothing else. Fields are sorted by a linear order on their keys, so where
keys are apart the sorted list is determined by which fields there are
(`Fields.inOrder_eq_inOrder_iff`).
-/

namespace PromptDoc

namespace Fields

variable {order : List String} {fs gs : Fields}

theorem precedes_antisymm {a b : String} (hab : precedes order a b = true)
    (hba : precedes order b a = true) : a = b := by
  simp only [precedes, Bool.or_eq_true, decide_eq_true_eq, Bool.and_eq_true, beq_iff_eq] at *
  rcases hab with hab | ⟨hsame, hab⟩
  · rcases hba with hba | ⟨hba, -⟩ <;> omega
  · rcases hba with hba | ⟨-, hba⟩
    · omega
    · exact String.le_antisymm hab hba

/-- Where keys are apart, there is one way to put fields in order. -/
theorem inOrder_eq_inOrder_iff (hkeys : fs.keys.Nodup) :
    inOrder order fs = inOrder order gs ↔ fs.Perm gs := by
  constructor
  · intro h
    have hperm : (inOrder order gs).Perm fs := h ▸ inOrder_perm
    exact hperm.symm.trans inOrder_perm
  · intro h
    have hsorted : ∀ fs : Fields, (inOrder order fs).Pairwise fun f g =>
        precedes order f.1 g.1 = true := fun fs =>
      List.pairwise_map.1 isSorted_inOrder
    refine List.Perm.eq_of_pairwise ?_ (hsorted fs) (hsorted gs)
      (inOrder_perm.trans (h.trans inOrder_perm.symm))
    intro f g hf hg hfg hgf
    have hkey : f.1 = g.1 := precedes_antisymm hfg hgf
    have hget := get?_of_mem hkeys (mem_inOrder.1 hf)
    rw [hkey, get?_of_mem hkeys (h.symm.subset (mem_inOrder.1 hg))] at hget
    exact Prod.ext hkey (Option.some.inj hget).symm

theorem reordered_eq_iff : Reordered (fun _ => Eq) fs gs ↔ fs.Perm gs := by
  have hrelated : ∀ hs gs : Fields, Related (fun _ => Eq) hs gs ↔ hs = gs := by
    intro hs gs
    simp only [Related, ← Prod.ext_iff, List.forall₂_eq_eq_eq]
  simp only [Reordered, hrelated, exists_eq_right]

/-- Reordering what a map gives is reordering its argument first. -/
theorem perm_map_iff {f : String × Json → String × Json} :
    (fs.map f).Perm (gs.map f) ↔ ∃ hs : Fields, fs.Perm hs ∧ hs.map f = gs.map f := by
  have hmap : ∀ hs ks : Fields, List.Forall₂ (fun x y => f x = y) hs ks ↔ hs.map f = ks := by
    intro hs ks
    rw [← List.forall₂_eq_eq_eq, List.forall₂_map_left_iff]
  constructor
  · intro h
    have hcomp : Relation.Comp (List.Forall₂ fun x y => f x = y) List.Perm fs (gs.map f) :=
      ⟨fs.map f, (hmap _ _).2 rfl, h⟩
    rw [List.forall₂_comp_perm_eq_perm_comp_forall₂] at hcomp
    obtain ⟨hs, hperm, hsame⟩ := hcomp
    exact ⟨hs, hperm, (hmap _ _).1 hsame⟩
  · rintro ⟨hs, hperm, hsame⟩
    exact hsame ▸ hperm.map f

end Fields

namespace Json

/-- A function that changes nothing but the fields of objects relates objects by what
it makes of their fields, and tells all other values apart. -/
theorem eq_iff_relatedObjects {K : Fields → Fields → Prop} {f : Json → Json}
    {g : Fields → Fields} (hobj : ∀ fs, f (.obj fs) = .obj (g fs))
    (hother : ∀ v, (∀ fs, v ≠ .obj fs) → f v = v) {v w : Json}
    (hK : ∀ fs gs, v = .obj fs → w = .obj gs → (g fs = g gs ↔ K fs gs)) :
    f v = f w ↔ RelatedObjects K v w := by
  unfold RelatedObjects
  split
  · next fs gs => rw [hobj, hobj, obj.injEq, hK fs gs rfl rfl]
  · next hne =>
    refine ⟨fun h => ?_, congrArg f⟩
    by_cases hv : ∃ fs, v = .obj fs
    · obtain ⟨fs, rfl⟩ := hv
      have hw : ∀ gs, w ≠ .obj gs := fun gs => hne fs gs rfl
      rw [hobj, hother w hw] at h
      exact absurd h.symm (hw (g fs))
    · have hv : ∀ fs, v ≠ .obj fs := not_exists.1 hv
      rw [hother v hv] at h
      by_cases hw : ∃ gs, w = .obj gs
      · obtain ⟨gs, rfl⟩ := hw
        rw [hobj] at h
        exact absurd h (hv (g gs))
      · rwa [hother w (not_exists.1 hw)] at h

theorem canonicalInput_eq_iff {v w : Json} (hv : v.WellFormed) :
    v.canonicalInput = w.canonicalInput ↔ v.ReorderedRecord w := by
  refine eq_iff_relatedObjects (fun fs => rfl) ?_ ?_
  · intro v hne
    cases v with
    | obj fs => exact absurd rfl (hne fs)
    | _ => rfl
  · rintro fs gs rfl rfl
    rw [Fields.inOrder_eq_inOrder_iff hv.1, Fields.reordered_eq_iff]

theorem canonicalInputs_eq_iff {v w : Json} (hv : v.WellFormed) :
    v.canonicalInputs = w.canonicalInputs ↔ RelatedArrays ReorderedRecord v w := by
  cases v with
  | arr xs =>
      cases w with
      | arr ys =>
          have hitems : ∀ x ∈ xs, x.WellFormed := wellFormedItems_iff.1 hv
          rw [canonicalInputs, canonicalInputs, arr.injEq, ← List.forall₂_eq_eq_eq,
            List.forall₂_map_left_iff, List.forall₂_map_right_iff, RelatedArrays]
          constructor
          · intro h
            exact forall₂_imp_of_mem h fun x hx y => (canonicalInput_eq_iff (hitems x hx)).1
          · intro h
            exact forall₂_imp_of_mem h fun x hx y => (canonicalInput_eq_iff (hitems x hx)).2
      | _ => simp [canonicalInputs, RelatedArrays]
  | _ =>
      cases w with
      | arr ys => simp [canonicalInputs, RelatedArrays]
      | _ => simp [canonicalInputs, RelatedArrays]

/-- What may differ under a root key. -/
def SameInRoot : String → Json → Json → Prop
  | "inputs" => RelatedArrays ReorderedRecord
  | _ => Eq

/-- Documents that differ at most in the order of the keys of the root and of the
inputs. -/
def SameContent : Json → Json → Prop :=
  RelatedObjects (Fields.Reordered SameInRoot)

theorem sameInRoot_iff {key : String} (hkey : key ≠ "inputs") {v w : Json} :
    SameInRoot key v w ↔ v = w := by
  unfold SameInRoot
  split
  · exact absurd rfl hkey
  · rfl

/-- Fields in the same order with inputs of the same canonical form. -/
theorem modify_eq_iff {fs gs : Fields} (hfs : ∀ f ∈ fs, f.2.WellFormed) :
    Fields.modify fs "inputs" canonicalInputs = Fields.modify gs "inputs" canonicalInputs ↔
      Fields.Related SameInRoot fs gs := by
  have hfield : ∀ f ∈ fs, ∀ g : String × Json,
      ((if f.1 = "inputs" then (f.1, canonicalInputs f.2) else f) =
        if g.1 = "inputs" then (g.1, canonicalInputs g.2) else g) ↔
        f.1 = g.1 ∧ SameInRoot f.1 f.2 g.2 := by
    rintro ⟨key, v⟩ hf ⟨other, w⟩
    by_cases hkey : key = "inputs"
    · subst hkey
      by_cases hother : other = "inputs"
      · subst hother
        simp only [if_true, Prod.mk.injEq, true_and]
        exact canonicalInputs_eq_iff (hfs _ hf)
      · simp [hother, Ne.symm hother]
    · by_cases hother : other = "inputs"
      · simp [hkey, hother]
      · simp [hkey, hother, sameInRoot_iff hkey]
  rw [Fields.modify, Fields.modify, ← List.forall₂_eq_eq_eq, List.forall₂_map_left_iff,
    List.forall₂_map_right_iff, Fields.Related]
  constructor
  · intro h
    exact forall₂_imp_of_mem h fun f hf g => (hfield f hf g).1
  · intro h
    exact forall₂_imp_of_mem h fun f hf g => (hfield f hf g).2

theorem canonical_eq_iff_sameContent {v w : Json} (hv : v.WellFormed) :
    v.canonical = w.canonical ↔ v.SameContent w := by
  refine eq_iff_relatedObjects
    (g := fun fs => Fields.inOrder rootOrder (Fields.modify fs "inputs" canonicalInputs))
    (fun fs => rfl) ?_ ?_
  · intro v hne
    cases v with
    | obj fs => exact absurd rfl (hne fs)
    | _ => rfl
  · rintro fs gs rfl rfl
    have hkeys : (Fields.modify fs "inputs" canonicalInputs).keys.Nodup :=
      Fields.keys_modify fs "inputs" canonicalInputs ▸ hv.1
    have hvalues : ∀ f ∈ fs, f.2.WellFormed := wellFormedFields_iff.1 hv.2
    rw [Fields.inOrder_eq_inOrder_iff hkeys]
    refine Fields.perm_map_iff.trans (exists_congr fun hs => and_congr_right fun hperm => ?_)
    exact modify_eq_iff fun f hf => hvalues f (hperm.symm.subset hf)

variable {v w : Json}

/-- Two documents have one canonical form exactly when they have the same content.
That form is its own canonical form, and documents with the same content are written
as one text. -/
theorem canonical_eq_canonical_iff (hv : v.WellFormed) :
    (v.canonical = w.canonical ↔ v.SameContent w) ∧ v.canonical.canonical = v.canonical ∧
      (v.SameContent w →
        Yaml.Layout.stable.write v.canonical = Yaml.Layout.stable.write w.canonical) := by
  have hiff := canonical_eq_iff_sameContent (w := w) hv
  refine ⟨hiff, canonical_of_isCanonical (isCanonical_canonical v), fun h => ?_⟩
  rw [hiff.2 h]

/-- Listed and other keys of the root, an input that is no object, and a default whose
own keys count. -/
theorem canonical_eq_canonical_iff_mixed :
    let input : Json := .obj [("default", .obj [("z", .null), ("a", .null)]), ("name", .str "x")]
    let moved : Json := .obj [("name", .str "x"), ("default", .obj [("z", .null), ("a", .null)])]
    let other : Json := .obj [("name", .str "x"), ("default", .obj [("a", .null), ("z", .null)])]
    let v : Json := .obj [("zeta", .int 1), ("alpha", .null), ("inputs", .arr [.str "x", input])]
    let w : Json := .obj [("inputs", .arr [.str "x", moved]), ("alpha", .null), ("zeta", .int 1)]
    let u : Json := .obj [("inputs", .arr [.str "x", other]), ("alpha", .null), ("zeta", .int 1)]
    v.WellFormed ∧ v.SameContent w ∧ v.canonical = w.canonical ∧
      Yaml.Layout.stable.write v.canonical = Yaml.Layout.stable.write w.canonical ∧
      v.canonical ≠ u.canonical ∧ ¬ v.SameContent u := by
  intro input moved other v w u
  have hv : v.WellFormed := by decide +kernel
  have hinput : input.ReorderedRecord moved := Fields.reordered_eq_iff.2 (.swap _ _ [])
  have hsame : v.SameContent w :=
    ⟨_, (List.reverse_perm _).symm, .cons ⟨rfl, .cons rfl (.cons hinput .nil)⟩ <|
      .cons ⟨rfl, rfl⟩ <| .cons ⟨rfl, rfl⟩ .nil⟩
  have h := @canonical_eq_canonical_iff v
  have hw : w.canonical = w := canonical_of_isCanonical (by decide +kernel)
  have hu : u.canonical = u := canonical_of_isCanonical (by decide +kernel)
  have hne : v.canonical ≠ u.canonical := by
    rw [(h hv).1.2 hsame, hw, hu]
    decide +kernel
  exact ⟨hv, hsame, (h hv).1.2 hsame, (h hv).2.2 hsame, hne, fun hother => hne ((h hv).1.2 hother)⟩

end Json

end PromptDoc
