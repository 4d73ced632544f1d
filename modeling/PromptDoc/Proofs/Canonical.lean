import PromptDoc.Canonical
import PromptDoc.Proofs.Yaml.Portable

/-!
# Canonical key order as a normal form

`Json.IsCanonical` says of a document that its keys stand in canonical order.
The canonical form of every document is of that kind, and such a document is
its own canonical form. Keys are moved and nothing else, so what a value can be
written and read for is kept.
-/

namespace PromptDoc

namespace Fields

theorem precedes_trans {order : List String} {a b c : String} (hab : precedes order a b = true)
    (hbc : precedes order b c = true) : precedes order a c = true := by
  simp only [precedes, Bool.or_eq_true, decide_eq_true_eq, Bool.and_eq_true, beq_iff_eq] at *
  rcases hab with hab | ⟨hab, hle⟩
  · rcases hbc with hbc | ⟨hbc, -⟩ <;> exact .inl (by omega)
  · rcases hbc with hbc | ⟨hbc, hle'⟩
    · exact .inl (by omega)
    · exact .inr ⟨hab.trans hbc, String.le_trans hle hle'⟩

theorem precedes_total (order : List String) (a b : String) :
    (precedes order a b || precedes order b a) = true := by
  simp only [precedes, Bool.or_eq_true, decide_eq_true_eq, Bool.and_eq_true, beq_iff_eq]
  rcases Nat.lt_trichotomy (order.idxOf a) (order.idxOf b) with h | h | h
  · exact .inl (.inl h)
  · rcases String.le_total a b with hle | hle
    · exact .inl (.inr ⟨h, hle⟩)
    · exact .inr (.inr ⟨h.symm, hle⟩)
  · exact .inr (.inl h)

/-- The keys stand in an order. -/
def IsSorted (order : List String) (fs : Fields) : Prop :=
  fs.keys.Pairwise fun a b => precedes order a b = true

instance (order : List String) (fs : Fields) : Decidable (IsSorted order fs) :=
  inferInstanceAs (Decidable (fs.keys.Pairwise fun a b => precedes order a b = true))

variable {order : List String} {fs : Fields}

theorem isSorted_inOrder : IsSorted order (inOrder order fs) := by
  rw [IsSorted, keys, List.pairwise_map]
  apply List.pairwise_mergeSort
  · intro a b c
    exact precedes_trans
  · intro a b
    exact precedes_total order a.1 b.1

theorem inOrder_of_isSorted (h : IsSorted order fs) : inOrder order fs = fs :=
  List.mergeSort_of_pairwise (List.pairwise_map.1 h)

theorem inOrder_perm : (inOrder order fs).Perm fs :=
  List.mergeSort_perm fs _

theorem mem_inOrder {f : String × Json} : f ∈ inOrder order fs ↔ f ∈ fs :=
  List.mem_mergeSort

theorem keys_modify (fs : Fields) (key : String) (f : Json → Json) :
    (modify fs key f).keys = fs.keys := by
  rw [keys, keys, modify, List.map_map]
  apply List.map_congr_left
  rintro ⟨k, v⟩ -
  simp only [Function.comp_apply]
  split <;> rfl

theorem mem_modify {key : String} {f : Json → Json} {x : String × Json}
    (h : x ∈ modify fs key f) :
    ∃ y ∈ fs, x.1 = y.1 ∧ (x.1 = key ∧ x.2 = f y.2 ∨ x.1 ≠ key ∧ x.2 = y.2) := by
  obtain ⟨⟨k, v⟩, hmem, heq⟩ := List.mem_map.1 h
  refine ⟨(k, v), hmem, ?_⟩
  by_cases hkey : k = key
  · simp only [if_pos hkey] at heq
    subst heq
    exact ⟨rfl, .inl ⟨hkey, rfl⟩⟩
  · simp only [if_neg hkey] at heq
    subst heq
    exact ⟨rfl, .inr ⟨hkey, rfl⟩⟩

theorem modify_eq_self {key : String} {f : Json → Json} (h : ∀ x ∈ fs, x.1 = key → f x.2 = x.2) :
    modify fs key f = fs := by
  rw [modify]
  refine (List.map_congr_left ?_).trans (List.map_id fs)
  rintro ⟨k, v⟩ hmem
  simp only [id]
  split
  · next hkey => rw [h (k, v) hmem hkey]
  · rfl

end Fields

namespace Json

/-! ## Canonical documents -/

/-- The keys of an input stand in order. -/
def IsCanonicalInput : Json → Prop
  | .obj fs => Fields.IsSorted inputOrder fs
  | _ => True

/-- The keys of every input stand in order. -/
def IsCanonicalInputs : Json → Prop
  | .arr items => ∀ x ∈ items, IsCanonicalInput x
  | _ => True

/-- The keys of the root and of every input stand in order. -/
def IsCanonical : Json → Prop
  | .obj fs => Fields.IsSorted rootOrder fs ∧
      ∀ f ∈ fs, f.1 = "inputs" → IsCanonicalInputs f.2
  | _ => True

instance : (v : Json) → Decidable v.IsCanonicalInput
  | .obj fs => inferInstanceAs (Decidable (Fields.IsSorted inputOrder fs))
  | .null | .bool _ | .int _ | .float _ | .str _ | .arr _ => isTrue trivial

instance : (v : Json) → Decidable v.IsCanonicalInputs
  | .arr items => inferInstanceAs (Decidable (∀ x ∈ items, IsCanonicalInput x))
  | .null | .bool _ | .int _ | .float _ | .str _ | .obj _ => isTrue trivial

instance : (v : Json) → Decidable v.IsCanonical
  | .obj fs => inferInstanceAs (Decidable (Fields.IsSorted rootOrder fs ∧
      ∀ f ∈ fs, f.1 = "inputs" → IsCanonicalInputs f.2))
  | .null | .bool _ | .int _ | .float _ | .str _ | .arr _ => isTrue trivial

theorem isCanonicalInput_canonicalInput (v : Json) : IsCanonicalInput v.canonicalInput := by
  cases v with
  | obj fs => exact Fields.isSorted_inOrder
  | _ => trivial

theorem isCanonicalInputs_canonicalInputs (v : Json) : IsCanonicalInputs v.canonicalInputs := by
  cases v with
  | arr items =>
      intro x hx
      obtain ⟨y, -, rfl⟩ := List.mem_map.1 hx
      exact isCanonicalInput_canonicalInput y
  | _ => trivial

theorem isCanonical_canonical (v : Json) : v.canonical.IsCanonical := by
  cases v with
  | obj fs =>
      refine ⟨Fields.isSorted_inOrder, fun f hf hkey => ?_⟩
      obtain ⟨g, -, -, ⟨-, hvalue⟩ | ⟨hne, -⟩⟩ := Fields.mem_modify (Fields.mem_inOrder.1 hf)
      · rw [hvalue]
        exact isCanonicalInputs_canonicalInputs g.2
      · exact absurd hkey hne
  | _ => trivial

theorem canonicalInput_of_isCanonicalInput {v : Json} (h : v.IsCanonicalInput) :
    v.canonicalInput = v := by
  cases v with
  | obj fs => exact congrArg obj (Fields.inOrder_of_isSorted h)
  | _ => rfl

theorem canonicalInputs_of_isCanonicalInputs {v : Json} (h : v.IsCanonicalInputs) :
    v.canonicalInputs = v := by
  cases v with
  | arr items =>
      refine congrArg arr ((List.map_congr_left ?_).trans (List.map_id items))
      exact fun x hx => canonicalInput_of_isCanonicalInput (h x hx)
  | _ => rfl

/-- A canonical document is its own canonical form. -/
theorem canonical_of_isCanonical {v : Json} (h : v.IsCanonical) : v.canonical = v := by
  cases v with
  | obj fs =>
      have hinputs : Fields.modify fs "inputs" canonicalInputs = fs :=
        Fields.modify_eq_self fun f hf hkey =>
          canonicalInputs_of_isCanonicalInputs (h.2 f hf hkey)
      rw [canonical, hinputs]
      exact congrArg obj (Fields.inOrder_of_isSorted h.1)
  | _ => rfl

/-! ## What is kept -/

open Yaml

theorem portable_inOrder {n : Nat} {order : List String} {fs : Fields}
    (h : Portable n (.obj fs)) : Portable n (.obj (Fields.inOrder order fs)) := by
  obtain ⟨m, rfl⟩ := h.exists_of_obj
  obtain ⟨hkeys, hfields⟩ := portable_obj.1 h
  refine portable_obj.2 ⟨?_, fun f hf => hfields f (Fields.mem_inOrder.1 hf)⟩
  exact (Fields.inOrder_perm.map Prod.fst).nodup_iff.2 hkeys

theorem portable_canonicalInputs {n : Nat} {v : Json} (h : Portable n v) :
    Portable n v.canonicalInputs := by
  cases v with
  | arr items =>
      obtain ⟨m, rfl⟩ := h.exists_of_arr
      refine portable_arr.2 fun x hx => ?_
      obtain ⟨y, hy, rfl⟩ := List.mem_map.1 hx
      have hportable := portable_arr.1 h y hy
      cases y with
      | obj fs => exact portable_inOrder hportable
      | _ => exact hportable
  | _ => exact h

theorem portable_canonical {n : Nat} {v : Json} (h : Portable n v) : Portable n v.canonical := by
  cases v with
  | obj fs =>
      apply portable_inOrder
      obtain ⟨m, rfl⟩ := h.exists_of_obj
      obtain ⟨hkeys, hfields⟩ := portable_obj.1 h
      refine portable_obj.2 ⟨?_, fun f hf => ?_⟩
      · have hsame := Fields.keys_modify fs "inputs" canonicalInputs
        rw [Fields.keys, Fields.keys] at hsame
        rw [hsame]
        exact hkeys
      · obtain ⟨g, hg, hkey, ⟨-, hvalue⟩ | ⟨-, hvalue⟩⟩ := Fields.mem_modify hf
        all_goals
          rw [hkey, hvalue]
        · exact ⟨(hfields g hg).1, portable_canonicalInputs (hfields g hg).2⟩
        · exact hfields g hg
  | _ => exact h

end Json

end PromptDoc
