import Mathlib.Data.List.Forall2
import PromptDoc.Proofs.Json.WellFormed

/-!
# Values related part by part

Two documents are compared along their structure: `Json.RelatedObjects` and
`Json.RelatedArrays` pass from a value to its fields or items, and the fields of
two objects are compared with a relation for each key. They have the same keys in
the same order (`Fields.Related`), in any order (`Fields.Reordered`), or they are
compared under some keys only (`Fields.RelatedOn`). What matters in each case is
that every key leads to related values.
-/

namespace PromptDoc

section

variable {α β : Type} {R : α → α → Prop} {o o' : Option α}

theorem rel_refl (h : ∀ a, R a a) (o : Option α) : Option.Rel R o o := by
  cases o with
  | none => exact .none
  | some a => exact .some (h a)

theorem isSome_eq_of_rel (h : Option.Rel R o o') : o.isSome = o'.isSome := by
  cases h <;> rfl

theorem bind_eq_of_rel (h : Option.Rel R o o') {f : α → Option β}
    (hf : ∀ a b, R a b → f a = f b) : o.bind f = o'.bind f := by
  cases h with
  | none => rfl
  | some h => exact hf _ _ h

theorem eq_of_rel (h : Option.Rel R o o') (heq : ∀ a b, R a b → a = b) : o = o' := by
  cases h with
  | none => rfl
  | some h => rw [heq _ _ h]

end

theorem exists_of_rel_some {α β : Type} {R : α → β → Prop} {o : Option α} {b : β}
    (h : Option.Rel R o (some b)) : ∃ a, o = some a ∧ R a b := by
  cases h with
  | some h => exact ⟨_, rfl, h⟩

theorem rel_imp {α β : Type} {R S : α → β → Prop} {o : Option α} {o' : Option β}
    (h : Option.Rel R o o') (himp : ∀ a b, o = some a → R a b → S a b) : Option.Rel S o o' := by
  cases h with
  | none => exact .none
  | some h => exact .some (himp _ _ rfl h)

theorem rel_map {α β γ : Type} {R : α → γ → Prop} {f : β → γ} {o : Option α} {o' : Option β}
    (h : Option.Rel (fun a b => R a (f b)) o o') : Option.Rel R o (o'.map f) := by
  cases h with
  | none => exact .none
  | some h => exact .some h

theorem forall₂_imp_of_mem {α β : Type} {R S : α → β → Prop} {xs : List α} {ys : List β}
    (h : List.Forall₂ R xs ys) (himp : ∀ x ∈ xs, ∀ y, R x y → S x y) : List.Forall₂ S xs ys := by
  induction h with
  | nil => exact .nil
  | cons hitem _ ih =>
      obtain ⟨hfirst, hrest⟩ := List.forall_mem_cons.1 himp
      exact .cons (hfirst _ hitem) (ih hrest)

namespace Fields

/-- The same keys in the same order, with related values. -/
def Related (R : String → Json → Json → Prop) (fs gs : Fields) : Prop :=
  List.Forall₂ (fun f g => f.1 = g.1 ∧ R f.1 f.2 g.2) fs gs

/-- The same keys in some order, with related values. -/
def Reordered (R : String → Json → Json → Prop) (fs gs : Fields) : Prop :=
  ∃ hs : Fields, fs.Perm hs ∧ Related R hs gs

/-- The fields under some keys. -/
def under (names : List String) (fs : Fields) : Fields :=
  fs.filter fun f => f.1 ∈ names

/-- Related under some keys; the fields under other keys, and where they stand,
do not count. -/
def RelatedOn (names : List String) (R : String → Json → Json → Prop) (fs gs : Fields) : Prop :=
  Related R (fs.under names) (gs.under names)

variable {R : String → Json → Json → Prop} {names : List String} {fs gs : Fields}

theorem Related.keys_eq (h : Related R fs gs) : fs.keys = gs.keys := by
  induction h with
  | nil => rfl
  | cons hfield _ ih => exact congrArg₂ List.cons hfield.1 ih

theorem Related.rel_get? (h : Related R fs gs) (key : String) :
    Option.Rel (R key) (fs.get? key) (gs.get? key) := by
  induction h with
  | nil => exact .none
  | @cons f g _ _ hfield _ ih =>
      rw [get?_cons, get?_cons, ← hfield.1]
      split
      · next hkey =>
        subst hkey
        exact .some hfield.2
      · exact ih

/-- Where keys are apart, the order of fields does not count. -/
theorem get?_of_perm (hkeys : fs.keys.Nodup) (h : fs.Perm gs) (key : String) :
    fs.get? key = gs.get? key := by
  have hkeys' : gs.keys.Nodup := (h.map Prod.fst).nodup_iff.1 hkeys
  refine Option.ext fun v => ⟨fun hv => ?_, fun hv => ?_⟩
  · exact get?_of_mem hkeys' (h.subset (mem_of_get? hv))
  · exact get?_of_mem hkeys (h.symm.subset (mem_of_get? hv))

theorem Reordered.keys_perm (h : Reordered R fs gs) : fs.keys.Perm gs.keys := by
  obtain ⟨hs, hperm, hrelated⟩ := h
  exact hrelated.keys_eq ▸ hperm.map Prod.fst

theorem Reordered.rel_get? (hkeys : fs.keys.Nodup) (h : Reordered R fs gs) (key : String) :
    Option.Rel (R key) (fs.get? key) (gs.get? key) := by
  obtain ⟨hs, hperm, hrelated⟩ := h
  rw [get?_of_perm hkeys hperm]
  exact hrelated.rel_get? key

/-- A look-up does not see what is left out under other keys. -/
theorem get?_filter (keep : String → Bool) {key : String} (h : keep key = true) (fs : Fields) :
    get? (fs.filter fun f => keep f.1) key = fs.get? key := by
  induction fs with
  | nil => rfl
  | cons f fs ih =>
      rw [List.filter_cons, get?_cons]
      by_cases hkey : key = f.1
      · rw [if_pos (hkey ▸ h), if_pos hkey, get?_cons, if_pos hkey]
      · rw [if_neg hkey, ← ih]
        split
        · rw [get?_cons, if_neg hkey]
        · rfl

theorem get?_under {key : String} (h : key ∈ names) (fs : Fields) :
    (fs.under names).get? key = fs.get? key :=
  get?_filter (fun name => name ∈ names) (decide_eq_true h) fs

theorem RelatedOn.rel_get? (h : RelatedOn names R fs gs) {key : String} (hkey : key ∈ names) :
    Option.Rel (R key) (fs.get? key) (gs.get? key) := by
  rw [← get?_under hkey fs, ← get?_under hkey gs]
  exact Related.rel_get? h key

end Fields

namespace Json

/-- Objects with related fields; values that are no objects are the same. -/
def RelatedObjects (K : Fields → Fields → Prop) : Json → Json → Prop
  | .obj fs, .obj gs => K fs gs
  | v, w => v = w

/-- Arrays with related items; values that are no arrays are the same. -/
def RelatedArrays (R : Json → Json → Prop) : Json → Json → Prop
  | .arr xs, .arr ys => List.Forall₂ R xs ys
  | v, w => v = w

/-- The same record with its keys in some order; other values are the same. -/
def ReorderedRecord : Json → Json → Prop :=
  RelatedObjects (Fields.Reordered fun _ => Eq)

theorem RelatedObjects.eq_or_exists {K : Fields → Fields → Prop} {v w : Json}
    (h : RelatedObjects K v w) : v = w ∨ ∃ fs gs, v = .obj fs ∧ w = .obj gs ∧ K fs gs := by
  unfold RelatedObjects at h
  split at h
  · exact .inr ⟨_, _, rfl, rfl, h⟩
  · exact .inl h

theorem RelatedArrays.eq_or_exists {R : Json → Json → Prop} {v w : Json}
    (h : RelatedArrays R v w) :
    v = w ∨ ∃ xs ys, v = .arr xs ∧ w = .arr ys ∧ List.Forall₂ R xs ys := by
  unfold RelatedArrays at h
  split at h
  · exact .inr ⟨_, _, rfl, rfl, h⟩
  · exact .inl h

end Json

end PromptDoc
