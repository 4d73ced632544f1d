import PromptDoc.Proofs.Json.WellFormed
import PromptDoc.Proofs.Yaml.Legible

/-!
# Values that can be written and read

`Portable n v` gathers what a round trip asks of a value, with a bound on its
nesting that goes down by one from a collection to its parts. So it can be
proved, and used, part by part (`portable_arr`, `portable_obj`).
-/

namespace PromptDoc.Yaml

/-- A value that a reader can build and a round trip keeps, nested at most `n`
deep. -/
structure Portable (n : Nat) (v : Json) : Prop where
  wellFormed : v.WellFormed
  depth_le : depth v ≤ n
  legible : Legible v

variable {n : Nat} {v : Json}

theorem Portable.withinLimits (h : Portable Value.depthLimit v) : WithinLimits v :=
  ⟨h.depth_le, h.legible⟩

theorem WithinLimits.portable (h : WithinLimits v) (hw : v.WellFormed) :
    Portable Value.depthLimit v :=
  ⟨hw, h.depth_le, h.legible⟩

/-- A string is portable under any bound. -/
theorem portable_str {s : String} : Portable n (.str s) ↔ Legible (.str s) :=
  ⟨Portable.legible, fun h => ⟨trivial, Nat.zero_le n, h⟩⟩

theorem portable_bool (b : Bool) : Portable n (.bool b) :=
  ⟨trivial, Nat.zero_le n, trivial⟩

theorem portable_int {i : Int} : Portable n (.int i) ↔ Width.fitsWord i :=
  ⟨Portable.wellFormed, fun h => ⟨h, Nat.zero_le n, trivial⟩⟩

theorem portable_arr {xs : List Json} :
    Portable (n + 1) (.arr xs) ↔ ∀ x ∈ xs, Portable n x := by
  constructor
  · intro h x hx
    have hdepth := h.depth_le
    rw [depth, Nat.add_le_add_iff_right, depthItems_le_iff] at hdepth
    exact ⟨Json.wellFormedItems_iff.1 h.wellFormed x hx, hdepth x hx,
      legibleItems_iff.1 h.legible x hx⟩
  · intro h
    refine ⟨Json.wellFormedItems_iff.2 fun x hx => (h x hx).wellFormed, ?_,
      legibleItems_iff.2 fun x hx => (h x hx).legible⟩
    rw [depth, Nat.add_le_add_iff_right, depthItems_le_iff]
    exact fun x hx => (h x hx).depth_le

theorem portable_obj {fs : List (String × Json)} :
    Portable (n + 1) (.obj fs) ↔
      (fs.map Prod.fst).Nodup ∧ ∀ f ∈ fs, KeyFits f.1 ∧ Portable n f.2 := by
  constructor
  · intro h
    have hdepth := h.depth_le
    rw [depth, Nat.add_le_add_iff_right, depthFields_le_iff] at hdepth
    refine ⟨h.wellFormed.1, fun f hf => ?_⟩
    obtain ⟨hkey, hlegible⟩ := legibleFields_iff.1 h.legible f hf
    exact ⟨hkey, Json.wellFormedFields_iff.1 h.wellFormed.2 f hf, hdepth f hf, hlegible⟩
  · rintro ⟨hkeys, h⟩
    refine ⟨⟨hkeys, Json.wellFormedFields_iff.2 fun f hf => (h f hf).2.wellFormed⟩, ?_,
      legibleFields_iff.2 fun f hf => ⟨(h f hf).1, (h f hf).2.legible⟩⟩
    rw [depth, Nat.add_le_add_iff_right, depthFields_le_iff]
    exact fun f hf => (h f hf).2.depth_le

/-- A collection needs room for itself. -/
theorem Portable.exists_of_arr {xs : List Json} (h : Portable n (.arr xs)) : ∃ m, n = m + 1 :=
  ⟨n - 1, by have := h.depth_le; rw [depth] at this; omega⟩

theorem Portable.exists_of_obj {fs : List (String × Json)} (h : Portable n (.obj fs)) :
    ∃ m, n = m + 1 :=
  ⟨n - 1, by have := h.depth_le; rw [depth] at this; omega⟩

end PromptDoc.Yaml
