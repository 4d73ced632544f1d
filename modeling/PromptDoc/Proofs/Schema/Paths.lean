import Mathlib.Data.List.TakeWhile
import PromptDoc.Proofs.Schema.Places

/-!
# Paths as pointers

The path of a violation is meant to be a JSON pointer into the document. It is one for
absent fields and for broken rules: `Violation.Resolves` says where it leads to. An
undeclared key stands in the path as it is, without quotes at its ends, so its path is a
pointer to its value exactly when the key is plain (`Schema.IsPlain`). The paths of a
report are pointers, and different ones for different undeclared keys of one object,
exactly when all undeclared keys are plain (`Edition.violations_resolve_iff`).
-/

namespace PromptDoc

namespace Schema

/-! ## Keys in paths -/

/-- A key that stands in a path as it stands in the document. -/
def IsPlain (key : String) : Prop :=
  ('~' ∉ key.toList ∧ '/' ∉ key.toList) ∧
    key.toList.head? ≠ some '"' ∧ key.toList.getLast? ≠ some '"'

instance (key : String) : Decidable (IsPlain key) :=
  inferInstanceAs (Decidable (_ ∧ _))

theorem dropWhile_quotes_eq_self_iff {cs : List Char} :
    cs.dropWhile (· = '"') = cs ↔ cs.head? ≠ some '"' := by
  rw [List.dropWhile_eq_self_iff]
  cases cs <;> simp

theorem trimQuotes_sublist (key : String) : (trimQuotes key).toList.Sublist key.toList := by
  rw [trimQuotes, String.toList_ofList, ← List.reverse_sublist, List.reverse_reverse]
  exact (List.dropWhile_sublist _).trans (List.reverse_sublist.2 (List.dropWhile_sublist _))

theorem trimQuotes_eq_self_iff {key : String} :
    trimQuotes key = key ↔ key.toList.head? ≠ some '"' ∧ key.toList.getLast? ≠ some '"' := by
  rw [← String.toList_inj, trimQuotes, String.toList_ofList, List.reverse_eq_iff,
    ← List.head?_reverse, ← dropWhile_quotes_eq_self_iff, ← dropWhile_quotes_eq_self_iff]
  constructor
  · intro h
    have hsublist := List.dropWhile_sublist (· = '"')
      (l := (key.toList.dropWhile (· = '"')).reverse)
    rw [h, List.reverse_sublist] at hsublist
    have hhead := (List.dropWhile_sublist (· = '"')).antisymm hsublist
    rw [hhead] at h
    exact ⟨hhead, h⟩
  · rintro ⟨hhead, hlast⟩
    rw [hhead, hlast]

/-- Only plain keys are put into a path as a pointer would have them: escaping makes a
key longer and trimming makes it shorter. -/
theorem trimQuotes_eq_escape_iff {key : String} :
    trimQuotes key = Pointer.escape key ↔ IsPlain key := by
  rw [IsPlain, ← Pointer.escapeChars_eq_self_iff, ← trimQuotes_eq_self_iff,
    ← String.toList_inj, Pointer.escape_eq, String.toList_ofList]
  constructor
  · intro h
    have hlength := Pointer.length_escapeChars key.toList
    have htrim : trimQuotes key = key :=
      String.toList_inj.1 ((trimQuotes_sublist key).eq_of_length_le (by rw [h]; omega))
    rw [htrim] at h
    exact ⟨h.symm, htrim⟩
  · rintro ⟨hescape, htrim⟩
    rw [hescape, htrim]

theorem IsPlain.escape_eq {key : String} (h : IsPlain key) : Pointer.escape key = key := by
  rw [Pointer.escape_eq, Pointer.escapeChars_eq_self_iff.2 h.1, String.ofList_toList]

theorem path_unknown_eq_iff {place : Place} {key : String} :
    (unknown place key).path = Pointer.render (place ++ [key]) ↔ IsPlain key := by
  rw [Pointer.render_concat, ← trimQuotes_eq_escape_iff]
  exact String.append_right_inj _

end Schema

/-! ## Reports -/

open Schema

/-- What a path has to be. A value that breaks a rule stands where the path leads to; an
absent field is the last token, and the object before it has no such field; an undeclared
field is found under the path. -/
def Violation.Resolves (schema : Schema) (document : Json) (v : Violation) : Prop :=
  match v.kind with
  | .missing => ∃ place field, ∃ fs : Fields, Pointer.parse? v.path = some (place ++ [field]) ∧
      document.at? place = some (.obj fs) ∧ fs.has field = false
  | .unknownKey => ∃ place key x, Undeclared schema document place key x ∧
      v = unknown place key ∧ Pointer.parse? v.path = some (place ++ [key]) ∧
        document.at? (place ++ [key]) = some x
  | _ => ∃ place s x, Asks schema document place s x ∧ v ∈ ownViolations place s x ∧
      Pointer.parse? v.path = some place ∧ document.at? place = some x ∧ ¬ s.Accepts x

namespace Schema

variable {schema s : Schema} {document x : Json} {place : Place} {v : Violation}

theorem IsBroken.resolves (h : IsBroken place v) (hasks : Asks schema document place s x)
    (hv : v ∈ ownViolations place s x) (hdoc : document.WellFormed) :
    v.Resolves schema document := by
  obtain ⟨kind, message, hmissing, hunknown, rfl⟩ := h
  have hrefused : ¬ s.Accepts x := by
    rw [← violations_eq_nil_iff s place x]
    exact List.ne_nil_of_mem (mem_violations_of_mem_ownViolations hv)
  rw [Violation.Resolves]
  split
  · next hkind => exact absurd hkind hmissing
  · next hkind => exact absurd hkind hunknown
  · exact ⟨place, s, x, hasks, hv, Pointer.parse?_render place, (hasks.at? hdoc).1, hrefused⟩

theorem resolves_missing {fs : Fields} {field : String}
    (hasks : Asks schema document place s (.obj fs)) (hfield : IsPlain field)
    (habsent : fs.has field = false) (hdoc : document.WellFormed) :
    (missing place field).Resolves schema document := by
  refine ⟨place, field, fs, Pointer.parse?_eq_some_iff.2 ?_, (hasks.at? hdoc).1, habsent⟩
  rw [Pointer.render_concat, hfield.escape_eq, missing]

theorem Undeclared.resolves {key : String} (h : Undeclared schema document place key x)
    (hkey : IsPlain key) (hdoc : document.WellFormed) :
    (unknown place key).Resolves schema document :=
  ⟨place, key, x, h, rfl, Pointer.parse?_eq_some_iff.2 (path_unknown_eq_iff.2 hkey), h.at? hdoc⟩

/-- Undeclared keys of one object are reported under paths of their own. -/
def PathsApart (schema : Schema) (document : Json) : Prop :=
  ∀ place key x other y, Undeclared schema document place key x →
    Undeclared schema document place other y → key ≠ other →
      (unknown place key).path ≠ (unknown place other).path

/-- A violation tells the place of its object, because its message shows what its path
shows of the key. -/
theorem place_eq_of_unknown_eq {place' : Place} {key other : String}
    (h : unknown place key = unknown place' other) : place = place' := by
  simp only [unknown, Violation.mk.injEq, String.append_left_inj, String.append_right_inj,
    true_and] at h
  obtain ⟨hpath, hkey⟩ := h
  rw [hkey, String.append_left_inj, String.append_left_inj] at hpath
  exact Pointer.render_injective hpath

/-- Where the path of a key that is not plain resolves, it is the path of another key of
the same object. -/
theorem isPlain_of_resolves {key : String} (h : Undeclared schema document place key x)
    (hresolves : (unknown place key).Resolves schema document)
    (hapart : PathsApart schema document) : IsPlain key := by
  obtain ⟨place', other, y, hother, heq, hparse, -⟩ := hresolves
  obtain rfl := place_eq_of_unknown_eq heq
  rw [heq] at hparse
  have hplain : IsPlain other := path_unknown_eq_iff.1 (Pointer.parse?_eq_some_iff.1 hparse)
  by_cases hkey : key = other
  · rw [hkey]
    exact hplain
  · exact absurd (congrArg Violation.path heq) (hapart place key x other y h hother hkey)

section

variable (hrequired : ∀ name ∈ schema.requiredNames, IsPlain name) (hdoc : document.WellFormed)

include hrequired hdoc

theorem resolves_or_undeclared (hv : v ∈ violations [] schema document) :
    v.Resolves schema document ∨
      ∃ place key x, Undeclared schema document place key x ∧ v = unknown place key := by
  obtain ⟨place, s, x, hasks, hv⟩ := mem_violations_iff.1 hv
  rcases cases_of_mem_ownViolations hasks hv with
    ⟨fs, field, hfield, rfl, habsent, rfl⟩ | ⟨key, y, hkey, rfl⟩ | hbroken
  · exact .inl (resolves_missing hasks (hrequired field hfield) habsent hdoc)
  · exact .inr ⟨place, key, y, hkey, rfl⟩
  · exact .inl (hbroken.resolves hasks hv hdoc)

theorem resolves_of_kind_ne (hv : v ∈ violations [] schema document)
    (hkind : v.kind ≠ .unknownKey) : v.Resolves schema document := by
  rcases resolves_or_undeclared hrequired hdoc hv with h | ⟨place, key, x, -, rfl⟩
  · exact h
  · exact absurd rfl hkind

/-- All paths are pointers into the document, and undeclared keys of one object have
different ones, exactly when the undeclared keys are plain. -/
theorem resolve_and_pathsApart_iff :
    (∀ v ∈ violations [] schema document, v.Resolves schema document) ∧
        PathsApart schema document ↔
      ∀ place key x, Undeclared schema document place key x → IsPlain key := by
  constructor
  · rintro ⟨hresolve, hapart⟩ place key x hkey
    exact isPlain_of_resolves hkey (hresolve _ hkey.mem_violations) hapart
  · intro hplain
    refine ⟨fun v hv => ?_, fun place key x other y hkey hother hne heq => hne ?_⟩
    · rcases resolves_or_undeclared hrequired hdoc hv with h | ⟨place, key, x, hkey, rfl⟩
      · exact h
      · exact hkey.resolves (hplain place key x hkey) hdoc
    · rw [path_unknown_eq_iff.2 (hplain _ _ _ hkey),
        path_unknown_eq_iff.2 (hplain _ _ _ hother)] at heq
      exact List.singleton_inj.1 (List.append_cancel_left (Pointer.render_injective heq))

end

end Schema

namespace Edition

theorem requiredNames_schema (e : Edition) : e.schema.requiredNames =
    ["version", "id", "name", "template", "name", "type", "provider", "name", "name"] := rfl

variable (e : Edition) {document : Json}

/-- The paths of absent fields and of broken rules are pointers into the document. All
paths are, and undeclared keys of one object have different ones, exactly when no
undeclared key has a tilde, a slash or a quote at an end. -/
theorem violations_resolve_iff (hdoc : document.WellFormed) :
    (∀ v ∈ e.violations document, v.kind ≠ .unknownKey → v.Resolves e.schema document) ∧
      ((∀ v ∈ e.violations document, v.Resolves e.schema document) ∧
          PathsApart e.schema document ↔
        ∀ place key x, Undeclared e.schema document place key x → IsPlain key) := by
  have hrequired : ∀ name ∈ e.schema.requiredNames, IsPlain name := by
    rw [requiredNames_schema]
    decide +kernel
  have hmem : ∀ v, v ∈ e.violations document ↔ v ∈ Schema.violations [] e.schema document :=
    fun v => (report_perm _ _).mem_iff
  simp only [hmem]
  exact ⟨fun v => resolves_of_kind_ne hrequired hdoc, resolve_and_pathsApart_iff hrequired hdoc⟩

/-- Violations of several kinds, at the root, in an array and under a key with a slash. -/
theorem violations_resolve_iff_nested :
    let e : Edition := ⟨2, .lenient⟩
    let document : Json := .obj [("version", .int 2),
      ("id", .str "123e4567-e89b-12d3-a456-426614174000"), ("template", .str ""),
      ("inputs", .arr [.obj [("name", .str "x"), ("type", .str "date"), ("color", .null)]]),
      ("labels", .obj [("a/b", .int 1)])]
    document.WellFormed ∧
      (Schema.violations [] e.schema document).map Violation.path =
        ["/name", "/template", "/inputs/0/type", "/inputs/0/color", "/labels/a~1b"] ∧
      (∀ v ∈ e.violations document, v.kind ≠ .unknownKey → v.Resolves e.schema document) ∧
      ((∀ v ∈ e.violations document, v.Resolves e.schema document) ∧
          PathsApart e.schema document ↔
        ∀ place key x, Undeclared e.schema document place key x → IsPlain key) := by
  intro e document
  have hdoc : document.WellFormed := by decide +kernel
  exact ⟨hdoc, by decide +kernel, violations_resolve_iff e hdoc⟩

/-- The path of an undeclared key with a slash leads nowhere, and quotes at the ends of a
key do not tell it from another one. -/
theorem not_resolves_slash :
    let e : Edition := ⟨1, .strict⟩
    let base : Fields := [("version", .int 1), ("id", .str "123e4567-e89b-12d3-a456-426614174000"),
      ("name", .str "n"), ("template", .str "t")]
    let slash : Json := .obj (base ++ [("a/b", .int 1)])
    let quotes : Json := .obj (base ++ [("x", .null), ("\"x\"", .null)])
    (slash.WellFormed ∧
      (∃ v ∈ e.violations slash, v.kind = .unknownKey ∧ Pointer.parse? v.path = some ["a", "b"]) ∧
      slash.at? ["a", "b"] = none) ∧
    quotes.WellFormed ∧ ¬ PathsApart e.schema quotes := by
  intro e base slash quotes
  refine ⟨⟨by decide +kernel, ⟨unknown [] "a/b", by decide +kernel, rfl, by decide +kernel⟩,
    by decide +kernel⟩, by decide +kernel, fun hapart => ?_⟩
  have hx : Undeclared e.schema quotes [] "x" .null :=
    ⟨_, _, _, .root, by decide +kernel, by decide +kernel⟩
  have hquoted : Undeclared e.schema quotes [] "\"x\"" .null :=
    ⟨_, _, _, .root, by decide +kernel, by decide +kernel⟩
  exact hapart [] "x" .null "\"x\"" .null hx hquoted (by decide) (by decide +kernel)

end Edition

end PromptDoc
