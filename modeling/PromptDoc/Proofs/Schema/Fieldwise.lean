import Mathlib.Data.List.Perm.Basic
import PromptDoc.Proofs.Json.Pointer
import PromptDoc.Proofs.Schema
import PromptDoc.Proofs.Schema.Alike
import PromptDoc.Schema.Edition

/-!
# Violations field by field

No violation hides another. A place counts in the paths of violations only
(`violations_eq_map_below`), so what is wrong with a field can be seen in any
document that is accepted otherwise. The report of a document holds its absent
required fields, its undeclared keys where these are forbidden, and for every
declared field what is reported when the field is put into an accepted document
(`report_perm_fieldwise`); arrays are reported item by item.
-/

namespace PromptDoc

namespace Violation

/-- The violation as it is found below a pointer, which is put in front of its path. -/
def below (pointer : String) (v : Violation) : Violation :=
  { v with path := pointer ++ v.path }

/-- The violation with another pointer in place of the one that its path starts with. -/
def rebase (old new : String) (v : Violation) : Violation :=
  { v with path := new ++ String.ofList (v.path.toList.drop old.toList.length) }

theorem rebase_below (old new : String) (v : Violation) :
    (v.below old).rebase old new = v.below new := by
  simp [rebase, below]

end Violation

open Violation

namespace Schema

/-! ## Places -/

section

variable (place more : Place)

theorem broken_append (kind : Violation.Kind) (message : String) :
    broken (place ++ more) kind message =
      (broken more kind message).below (Pointer.render place) := by
  rw [broken, Pointer.render_append]
  rfl

theorem wrongType_append (v : Json) (type : String) :
    wrongType (place ++ more) v type = (wrongType more v type).below (Pointer.render place) :=
  broken_append place more _ _

theorem missing_append (field : String) :
    missing (place ++ more) field = (missing more field).below (Pointer.render place) := by
  simp only [missing, below, Pointer.render_append, String.append_assoc]

theorem unknown_append (key : String) :
    unknown (place ++ more) key = (unknown more key).below (Pointer.render place) := by
  simp only [unknown, below, Pointer.render_append, String.append_assoc]

theorem missingFields_append (required : List String) (fs : Fields) :
    missingFields (place ++ more) required fs =
      (missingFields more required fs).map (below (Pointer.render place)) := by
  rw [missingFields, missingFields, List.map_map]
  exact List.map_congr_left fun name _ => missing_append place more name

theorem unknownKeys_append (others : OtherKeys) (names : List String) (fs : Fields) :
    unknownKeys (place ++ more) others names fs =
      (unknownKeys more others names fs).map (below (Pointer.render place)) := by
  cases others with
  | forbidden =>
      rw [unknownKeys, unknownKeys, List.map_map]
      exact List.map_congr_left fun key _ => unknown_append place more key
  | _ => rfl

theorem optionViolations_append (options : List String) (v : Json) :
    optionViolations (place ++ more) options v =
      (optionViolations more options v).map (below (Pointer.render place)) := by
  rw [optionViolations, optionViolations]
  split
  · rfl
  · rw [broken_append, List.map_singleton]

theorem textViolations_append (rule : TextRule) (v : Json) :
    textViolations (place ++ more) rule v =
      (textViolations more rule v).map (below (Pointer.render place)) := by
  cases v with
  | str s =>
      rw [textViolations, textViolations]
      split
      · rfl
      · simp only [broken_append, List.map_singleton]
  | _ => simp only [textViolations, wrongType_append, List.map_singleton]

theorem positiveIntegerViolations_append (v : Json) :
    positiveIntegerViolations (place ++ more) v =
      (positiveIntegerViolations more v).map (below (Pointer.render place)) := by
  rw [positiveIntegerViolations, positiveIntegerViolations, List.map_append, wrongType_append,
    broken_append]
  congr 1 <;> split <;> rfl

end

mutual

/-- The place of a value stands in front of the paths of its violations and counts
nowhere else. -/
theorem violations_append : ∀ (schema : Schema) (place more : Place) (v : Json),
    violations (place ++ more) schema v =
      (violations more schema v).map (below (Pointer.render place))
  | .anything, place, more, v => rfl
  | .constant n, place, more, v => by
      rw [violations, violations]
      split
      · rfl
      · rw [broken_append, List.map_singleton]
  | .oneOf options, place, more, v => by
      rw [violations, violations, optionViolations_append]
  | .boolean, place, more, v => by
      cases v with
      | bool b => rfl
      | _ => simp only [violations, wrongType_append, List.map_singleton]
  | .text rule, place, more, v => by
      rw [violations, violations, textViolations_append]
  | .positiveInteger, place, more, v => by
      rw [violations, violations, positiveIntegerViolations_append]
  | .array, place, more, v => by
      cases v with
      | arr xs => rfl
      | _ => simp only [violations, wrongType_append, List.map_singleton]
  | .arrayOf items, place, more, v => by
      cases v with
      | arr xs =>
          rw [violations, violations, List.map_flatMap]
          refine List.flatMap_congr ?_
          rintro ⟨x, i⟩ -
          simp only [List.append_assoc]
          exact violations_append items place _ x
      | _ => simp only [violations, wrongType_append, List.map_singleton]
  | .record required others properties, place, more, v => by
      cases v with
      | obj fs =>
          rw [violations, violations, List.map_append, List.map_append, missingFields_append,
            unknownKeys_append, propertyViolations_append properties]
      | _ => simp only [violations, wrongType_append, List.map_singleton]
  | .recordOf values, place, more, v => by
      cases v with
      | obj fs =>
          rw [violations, violations, List.map_flatMap]
          refine List.flatMap_congr ?_
          rintro ⟨key, x⟩ -
          simp only [List.append_assoc]
          exact violations_append values place _ x
      | _ => simp only [violations, wrongType_append, List.map_singleton]

theorem propertyViolations_append : ∀ (properties : List (String × Schema)) (place more : Place)
    (fs : Fields), propertyViolations (place ++ more) fs properties =
      (propertyViolations more fs properties).map (below (Pointer.render place))
  | [], place, more, fs => rfl
  | (name, schema) :: rest, place, more, fs => by
      rw [propertyViolations, propertyViolations, List.map_append,
        propertyViolations_append rest]
      congr 1
      cases fs.get? name with
      | none => rfl
      | some v =>
          rw [List.append_assoc]
          exact violations_append schema place _ v

end

theorem violations_eq_map_below (place : Place) (schema : Schema) (v : Json) :
    violations place schema v = (violations [] schema v).map (below (Pointer.render place)) := by
  rw [← violations_append, List.append_nil]

theorem report_perm (schema : Schema) (v : Json) :
    (schema.report v).Perm (violations [] schema v) :=
  List.mergeSort_perm _ _

theorem pairwise_report (schema : Schema) (v : Json) :
    (schema.report v).Pairwise fun u w => u.path ≤ w.path := by
  refine (List.pairwise_mergeSort precedes_trans precedes_total _).imp fun h => ?_
  exact of_decide_eq_true h

/-! ## Fields -/

theorem propertyViolations_eq_flatMap (place : Place) (fs : Fields)
    (properties : List (String × Schema)) :
    propertyViolations place fs properties = properties.flatMap fun p =>
      match fs.get? p.1 with
      | some v => violations (place ++ [p.1]) p.2 v
      | none => [] := by
  induction properties with
  | nil => rfl
  | cons p properties ih =>
      rw [propertyViolations, List.flatMap_cons]
      exact congrArg (_ ++ ·) ih

section

variable {required : List String} {others : OtherKeys} {properties : List (String × Schema)}
  {fs : Fields} (hnames : (properties.map Prod.fst).Nodup)

include hnames

/-- Where all fields are accepted, a value put under a declared key is the only one
that can have violations. -/
theorem propertyViolations_insert
    (haccepts : ∀ p ∈ properties, ∀ v, fs.get? p.1 = some v → p.2.Accepts v)
    {p : String × Schema} (hp : p ∈ properties) (place : Place) (v : Json) :
    propertyViolations place (fs.insert p.1 v) properties = violations (place ++ [p.1]) p.2 v := by
  induction properties with
  | nil => cases hp
  | cons q properties ih =>
      obtain ⟨hnew, hnames⟩ := List.nodup_cons.1 hnames
      obtain ⟨hfirst, hrest⟩ := List.forall_mem_cons.1 haccepts
      rw [propertyViolations, Fields.get?_insert]
      rcases List.mem_cons.1 hp with rfl | hp
      · have hothers : propertyViolations place (fs.insert p.1 v) properties = [] := by
          refine (propertyViolations_eq_nil_iff _ _ _).2 (acceptsFields_iff.2 fun q hq w hw => ?_)
          have hne : q.1 ≠ p.1 := fun heq => hnew (heq ▸ List.mem_map_of_mem hq)
          rw [Fields.get?_insert, if_neg hne] at hw
          exact hrest q hq w hw
        rw [if_pos rfl, hothers, List.append_nil]
      · have hne : q.1 ≠ p.1 := fun heq => hnew (heq ▸ List.mem_map_of_mem hp)
        rw [if_neg hne, ih hnames hrest hp]
        cases hget : fs.get? q.1 with
        | none => rfl
        | some w => simp only [(violations_eq_nil_iff _ _ _).2 (hfirst w hget), List.nil_append]

/-- A value put under a declared key of an accepted record brings its own violations
and no others. -/
theorem violations_record_insert (h : (record required others properties).Accepts (.obj fs))
    {p : String × Schema} (hp : p ∈ properties) (place : Place) (v : Json) :
    violations place (record required others properties) (.obj (fs.insert p.1 v)) =
      violations (place ++ [p.1]) p.2 v := by
  obtain ⟨hrequired, hfields, hothers⟩ := accepts_record_iff.1 h
  have hmissing : missingFields place required (fs.insert p.1 v) = [] := by
    refine missingFields_eq_nil_iff.2 fun name hname => ?_
    rw [Fields.has_eq_true_iff, Fields.mem_keys_insert]
    exact .inr (Fields.has_eq_true_iff.1 (hrequired name hname))
  have hunknown : unknownKeys place others (properties.map Prod.fst) (fs.insert p.1 v) = [] := by
    refine unknownKeys_eq_nil_iff.2 fun hforbidden key hkey => ?_
    rcases (Fields.mem_keys_insert v).1 hkey with rfl | hkey
    · exact List.mem_map_of_mem hp
    · exact hothers hforbidden key hkey
  rw [violations, hmissing, hunknown, propertyViolations_insert hnames hfields hp, List.nil_append,
    List.append_nil]

end

theorem violations_arrayOf_singleton (items : Schema) (place : Place) (x : Json) :
    violations place (arrayOf items) (.arr [x]) =
      (violations [] items x).map (below (Pointer.render (place ++ ["0"]))) := by
  rw [violations, ← violations_eq_map_below]
  exact List.append_nil _

/-- The items of an array have violations of their own, each under its index. -/
theorem violations_arrayOf (items : Schema) (place : Place) (xs : List Json) :
    violations place (arrayOf items) (.arr xs) = xs.zipIdx.flatMap fun (x, i) =>
      (violations place (arrayOf items) (.arr [x])).map
        (rebase (Pointer.render (place ++ ["0"])) (Pointer.render (place ++ [toString i]))) := by
  rw [violations]
  refine List.flatMap_congr ?_
  rintro ⟨x, i⟩ -
  simp only [violations_arrayOf_singleton, List.map_map]
  rw [violations_eq_map_below]
  exact List.map_congr_left fun w _ => (rebase_below _ _ w).symm

end Schema

namespace Edition

open Schema

/-! ## Documents -/

/-- The violations of a document, field by field: the absent required fields, the
undeclared keys where these are forbidden, and for every declared field that is there
the report of a document that holds it in place of its own. -/
def fieldwise (e : Edition) (base fs : Fields) : List Violation :=
  (required.filter fun name => !fs.has name).map (missing []) ++
    (if e.strictness = .strict then (undeclared rootOrder fs).map (unknown []) else []) ++
    rootOrder.flatMap fun name =>
      match fs.get? name with
      | some v => e.violations (.obj (base.insert name v))
      | none => []

variable {e : Edition} {base fs : Fields}

theorem unknownKeys_otherKeys (s : Strictness) (fs : Fields) :
    unknownKeys [] (otherKeys s) rootOrder fs =
      if s = .strict then (undeclared rootOrder fs).map (unknown []) else [] := by
  cases s <;> rfl

theorem violations_insert_perm (hbase : e.schema.Accepts (.obj base)) {p : String × Schema}
    (hp : p ∈ properties e.version) (v : Json) :
    (e.violations (.obj (base.insert p.1 v))).Perm (Schema.violations [p.1] p.2 v) := by
  refine (report_perm _ _).trans ?_
  have hnames : ((properties e.version).map Prod.fst).Nodup := by
    rw [properties_keys]
    decide
  rw [schema, violations_record_insert hnames hbase hp]
  exact .refl _

theorem violations_perm_fieldwise (hbase : e.schema.Accepts (.obj base)) :
    (e.violations (.obj fs)).Perm (e.fieldwise base fs) := by
  refine (report_perm _ _).trans ?_
  rw [schema, Schema.violations, properties_keys, unknownKeys_otherKeys, List.append_assoc,
    fieldwise, List.append_assoc]
  refine .append_left _ (List.perm_append_comm.trans (.append_left _ ?_))
  rw [propertyViolations_eq_flatMap, ← properties_keys e.version, List.flatMap_map]
  refine .flatMap_left _ fun p hp => ?_
  cases fs.get? p.1 with
  | none => exact .refl _
  | some v => exact (violations_insert_perm hbase hp v).symm

section

variable (hbase : e.schema.Accepts (.obj base)) {name : String} {items : Schema}
  (hname : (name, Schema.arrayOf items) ∈ properties e.version)

include hbase hname

/-- The items of an array field have violations of their own. -/
theorem violations_perm_itemwise (xs : List Json) :
    (e.violations (.obj (base.insert name (.arr xs)))).Perm (xs.zipIdx.flatMap fun (x, i) =>
      (e.violations (.obj (base.insert name (.arr [x])))).map
        (rebase (Pointer.render [name, "0"]) (Pointer.render [name, toString i]))) := by
  refine (violations_insert_perm hbase hname (.arr xs)).trans ?_
  rw [violations_arrayOf]
  refine .flatMap_left _ ?_
  rintro ⟨x, i⟩ -
  exact ((violations_insert_perm hbase hname (.arr [x])).symm).map _

/-- The violations of an only item are found below its place. -/
theorem exists_path_eq_of_item {x : Json} {v : Violation}
    (hv : v ∈ e.violations (.obj (base.insert name (.arr [x])))) :
    ∃ rest, v.path = Pointer.render [name, "0"] ++ rest := by
  have hmem := (violations_insert_perm hbase hname (.arr [x])).mem_iff.1 hv
  rw [violations_arrayOf_singleton] at hmem
  obtain ⟨w, -, rfl⟩ := List.mem_map.1 hmem
  exact ⟨w.path, rfl⟩

end

/-- No violation hides another: the report of a document is found field by field in a
document that is accepted otherwise, and where inputs and tests are arrays, item by
item. It is empty exactly when nothing is found in this way, and sorted by path. -/
theorem report_perm_fieldwise {e : Edition} {base : Fields}
    (hbase : e.violations (.obj base) = []) (fs : Fields) :
    (e.violations (.obj fs)).Perm (e.fieldwise base fs) ∧
      (∀ name ∈ ["inputs", "tests"], ∀ xs,
        (e.violations (.obj (base.insert name (.arr xs)))).Perm (xs.zipIdx.flatMap fun (x, i) =>
          (e.violations (.obj (base.insert name (.arr [x])))).map
            (rebase (Pointer.render [name, "0"]) (Pointer.render [name, toString i]))) ∧
        ∀ x, ∀ v ∈ e.violations (.obj (base.insert name (.arr [x]))),
          ∃ rest, v.path = Pointer.render [name, "0"] ++ rest) ∧
      (e.violations (.obj fs) = [] ↔ e.fieldwise base fs = []) ∧
      (e.violations (.obj fs)).Pairwise fun v w => v.path ≤ w.path := by
  have hbase : e.schema.Accepts (.obj base) := report_eq_nil_iff.1 hbase
  have hperm : (e.violations (.obj fs)).Perm (e.fieldwise base fs) :=
    violations_perm_fieldwise hbase
  have hinputs : ("inputs", .arrayOf input) ∈ properties e.version := by simp [properties]
  have htests : ("tests", .arrayOf test) ∈ properties e.version := by simp [properties]
  refine ⟨hperm, ?_, ?_, pairwise_report _ _⟩
  · simp only [List.forall_mem_cons]
    exact ⟨fun xs => ⟨violations_perm_itemwise hbase hinputs xs, fun _ _ =>
        exists_path_eq_of_item hbase hinputs⟩,
      fun xs => ⟨violations_perm_itemwise hbase htests xs, fun _ _ =>
        exists_path_eq_of_item hbase htests⟩, List.forall_mem_nil _⟩
  · constructor
    · intro hnil
      exact (hnil ▸ hperm).nil_eq.symm
    · intro hnil
      exact (hnil ▸ hperm).eq_nil

/-- A strict document in which the name is absent, a key is not declared and one of two
inputs has two faults. -/
theorem report_perm_fieldwise_strict :
    let e : Edition := ⟨1, .strict⟩
    let base : Fields := [("version", .int 1), ("id", .str "123e4567-e89b-12d3-a456-426614174000"),
      ("name", .str "n"), ("template", .str "t")]
    let fs : Fields := [("version", .int 2), ("owner", .null), ("template", .str "t"),
      ("inputs", .arr [.obj [("name", .str "x"), ("type", .str "string")],
        .obj [("name", .str ""), ("kind", .null), ("type", .str "number")]])]
    e.violations (.obj base) = [] ∧
      (Schema.violations [] e.schema (.obj fs)).map Violation.path =
        ["/id", "/name", "/version", "/inputs/1/name", "/inputs/1/kind", "/owner"] ∧
      (e.violations (.obj fs)).Perm (e.fieldwise base fs) ∧
      (∀ name ∈ ["inputs", "tests"], ∀ xs,
        (e.violations (.obj (base.insert name (.arr xs)))).Perm (xs.zipIdx.flatMap fun (x, i) =>
          (e.violations (.obj (base.insert name (.arr [x])))).map
            (rebase (Pointer.render [name, "0"]) (Pointer.render [name, toString i]))) ∧
        ∀ x, ∀ v ∈ e.violations (.obj (base.insert name (.arr [x]))),
          ∃ rest, v.path = Pointer.render [name, "0"] ++ rest) ∧
      (e.violations (.obj fs) = [] ↔ e.fieldwise base fs = []) ∧
      (e.violations (.obj fs)).Pairwise fun v w => v.path ≤ w.path := by
  intro e base fs
  have hbase : e.violations (.obj base) = [] := by decide +kernel
  have hpaths : (Schema.violations [] e.schema (.obj fs)).map Violation.path =
      ["/id", "/name", "/version", "/inputs/1/name", "/inputs/1/kind", "/owner"] := by
    decide +kernel
  exact ⟨hbase, hpaths, report_perm_fieldwise hbase fs⟩

end Edition

end PromptDoc
