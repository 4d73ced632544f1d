import Mathlib.Data.List.Permutation
import PromptDoc.Proofs.FrontMatter.Rejoin
import PromptDoc.Proofs.FrontMatter.Stable
import PromptDoc.Proofs.Json.Related

/-!
# Why a text changes

A text that is not in its stable form should come with what has to change. Keys out
of canonical order are told from all else by the keys alone
(`Json.orderedKeys_canonical_iff`), and all else is a matter of layout, except for
line breaks: a block is compared with line feeds for its breaks. So a text whose
front matter is stable but for a mixture of line breaks changes without a reason, and
no other text does (`Stabilized.reasoned_iff`).
-/

namespace PromptDoc

namespace Fields

theorem get?_modify (fs : Fields) (key : String) (f : Json → Json) :
    (modify fs key f).get? key = (fs.get? key).map f := by
  induction fs with
  | nil => rfl
  | cons g fs ih =>
      have hcons : modify (g :: fs) key f =
          (if g.1 = key then (g.1, f g.2) else g) :: modify fs key f := rfl
      rw [hcons, get?_cons, get?_cons]
      by_cases hkey : g.1 = key
      · simp [hkey]
      · simp [hkey, Ne.symm hkey, ih]

end Fields

namespace Json

theorem canonical_eq_self_iff {v : Json} : v.canonical = v ↔ v.IsCanonical :=
  ⟨fun h => h ▸ isCanonical_canonical v, canonical_of_isCanonical⟩

/-- Inputs whose keys come in the same order in their canonical form are canonical. -/
theorem isCanonicalInput_of_keys_eq {items : List Json}
    (h : items.filterMap (fun x => x.fields?.map Fields.keys) =
      (items.map canonicalInput).filterMap fun x => x.fields?.map Fields.keys) :
    ∀ x ∈ items, x.IsCanonicalInput := by
  induction items with
  | nil => exact List.forall_mem_nil _
  | cons x items ih =>
      rw [List.forall_mem_cons]
      cases x with
      | obj fs =>
          obtain ⟨hkeys, hrest⟩ := List.cons.inj h
          refine ⟨?_, ih hrest⟩
          rw [IsCanonicalInput, Fields.IsSorted, hkeys]
          exact Fields.isSorted_inOrder
      | _ => exact ⟨trivial, ih h⟩

/-- The keys of a document tell whether it is in canonical order. -/
theorem orderedKeys_canonical_iff {document : Json} (h : document.WellFormed) :
    document.orderedKeys = document.canonical.orderedKeys ↔ document.canonical = document := by
  rw [canonical_eq_self_iff]
  constructor
  · intro hkeys
    cases document with
    | obj fs =>
        obtain ⟨hroot, hinputs⟩ := List.cons.inj hkeys
        refine ⟨?_, ?_⟩
        · rw [Fields.IsSorted, hroot]
          exact Fields.isSorted_inOrder
        · rintro ⟨key, v⟩ hmem rfl
          cases v with
          | arr items =>
              have hget : Fields.get? fs "inputs" = some (.arr items) :=
                Fields.get?_of_mem h.1 hmem
              have hsorted : Fields.get? (Fields.inOrder rootOrder
                  (Fields.modify fs "inputs" canonicalInputs)) "inputs" =
                    some (.arr (items.map canonicalInput)) := by
                have hapart : (Fields.modify fs "inputs" canonicalInputs).keys.Nodup :=
                  Fields.keys_modify fs "inputs" canonicalInputs ▸ h.1
                rw [← Fields.get?_of_perm hapart Fields.inOrder_perm.symm, Fields.get?_modify,
                  hget]
                rfl
              rw [hget, hsorted] at hinputs
              exact isCanonicalInput_of_keys_eq hinputs
          | _ => trivial
    | _ => trivial
  · intro hcanonical
    rw [canonical_of_isCanonical hcanonical]

end Json

namespace Stabilized

open Text Yaml

/-- The front matter of a text is in its stable form but for line breaks: a carriage
return stands before some line feed of the text, and before not all of those up to the
end of the closing delimiter. -/
def DiffersInBreaks (text : List Char) : Prop :=
  ∃ e document, Envelope.split? text = some e ∧ e.isBlank = false ∧
    readChars e.block = .ok document ∧ document.canonical = document ∧
    Layout.stable.document document = toLf e.block ++ ['\n'] ∧
    hasCrlf text = true ∧ ¬ EveryFeed (· = some '\r') none (Envelope.front text e)

section

variable {block : List Char} {document : Json} (h : document.WellFormed)

include h

theorem keyOrder_mem_changesOf_iff :
    .keyOrder ∈ changesOf block document ↔ document.canonical ≠ document := by
  rw [ne_eq, ← Json.orderedKeys_canonical_iff h, changesOf]
  split <;> split <;> simp_all

theorem changesOf_eq_nil_iff :
    changesOf block document = [] ↔ document.canonical = document ∧
      Layout.stable.document document = toLf block ++ ['\n'] := by
  rw [← Json.orderedKeys_canonical_iff h, changesOf, List.append_eq_nil_iff]
  simp

end

section

variable {text : List Char} {e : Envelope} {document : Json}

theorem changes_ofDocument (text : List Char) (e : Envelope) (document : Json) :
    (ofDocument text e document).changes =
      if (ofDocument text e document).changed then changesOf e.block document else [] := by
  unfold ofDocument
  simp only
  split <;> rfl

/-- A text whose front matter is stable but for line breaks is one that changes without
a reason. -/
theorem differsInBreaks_iff (hsplit : Envelope.split? text = some e)
    (hblank : e.isBlank = false) (hread : readChars e.block = .ok document) :
    DiffersInBreaks text ↔ (ofDocument text e document).changed = true ∧
      changesOf e.block document = [] := by
  have houtput : document.canonical = document →
      Layout.stable.document document = toLf e.block ++ ['\n'] →
      ((ofDocument text e document).output = text ↔
        (hasCrlf text = true → EveryFeed (· = some '\r') none (Envelope.front text e))) := by
    intro hcanonical hlayout
    rw [output_ofDocument, hcanonical, hlayout, Envelope.rejoin_toLf_block_iff hsplit]
  have hs : ofText text = .ok (ofDocument text e document) := by
    rw [ofText_of_split? hsplit hblank, hread]
    rfl
  rw [changed_iff_output_ne hs, changesOf_eq_nil_iff (wellFormed_of_readChars hread)]
  constructor
  · rintro ⟨f, other, hf, -, hother, hcanonical, hlayout, hcrlf, hmixed⟩
    obtain rfl := Option.some.inj (hsplit.symm.trans hf)
    obtain rfl := Except.ok.inj (hread.symm.trans hother)
    refine ⟨fun hsame => hmixed ?_, hcanonical, hlayout⟩
    exact (houtput hcanonical hlayout).1 hsame hcrlf
  · rintro ⟨hchanged, hcanonical, hlayout⟩
    rw [ne_eq, houtput hcanonical hlayout, Classical.not_imp] at hchanged
    exact ⟨e, document, hsplit, hblank, hread, hcanonical, hlayout, hchanged⟩

end

/-- A text counts as changed exactly when its stable form is another text. That its keys
were out of order is told exactly of those that are changed and whose document is not
in canonical order. A change comes with a reason, and there is none without a change,
exactly when the front matter does not differ from its stable form in line breaks
only. -/
theorem reasoned_iff {text : List Char} {s : Stabilized} (hs : ofText text = .ok s) :
    (s.changed = true ↔ s.output ≠ text) ∧
      (.keyOrder ∈ s.changes ↔
        s.changed = true ∧ ∃ document, Loads text document ∧ document.canonical ≠ document) ∧
      ((s.changed = true ↔ s.changes ≠ []) ↔ ¬ DiffersInBreaks text) := by
  refine ⟨changed_iff_output_ne hs, ?_⟩
  obtain ⟨rfl, hnone⟩ | ⟨e, document, hsplit, hloads, rfl⟩ := eq_unchanged_or_exists hs
  · have hstable : ¬ DiffersInBreaks text := by
      rintro ⟨e, document, hsplit, hblank, hread, -⟩
      exact hnone document ⟨e, hsplit, hblank, hread⟩
    simp [unchanged, hstable]
  · obtain ⟨f, hf, hblank, hread⟩ := id hloads
    obtain rfl := Option.some.inj (hsplit.symm.trans hf)
    have horder : (∃ other, Loads text other ∧ other.canonical ≠ other) ↔
        document.canonical ≠ document := by
      constructor
      · rintro ⟨other, hother, hne⟩
        rw [hloads.unique hother]
        exact hne
      · intro hne
        exact ⟨document, hloads, hne⟩
    have hkeys : .keyOrder ∈ changesOf e.block document ↔ document.canonical ≠ document :=
      keyOrder_mem_changesOf_iff (wellFormed_of_readChars hread)
    rw [changes_ofDocument, differsInBreaks_iff hsplit hblank hread, horder, ← hkeys]
    cases (ofDocument text e document).changed <;> simp

/-- Keys out of order, quotes that are not needed and two kinds of line breaks. -/
theorem reasoned_iff_mixed :
    let text := "---\r\nname: \"n\"\nid: a\n---\r\nbody".toList
    let s : Stabilized :=
      ⟨"---\r\nid: a\r\nname: n\r\n---\r\nbody".toList, true, [.keyOrder, .layout]⟩
    ofText text = .ok s ∧ (s.changed = true ↔ s.output ≠ text) ∧
      (.keyOrder ∈ s.changes ↔
        s.changed = true ∧ ∃ document, Loads text document ∧ document.canonical ≠ document) ∧
      ((s.changed = true ↔ s.changes ≠ []) ↔ ¬ DiffersInBreaks text) := by
  intro text s
  have hsplit : Envelope.split? text =
      some ⟨"name: \"n\"\nid: a".toList, ['\r', '\n'], "body".toList, true⟩ := by
    decide +kernel
  have hread : readChars "name: \"n\"\nid: a".toList =
      .ok (.obj [("name", .str "n"), ("id", .str "a")]) := by
    decide +kernel
  have hcanonical : Json.canonical (.obj [("name", .str "n"), ("id", .str "a")]) =
      .obj [("id", .str "a"), ("name", .str "n")] := by
    cbv
  have hs : ofText text = .ok s := by
    rw [ofText_of_split? hsplit (by decide +kernel), hread]
    refine congrArg Except.ok ?_
    rw [ofDocument, changesOf, hcanonical]
    decide +kernel
  exact ⟨hs, reasoned_iff hs⟩

/-- A block in its stable layout and a carriage return in the body only: the line breaks
of the block are changed, and no reason is given. -/
theorem changed_without_changes :
    let text := "---\na: 1\n---\nbody\r\n".toList
    let s : Stabilized := ⟨"---\r\na: 1\r\n---\nbody\r\n".toList, true, []⟩
    ofText text = .ok s ∧ ¬ (s.changed = true ↔ s.changes ≠ []) := by
  exact ⟨by decide +kernel, by decide⟩

end Stabilized

end PromptDoc
