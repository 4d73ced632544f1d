import PromptDoc.Proofs.Yaml.Nodes
import PromptDoc.Proofs.Yaml.Source
import PromptDoc.Proofs.Yaml.Written

/-!
# Written documents read back

Reading what the writer writes gives the value back, whatever the width and for
every indentation that a block header can give in one digit. Without the line
feed at its end the text is still read, but a literal block that comes last
gives back one line feed less (`readChars_body`). So different values have
different texts (`body_injective`).
-/

namespace PromptDoc.Yaml

open Layout

variable {o : Layout} {v : Json}

/-- A written document is read, with a line feed behind it or without. -/
theorem readChars_body (ho : o.step < 10) (hw : v.WellFormed) (hl : WithinLimits v)
    {tail : List Char} (htail : tail = [] ∨ tail = ['\n']) :
    readChars (o.body v ++ tail) = .ok (rereadRoot (!tail.isEmpty) v) := by
  have hkept : ∀ c ∈ o.body v ++ tail, isKept c = true := by
    intro c hc
    rcases List.mem_append.1 hc with hc | hc
    · exact isKept_of_mem_body hl.legible hc
    · rcases htail with rfl | rfl
      · cases hc
      · rw [List.mem_singleton.1 hc]
        decide
  have hscan := Token.Lexer.scan?_body (α := List Char) ho hl.legible htail
  have hread : Portable Value.depthLimit (rereadRoot (!tail.isEmpty) v) :=
    portable_rereadRoot (hl.portable hw)
  exact readChars_of_spells hkept hscan (Node.ofTokens?_root v)
    (Node.spells_root hw hl.legible _) hread.wellFormed hread.depth_le

theorem readChars_document (ho : o.step < 10) (hw : v.WellFormed) (hl : WithinLimits v) :
    readChars (o.document v) = .ok v := by
  rw [document_eq_body, readChars_body ho hw hl (.inr rfl)]
  exact congrArg Except.ok (rereadRoot_true v)

/-- Different values are written differently. -/
theorem body_injective (ho : o.step < 10) {w : Json} (hv : Portable Value.depthLimit v)
    (hw : Portable Value.depthLimit w) (h : o.body v = o.body w) : v = w := by
  have hread := readChars_document ho hv.wellFormed hv.withinLimits
  rw [document_eq_body, h, ← document_eq_body,
    readChars_document ho hw.wellFormed hw.withinLimits] at hread
  exact (Except.ok.inj hread).symm

/-- Every value is read back from its written text, field order included, for
every width and every indentation of at most nine columns. -/
theorem read_write (ho : o.indent ≤ 9) (hw : v.WellFormed) (hl : WithinLimits v) :
    read (o.write v) = .ok v := by
  have hstep : o.step < 10 := by
    unfold Layout.step
    omega
  rw [read, Layout.write, String.toList_ofList]
  exact readChars_document hstep hw hl

/-- A literal block, a nested collection behind a dash and a key in quotes, in a
narrow layout. -/
theorem read_write_nested :
    let o : Layout := ⟨3, 10⟩
    let v : Json := .obj [("a: b", .arr [.str "one\n two\n\n", .obj [("", .null), ("n", .int (-3))],
      .arr []]), ("z", .float (.zero true))]
    o.indent ≤ 9 ∧ v.WellFormed ∧ WithinLimits v ∧ read (o.write v) = .ok v :=
  ⟨by decide, by decide +kernel, by decide +kernel,
    read_write (by decide) (by decide +kernel) (by decide +kernel)⟩

end PromptDoc.Yaml
