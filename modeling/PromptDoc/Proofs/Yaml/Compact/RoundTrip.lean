import PromptDoc.Json.Printer
import PromptDoc.Prompt.Parse
import PromptDoc.Proofs.Yaml.Compact.Nodes
import PromptDoc.Proofs.Yaml.Source

/-!
# Compact JSON text read as YAML

YAML takes in JSON: the compact JSON text of a value is read as that value, field
order included, where its strings hold no characters that YAML excludes and its keys
are within the lexer's limit (`Yaml.readChars_compact`). So a prompt may be written
as JSON as well (`Prompt.parseText_compact`).
-/

namespace PromptDoc

variable {v : Json}

/-- The text has no line break and no mark, so the reader takes it as it is. -/
theorem Yaml.readChars_compact (hw : v.WellFormed) (hs : spellable v = true)
    (hd : depth v ≤ Value.depthLimit) : readChars v.compactChars = .ok v := by
  have hkept : ∀ c ∈ v.compactChars, isKept c = true := fun c hc =>
    isKept_of_isPrintable (isPrintable_of_mem_compact v hs c hc)
  exact readChars_of_spells hkept (Token.Lexer.scan?_compact hs) (Node.ofTokens?_flow v)
    (Node.spells_flowNode v hw hs) hw hd

/-- The compact JSON text of a value is read as YAML with the same meaning, and is the
same prompt as the value. The reader's limits on depth and keys are 128 levels and 1024
bytes. -/
theorem Prompt.parseText_compact (hw : v.WellFormed) (hs : Yaml.spellable v = true)
    (hd : Yaml.depth v ≤ Yaml.Value.depthLimit) :
    Yaml.read v.compact = .ok v ∧ Prompt.parseText v.compact = Prompt.parse v := by
  have hread : Yaml.read v.compact = .ok v := by
    rw [Yaml.read, Json.compact, String.toList_ofList]
    exact Yaml.readChars_compact hw hs hd
  refine ⟨hread, ?_⟩
  rw [Prompt.parseText, hread]

/-- Keys that are not sorted, escapes in a string and in a key, negative zero, empty
collections and strings that mean something else without their quotes. -/
theorem Prompt.parseText_compact_escapes :
    let v : Json := .obj [("z", .arr [.null, .float (.zero true), .obj []]), ("id", .str "a\t\"é"),
      ("a\nb", .obj [("x: y", .int (-3)), ("", .arr [.str " # ", .bool true])])]
    v.WellFormed ∧ Yaml.spellable v = true ∧ Yaml.depth v ≤ Yaml.Value.depthLimit ∧
      Yaml.read v.compact = .ok v ∧ Prompt.parseText v.compact = Prompt.parse v :=
  ⟨by decide +kernel, by decide +kernel, by decide +kernel,
    Prompt.parseText_compact (by decide +kernel) (by decide +kernel) (by decide +kernel)⟩

end PromptDoc
