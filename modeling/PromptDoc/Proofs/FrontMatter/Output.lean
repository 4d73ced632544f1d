import PromptDoc.FrontMatter.Stable
import PromptDoc.Proofs.FrontMatter.Envelope
import PromptDoc.Proofs.Text.Lines
import PromptDoc.Proofs.Yaml.Reading
import PromptDoc.Text.Pieces

/-!
# What surrounds a stable block

Bringing front matter into its stable form changes nothing around the block, and
the block of the outcome is what the writer gave, in the text's own line breaks
and without the last one. This needs no limits on the document: no string and no
key can put a delimiter's line into the block.
-/

namespace PromptDoc

open Yaml

namespace Envelope

/-- The lines of a block are those of the written text. -/
theorem lines_withBreaks (e : Envelope) {s : List Char} (hs : ∀ c ∈ s, c ≠ '\r') :
    Text.lines (e.withBreaks s) = Text.pieces '\n' s := by
  induction s with
  | nil => rfl
  | cons c s ih =>
      have ih := ih fun d hd => hs d (by simp [hd])
      by_cases hc : c = '\n'
      · rw [hc, withBreaks_lineFeed, Text.pieces_cons_separator, ← ih]
        rcases lineBreak_eq e with h | h <;> rw [h] <;> rfl
      · cases hpieces : Text.pieces '\n' s with
        | nil => exact absurd hpieces (Text.pieces_ne_nil '\n' s)
        | cons piece others =>
            rw [hpieces] at ih
            rw [withBreaks_cons_of_ne e hc, Text.pieces_cons_of_ne hc hpieces,
              Text.lines_cons hc (fun h => absurd h (hs c (by simp))) ih]

/-- The first line is a front part of the text, and the others stand behind a
line feed. -/
theorem startsWithHyphens_of_pieces {s first : List Char} {others : List (List Char)}
    (hfree : MarkerFree s) (h : Text.pieces '\n' s = first :: others) :
    (∃ rest, s = first ++ rest) ∧ ∀ line ∈ others, startsWithHyphens line = false := by
  induction s generalizing first others with
  | nil =>
      obtain ⟨rfl, rfl⟩ := List.cons.inj h
      exact ⟨⟨[], rfl⟩, fun line hline => nomatch hline⟩
  | cons c s ih =>
      cases hpieces : Text.pieces '\n' s with
      | nil => exact absurd hpieces (Text.pieces_ne_nil '\n' s)
      | cons piece more =>
          obtain ⟨⟨rest, hrest⟩, hmore⟩ := ih hfree.2 hpieces
          by_cases hc : c = '\n'
          · rw [hc, Text.pieces_cons_separator, hpieces] at h
            obtain ⟨rfl, rfl⟩ := List.cons.inj h
            refine ⟨⟨c :: s, rfl⟩, fun line hline => ?_⟩
            rcases List.mem_cons.1 hline with rfl | hline
            · exact startsWithHyphens_of_append (hrest ▸ hfree.1 hc)
            · exact hmore line hline
          · rw [Text.pieces_cons_of_ne hc hpieces] at h
            obtain ⟨rfl, rfl⟩ := List.cons.inj h
            exact ⟨⟨rest, by rw [hrest]; rfl⟩, hmore⟩

/-- No line of a block starts with three hyphens when none of the text does. -/
theorem startsWithHyphens_of_mem_lines (e : Envelope) {s : List Char}
    (hfree : MarkerFree ('\n' :: s)) (hs : ∀ c ∈ s, c ≠ '\r') {line : List Char}
    (hline : line ∈ Text.lines (e.withBreaks s)) : startsWithHyphens line = false := by
  rw [lines_withBreaks e hs] at hline
  exact (startsWithHyphens_of_pieces hfree (Text.pieces_cons_separator '\n' s)).2 line hline

end Envelope

namespace Yaml

/-- A written document has no carriage return, whatever the strings in it are. -/
theorem ne_return_of_mem_body {o : Layout} {v : Json} {c : Char} (h : c ∈ o.body v) :
    c ≠ '\r' := by
  have hprint : ∀ d, isPrintable d = true → d ≠ '\r' := by
    rintro d hd rfl
    exact absurd hd (by decide)
  refine (forall_mem_body hprint (by decide) o v).2 ?_ c h
  rintro s hs d hd rfl
  obtain ⟨-, n, hblock⟩ := Layout.of_mem_blocksRoot hs
  exact absurd (Layout.of_isBlock hblock _ hd) (by decide)

/-- The lines of a written document do not look like delimiters, and the last
line feed aside there is none to worry about. -/
theorem markerFree_body (o : Layout) (v : Json) : MarkerFree ('\n' :: o.body v) := by
  have h := markerFree_document o v
  rw [Layout.document_eq_body, ← List.cons_append] at h
  exact h.of_append

end Yaml

namespace Stabilized

theorem output_ofDocument (text : List Char) (e : Envelope) (document : Json) :
    (ofDocument text e document).output =
      e.rejoin (Layout.stable.document document.canonical) := by
  unfold ofDocument
  simp only
  split
  · next h => exact h.symm
  · rfl

/-- The stable form of a text whose block is not blank. -/
theorem ofText_of_split? {text : List Char} {e : Envelope} (h : Envelope.split? text = some e)
    (hblank : e.isBlank = false) :
    ofText text = (readChars e.block).map (ofDocument text e) := by
  rw [ofText, h]
  simp only [hblank, Bool.false_eq_true, if_false]

theorem exists_document {text : List Char} {e : Envelope} {s : Stabilized}
    (h : Envelope.split? text = some e) (hblank : e.isBlank = false) (hs : ofText text = .ok s) :
    ∃ document, readChars e.block = .ok document ∧ s = ofDocument text e document := by
  rw [ofText_of_split? h hblank] at hs
  cases hread : readChars e.block with
  | error problem =>
      rw [hread] at hs
      cases hs
  | ok document =>
      rw [hread] at hs
      exact ⟨document, rfl, (Except.ok.inj hs).symm⟩

/-- The block of the outcome is the written document without its last line
feed. -/
theorem split?_ofDocument {text : List Char} {e : Envelope} (h : Envelope.split? text = some e)
    (document : Json) :
    Envelope.split? (ofDocument text e document).output =
      some { e with block := e.withBreaks (Layout.stable.body document.canonical) } := by
  rw [output_ofDocument, Layout.document_eq_body]
  exact Envelope.split?_rejoin h (markerFree_body .stable document.canonical).2
    fun c hc => ne_return_of_mem_body hc

/-- The stable form of a text keeps its kind of line breaks, the break behind
the closing delimiter and the body; its block, with a line break behind it, is
the written document in the text's own line breaks, and no line of it can be
taken for a delimiter. -/
theorem split?_output {text : List Char} {e : Envelope} {s : Stabilized}
    (hsplit : Envelope.split? text = some e) (hblank : e.isBlank = false)
    (hs : ofText text = .ok s) :
    ∃ document block, readChars e.block = .ok document ∧
      Envelope.split? s.output = some { e with block := block } ∧
      block ++ e.lineBreak = e.withBreaks (Layout.stable.document document.canonical) ∧
      ∀ line ∈ Text.lines block, startsWithHyphens line = false := by
  obtain ⟨document, hread, rfl⟩ := exists_document hsplit hblank hs
  have hfree := markerFree_body .stable document.canonical
  have hreturn : ∀ c ∈ Layout.stable.body document.canonical, c ≠ '\r' :=
    fun c hc => ne_return_of_mem_body hc
  refine ⟨document, _, hread, split?_ofDocument hsplit document, ?_, ?_⟩
  · rw [Layout.document_eq_body, Envelope.withBreaks_append, Envelope.withBreaks_lineFeed,
      Envelope.withBreaks_nil, List.append_nil]
  · intro line hline
    exact Envelope.startsWithHyphens_of_mem_lines e hfree hreturn hline

/-- A string that looks like a delimiter, in a text with both kinds of line
breaks and nothing behind its last line. -/
theorem split?_output_hyphens :
    let text := "---\nid: \"---\"\n---\r\nbody".toList
    let e : Envelope := ⟨"id: \"---\"".toList, ['\r', '\n'], "body".toList, true⟩
    let s : Stabilized := ⟨"---\r\nid: '---'\r\n---\r\nbody".toList, true, [.layout]⟩
    Envelope.split? text = some e ∧ e.isBlank = false ∧ ofText text = .ok s ∧
      ∃ document block, readChars e.block = .ok document ∧
        Envelope.split? s.output = some { e with block := block } ∧
        block ++ e.lineBreak = e.withBreaks (Layout.stable.document document.canonical) ∧
        ∀ line ∈ Text.lines block, startsWithHyphens line = false := by
  have hsplit : Envelope.split? "---\nid: \"---\"\n---\r\nbody".toList =
      some ⟨"id: \"---\"".toList, ['\r', '\n'], "body".toList, true⟩ := by
    decide +kernel
  have hs : ofText "---\nid: \"---\"\n---\r\nbody".toList =
      .ok ⟨"---\r\nid: '---'\r\n---\r\nbody".toList, true, [.layout]⟩ := by
    decide +kernel
  exact ⟨hsplit, by decide +kernel, hs, split?_output hsplit (by decide +kernel) hs⟩

end Stabilized

end PromptDoc
