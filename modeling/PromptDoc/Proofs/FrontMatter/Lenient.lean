import PromptDoc.Proofs.FrontMatter.Envelope
import PromptDoc.Proofs.Yaml.Breaks

/-!
# Two readers of front matter

`Envelope.split?` takes a text apart character by character, `Envelope.load?` line
by line and more leniently. Where the first finds a block the second finds one
too: the lines of that block up to the first that is a delimiter but for white
space at its end, without the white space around them (`lenientBlock`). So both
read the same document unless one of these liberties is taken with the block.
-/

namespace PromptDoc

open Yaml

namespace Envelope

/-- The block that is read leniently. -/
def lenientBlock (e : Envelope) : List Char :=
  Text.trim (Text.unlines ((Text.lines e.block).takeWhile (!isDelimiter ·)))

/-- The lines of a text with front matter: a delimiter, the lines of the block,
another delimiter and whatever comes after it. -/
theorem lines_of_split? {text : List Char} {e : Envelope} (h : split? text = some e) :
    ∃ after, Text.lines text =
      ['-', '-', '-'] :: (Text.lines e.block ++ ['-', '-', '-'] :: after) := by
  obtain ⟨⟨opening, lineBreak, hopening, hbreak, hlast, htext⟩, htake, -⟩ := split?_eq h
  have hhyphens : Text.lines ['-', '-', '-'] = [['-', '-', '-']] := rfl
  have hclosing : ∃ after, Text.lines (['-', '-', '-'] ++ (e.closing ++ e.body)) =
      ['-', '-', '-'] :: after := by
    by_cases hnil : e.closing = []
    · have hbody : e.body = [] := takeDelimiter?_nil (hnil ▸ htake)
      exact ⟨[], by rw [hnil, hbody]; rfl⟩
    · have hafter := Text.lines_append (takeDelimiter?_break htake hnil)
        (s := ['-', '-', '-']) (fun _ => by simp) e.body
      exact ⟨Text.lines e.body, by rw [hafter, hhyphens]; rfl⟩
  obtain ⟨after, hafter⟩ := hclosing
  refine ⟨after, ?_⟩
  rw [htext, Text.lines_append hopening (fun _ => by simp), Text.lines_append hbreak hlast,
    hhyphens, hafter]
  rfl

/-- Reading leniently always finds a block where there is one. -/
theorem splitLines?_of_split? {text : List Char} {e : Envelope} (h : split? text = some e) :
    ∃ after, splitLines? text =
      some ((Text.lines e.block).takeWhile (!isDelimiter ·), after) := by
  obtain ⟨after, hlines⟩ := lines_of_split? h
  have hdelimiter : isDelimiter ['-', '-', '-'] = true := by decide
  have htake : (Text.lines e.block ++ ['-', '-', '-'] :: after).takeWhile (!isDelimiter ·) =
      (Text.lines e.block).takeWhile (!isDelimiter ·) := by
    have hstop : (['-', '-', '-'] :: after).takeWhile (!isDelimiter ·) = [] :=
      List.takeWhile_cons_of_neg (by simp [hdelimiter])
    rw [List.takeWhile_append, hstop, List.append_nil]
    split
    · next hall => exact ((List.takeWhile_prefix _).eq_of_length hall).symm
    · rfl
  have hdrop : (Text.lines e.block ++ ['-', '-', '-'] :: after).dropWhile (!isDelimiter ·) ≠
      [] := by
    rw [ne_eq, List.dropWhile_eq_nil_iff]
    intro hall
    simpa [hdelimiter] using hall ['-', '-', '-'] (by simp)
  obtain ⟨line, more, hmore⟩ := List.exists_cons_of_ne_nil hdrop
  refine ⟨more, ?_⟩
  rw [splitLines?, hlines]
  simp only
  rw [if_pos hdelimiter, hmore, htake]

theorem loads_iff_lenientBlock {text : List Char} {e : Envelope} (h : split? text = some e)
    (document : Json) :
    (∃ body, load? text = some (document, body)) ↔ readChars e.lenientBlock = .ok document := by
  obtain ⟨after, hlines⟩ := splitLines?_of_split? h
  rw [lenientBlock, load?, hlines]
  simp only
  cases readChars (Text.trim (Text.unlines ((Text.lines e.block).takeWhile (!isDelimiter ·)))) with
  | error problem => simp
  | ok other => simp

/-- No liberty is taken with a block that is what it looks like. -/
theorem lenientBlock_eq {e : Envelope}
    (hlines : ∀ line ∈ Text.lines e.block, isDelimiter line = false)
    (htrim : Text.trim e.block = e.block) : e.lenientBlock = Text.toLf e.block := by
  have htake : (Text.lines e.block).takeWhile (!isDelimiter ·) = Text.lines e.block :=
    List.takeWhile_eq_self_iff.2 fun line hline => by simp [hlines line hline]
  obtain ⟨hhead, hlast⟩ := Text.trim_eq_self_iff.1 htrim
  have hreturn : e.block.head? ≠ some '\r' := fun hreturn =>
    absurd (hhead '\r' hreturn) (by decide)
  rw [lenientBlock, htake, Text.unlines_lines, Text.trim_eq_self_iff, Text.head?_toLf hreturn,
    Text.getLast?_toLf]
  exact ⟨hhead, hlast⟩

/-- The lenient reader finds what the lenient block holds. That is what the block
holds if no line of it looks like a delimiter, no white space stands around it and
no carriage return stands before one of its line breaks. -/
theorem loads_iff {text : List Char} {e : Envelope} (h : split? text = some e) :
    (∀ document, (∃ body, load? text = some (document, body)) ↔
        readChars e.lenientBlock = .ok document) ∧
      ((∀ line ∈ Text.lines e.block, isDelimiter line = false) → Text.trim e.block = e.block →
        ¬ ['\r', '\r', '\n'] <:+: e.block →
        ∀ document, (∃ body, load? text = some (document, body)) ↔
          readChars e.block = .ok document) := by
  refine ⟨loads_iff_lenientBlock h, fun hlines htrim hreturns document => ?_⟩
  rw [loads_iff_lenientBlock h, lenientBlock_eq hlines htrim, readChars_toLf hreturns]

theorem loads_iff_carriageReturns :
    let text := "---\r\nid: a\r\nname: b\n---\nbody".toList
    let e : Envelope := ⟨"id: a\r\nname: b".toList, ['\n'], "body".toList, true⟩
    let document : Json := .obj [("id", .str "a"), ("name", .str "b")]
    split? text = some e ∧ e.lenientBlock = "id: a\nname: b".toList ∧
      readChars e.block = .ok document ∧ ∃ body, load? text = some (document, body) := by
  have h : split? "---\r\nid: a\r\nname: b\n---\nbody".toList =
      some ⟨"id: a\r\nname: b".toList, ['\n'], "body".toList, true⟩ := by
    decide +kernel
  refine ⟨h, by decide +kernel, by decide +kernel, ?_⟩
  refine ((loads_iff h).2 ?_ ?_ ?_ _).2 ?_ <;> decide +kernel

/-- A line that is a delimiter but for a space marks the start of a document in the
block, and its end for the lenient reader: that one finds no document there. -/
theorem not_loads_iff_block :
    ¬ ∀ text e, split? text = some e → e.isBlank = false →
      ∀ document, (∃ body, load? text = some (document, body)) ↔
        readChars e.block = .ok document := by
  intro h
  have hload : load? "---\n--- \nid: a\n---\nbody".toList =
      some (.null, "id: a\n---\nbody".toList) := by
    decide +kernel
  have hdocument := h "---\n--- \nid: a\n---\nbody".toList
    ⟨"--- \nid: a".toList, ['\n'], "body".toList, false⟩ (by decide +kernel) (by decide +kernel)
    (.obj [("id", .str "a")])
  obtain ⟨body, hbody⟩ := hdocument.2 (by decide +kernel)
  rw [hload] at hbody
  cases hbody

end Envelope

end PromptDoc
