import PromptDoc.FrontMatter.Findings
import PromptDoc.Proofs.FrontMatter.Envelope
import PromptDoc.Proofs.Yaml.Breaks

/-!
# The line breaks of front matter

A carriage return before every line feed of a text makes no difference to what is
done with its front matter. The text is taken apart at the same places
(`Envelope.split?_toCrlf`), the block is read as the same document, and the stable
form has the line breaks of the text it is made from.
-/

namespace PromptDoc

open Text Yaml

namespace Envelope

/-- The envelope of a text with a carriage return before every line feed. -/
def toCrlf (e : Envelope) : Envelope :=
  ⟨Text.toCrlf e.block, Text.toCrlf e.closing, Text.toCrlf e.body, true⟩

/-! ## Taking a text apart -/

theorem takeBreak?_toCrlf {s : List Char} (h : '\r' ∉ s) :
    takeBreak? (Text.toCrlf s) = (takeBreak? s).map (Prod.map Text.toCrlf Text.toCrlf) := by
  cases s with
  | nil => rfl
  | cons c s =>
      by_cases hc : c = '\n'
      · rw [hc, toCrlf_lineFeed]
        rfl
      · have hreturn : c ≠ '\r' := fun hreturn => h (by simp [hreturn])
        rw [toCrlf_cons_of_ne hc, takeBreak?_of_ne hc hreturn, takeBreak?_of_ne hc hreturn]
        rfl

theorem startsWithHyphens_toCrlf (s : List Char) :
    startsWithHyphens (Text.toCrlf s) = startsWithHyphens s := by
  rw [Bool.eq_iff_iff]
  constructor
  · intro h
    obtain ⟨more, hmore⟩ := startsWithHyphens_eq_true h
    rw [← toLf_toCrlf s, hmore]
    rfl
  · intro h
    obtain ⟨more, rfl⟩ := startsWithHyphens_eq_true h
    rfl

theorem takeDelimiter?_toCrlf {s : List Char} (h : '\r' ∉ s) :
    takeDelimiter? (Text.toCrlf s) = (takeDelimiter? s).map (Prod.map Text.toCrlf Text.toCrlf) := by
  cases hstart : startsWithHyphens s with
  | false =>
      rw [takeDelimiter?_of_startsWithHyphens hstart,
        takeDelimiter?_of_startsWithHyphens ((startsWithHyphens_toCrlf s).trans hstart)]
      rfl
  | true =>
      obtain ⟨rest, rfl⟩ := startsWithHyphens_eq_true hstart
      have hrest : '\r' ∉ rest := fun hmem => h (by simp [hmem])
      cases rest with
      | nil => rfl
      | cons c rest =>
          have hne : Text.toCrlf (c :: rest) ≠ [] := fun hnil =>
            absurd (toLf_toCrlf (c :: rest)) (by simp [hnil, toLf])
          have hhyphens : Text.toCrlf ('-' :: '-' :: '-' :: c :: rest) =
              '-' :: '-' :: '-' :: Text.toCrlf (c :: rest) := rfl
          rw [hhyphens, takeDelimiter?, takeDelimiter?, takeBreak?_toCrlf hrest]
          · exact List.cons_ne_nil _ _
          · exact hne

theorem splitBlock?_toCrlf {s : List Char} (h : '\r' ∉ s) :
    splitBlock? (Text.toCrlf s) = (splitBlock? s).map
      (Prod.map Text.toCrlf (Prod.map Text.toCrlf Text.toCrlf)) := by
  induction s with
  | nil => rfl
  | cons c s ih =>
      have hreturn : c ≠ '\r' := fun hreturn => h (by simp [hreturn])
      have hs : '\r' ∉ s := fun hmem => h (by simp [hmem])
      have hdelimiter := takeDelimiter?_toCrlf hs
      by_cases hc : c = '\n'
      · subst hc
        rw [toCrlf_lineFeed]
        cases htake : takeDelimiter? s with
        | none =>
            rw [htake] at hdelimiter
            have hfeed : splitBlock? ('\n' :: s) = _ := splitBlock?_break (.inl rfl) htake
            refine (splitBlock?_break (.inr rfl) hdelimiter).trans ?_
            rw [hfeed, ih hs]
            cases splitBlock? s <;> rfl
        | some after =>
            rw [htake] at hdelimiter
            have hfeed : splitBlock? ('\n' :: s) = _ := splitBlock?_break_delimiter (.inl rfl) htake
            refine (splitBlock?_break_delimiter (.inr rfl) hdelimiter).trans ?_
            rw [hfeed]
            rfl
      · rw [toCrlf_cons_of_ne hc, splitBlock?_cons (closingAt?_of_ne hc hreturn _),
          splitBlock?_cons (closingAt?_of_ne hc hreturn _), ih hs]
        cases splitBlock? s with
        | none => rfl
        | some result => simp only [Option.map_some, Prod.map, toCrlf_cons_of_ne hc]

/-- The front matter stands at the same place of the text, whatever its line
breaks. -/
theorem split?_toCrlf {text : List Char} (h : '\r' ∉ text) :
    split? (Text.toCrlf text) = (split? text).map toCrlf := by
  have hdelimiter := takeDelimiter?_toCrlf h
  unfold split?
  cases htake : takeDelimiter? text with
  | none =>
      rw [hdelimiter, htake]
      rfl
  | some result =>
      obtain ⟨opening, rest⟩ := result
      have htext := takeDelimiter?_eq htake
      cases opening with
      | nil =>
          rw [hdelimiter, htake]
          rfl
      | cons c opening =>
          rcases takeDelimiter?_break htake (List.cons_ne_nil _ _) with heq | heq <;>
            obtain ⟨rfl, rfl⟩ := List.cons.inj heq
          · have hrest : '\r' ∉ rest := fun hmem => h (by simp [htext, hmem])
            have hcrlf : Text.hasCrlf (Text.toCrlf text) = true :=
              hasCrlf_toCrlf (by simp [htext])
            simp only [hdelimiter, htake, Option.map_some, Prod.map, toCrlf_lineFeed, hcrlf,
              splitBlock?_toCrlf hrest, Option.map_map]
            rfl
          · exact absurd (by simp [htext]) h

theorem not_mem_block {text : List Char} {e : Envelope} (he : split? text = some e)
    (h : '\r' ∉ text) : '\r' ∉ e.block := by
  obtain ⟨⟨opening, lineBreak, -, -, -, htext⟩, -⟩ := split?_eq he
  intro hmem
  exact h (by simp [htext, hmem])

theorem crlf_eq_false {text : List Char} {e : Envelope} (he : split? text = some e)
    (h : '\r' ∉ text) : e.crlf = false :=
  (split?_eq he).2.2.trans (hasCrlf_eq_false h)

theorem isBlank_toCrlf (e : Envelope) : e.toCrlf.isBlank = e.isBlank := by
  have hchar : ∀ c, (if c = '\n' then ['\r', '\n'] else [c]).all isSpace = isSpace c := by
    intro c
    split
    · next hc =>
      rw [hc]
      decide
    · simp
  simp only [isBlank, toCrlf, Text.toCrlf, List.all_flatMap, hchar]

/-! ## Putting it together, and reading it leniently -/

theorem rejoin_toCrlf {e : Envelope} (h : e.crlf = false) (block : List Char) :
    e.toCrlf.rejoin block = Text.toCrlf (e.rejoin block) := by
  simp only [rejoin, lineBreak, h, toCrlf, toCrlf_append]
  rfl

theorem load?_toCrlf {text : List Char} (h : '\r' ∉ text) :
    load? (Text.toCrlf text) = load? text := by
  rw [load?, load?, splitLines?, splitLines?, lines_toCrlf h]

end Envelope

/-! ## What is made of a text -/

namespace Stabilized

theorem changesOf_toCrlf {block : List Char} (h : '\r' ∉ block) (document : Json) :
    changesOf (toCrlf block) document = changesOf block document := by
  rw [changesOf, changesOf, toLf_toCrlf, toLf_eq_self h]

theorem ofDocument_toCrlf {text : List Char} {e : Envelope} (he : Envelope.split? text = some e)
    (h : '\r' ∉ text) (document : Json) :
    ofDocument (toCrlf text) e.toCrlf document =
      { ofDocument text e document with output := toCrlf (ofDocument text e document).output } := by
  have hrejoin := Envelope.rejoin_toCrlf (Envelope.crlf_eq_false he h)
    (Yaml.Layout.stable.document document.canonical)
  have hchanges := changesOf_toCrlf (Envelope.not_mem_block he h) document
  unfold ofDocument
  rw [hrejoin]
  by_cases hsame : e.rejoin (Yaml.Layout.stable.document document.canonical) = text
  · rw [if_pos hsame, if_pos (congrArg toCrlf hsame)]
    rfl
  · rw [if_neg hsame, if_neg fun heq => hsame (toCrlf_injective heq)]
    simp only [Envelope.toCrlf, hchanges]

theorem ofText_toCrlf {text : List Char} (h : '\r' ∉ text) :
    ofText (toCrlf text) =
      (ofText text).map fun s => { s with output := toCrlf s.output } := by
  unfold ofText
  rw [Envelope.split?_toCrlf h]
  cases he : Envelope.split? text with
  | none => rfl
  | some e =>
      simp only [Option.map_some, Envelope.isBlank_toCrlf]
      split
      · rfl
      · have hread : readChars e.toCrlf.block = readChars e.block :=
          readChars_toCrlf (Envelope.not_mem_block he h)
        rw [hread]
        cases readChars e.block with
        | error problem => rfl
        | ok document => exact congrArg Except.ok (ofDocument_toCrlf he h document)

end Stabilized

theorem Findings.ofText_toCrlf {text : List Char} (h : '\r' ∉ text) (unusedAreErrors : Bool) :
    ofText unusedAreErrors (toCrlf text) = ofText unusedAreErrors text := by
  unfold ofText
  rw [Envelope.split?_toCrlf h, Envelope.load?_toCrlf h]
  cases Envelope.split? text with
  | none => rfl
  | some e => simp only [Option.map_some, Envelope.isBlank_toCrlf]

/-- The kind of its line breaks shows only in the line breaks of the stable form of
a text: the changes, the findings and the errors are the same. -/
theorem outcome_toCrlf {text : List Char} (h : '\r' ∉ text) :
    Stabilized.ofText (toCrlf text) =
        (Stabilized.ofText text).map (fun s => { s with output := toCrlf s.output }) ∧
      ∀ unusedAreErrors,
        Findings.ofText unusedAreErrors (toCrlf text) = Findings.ofText unusedAreErrors text :=
  ⟨Stabilized.ofText_toCrlf h, Findings.ofText_toCrlf h⟩

/-- A block that is written anew on two lines. -/
theorem outcome_toCrlf_lines :
    let text := "---\nid: \"a\\nb\"\n---\nbody\n".toList
    let output := "---\nid: |-\n  a\n  b\n---\nbody\n".toList
    '\r' ∉ text ∧ Stabilized.ofText text = .ok ⟨output, true, [.layout]⟩ ∧
      Stabilized.ofText (toCrlf text) = .ok ⟨toCrlf output, true, [.layout]⟩ ∧
      ∀ unusedAreErrors,
        Findings.ofText unusedAreErrors (toCrlf text) = Findings.ofText unusedAreErrors text := by
  intro text output
  have h : '\r' ∉ text := by decide +kernel
  have hoftext : Stabilized.ofText text = .ok ⟨output, true, [.layout]⟩ := by
    decide +kernel
  refine ⟨h, hoftext, ?_, (outcome_toCrlf h).2⟩
  rw [(outcome_toCrlf h).1, hoftext]
  rfl

end PromptDoc
