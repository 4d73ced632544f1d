import PromptDoc.Proofs.FrontMatter.Envelope
import PromptDoc.Proofs.Text.Lines

/-!
# Putting a text together again

`Envelope.rejoin` puts line feeds in the text's own line breaks, so it undoes
`Envelope.split?` where there is one kind of them (`Envelope.rejoin_of_split?`).
Only the line breaks up to the closing delimiter count
(`Envelope.rejoin_toLf_block_iff`): what stands behind it is kept as it is.
-/

namespace PromptDoc

namespace Text

/-- What stands right before each line feed meets a condition; `last` stands before
the text. -/
def EveryFeed (P : Option Char → Prop) : Option Char → List Char → Prop
  | _, [] => True
  | last, c :: s => (c = '\n' → P last) ∧ EveryFeed P (some c) s

/-- Decides a condition on all line feeds. -/
def decEveryFeed (P : Option Char → Prop) [DecidablePred P] :
    (last : Option Char) → (s : List Char) → Decidable (EveryFeed P last s)
  | _, [] => isTrue trivial
  | last, c :: s =>
    have := decEveryFeed P (some c) s
    inferInstanceAs (Decidable ((c = '\n' → P last) ∧ EveryFeed P (some c) s))

instance (P : Option Char → Prop) [DecidablePred P] (last : Option Char) (s : List Char) :
    Decidable (EveryFeed P last s) :=
  decEveryFeed P last s

section

variable {P : Option Char → Prop} {last other : Option Char} {s t : List Char}

theorem EveryFeed.of_append (h : EveryFeed P last (s ++ t)) : EveryFeed P last s := by
  induction s generalizing last with
  | nil => trivial
  | cons c s ih => exact ⟨h.1, ih h.2⟩

/-- What stands before a text counts for a line feed at its start only. -/
theorem everyFeed_congr (h : s.head? = some '\n' → (P last ↔ P other)) :
    EveryFeed P last s ↔ EveryFeed P other s := by
  cases s with
  | nil => rfl
  | cons c s =>
      refine and_congr_left fun _ => imp_congr_right fun hc => h ?_
      rw [hc]
      rfl

/-- No line feed belongs to a carriage return. -/
theorem hasCrlf_cons_eq_false_iff {c : Char} :
    hasCrlf (c :: s) = false ↔ EveryFeed (· ≠ some '\r') (some c) s := by
  induction s generalizing c with
  | nil => simp [hasCrlf, EveryFeed]
  | cons d s ih =>
      by_cases hbreak : c = '\r' ∧ d = '\n'
      · obtain ⟨rfl, rfl⟩ := hbreak
        simp [hasCrlf, EveryFeed]
      · have hcons : hasCrlf (c :: d :: s) = hasCrlf (d :: s) := by
          rw [hasCrlf]
          rintro more rfl hmore
          exact hbreak ⟨rfl, (List.cons.inj hmore).1⟩
        rw [hcons, ih, EveryFeed, and_iff_right]
        intro hd hc
        exact hbreak ⟨Option.some.inj hc, hd⟩

theorem hasCrlf_eq_false_iff : hasCrlf s = false ↔ EveryFeed (· ≠ some '\r') none s := by
  cases s with
  | nil => simp [hasCrlf, EveryFeed]
  | cons c s => rw [hasCrlf_cons_eq_false_iff, EveryFeed, and_iff_right fun _ => by simp]

/-- Every line feed belongs to a carriage return exactly when the text is the one that
its lines are written as with such breaks. -/
theorem toCrlf_toLf_eq_self_iff :
    toCrlf (toLf s) = s ↔ EveryFeed (· = some '\r') none s := by
  fun_induction toLf s with
  | case1 => simp [toCrlf, EveryFeed]
  | case2 rest ih =>
      have hrest : EveryFeed (· = some '\r') none rest ↔
          EveryFeed (· = some '\r') (some '\n') rest :=
        everyFeed_congr fun _ => by simp
      simp [toCrlf_lineFeed, EveryFeed, ih, hrest]
  | case3 c rest hbreak ih =>
      by_cases hc : c = '\n'
      · subst hc
        simp [toCrlf_lineFeed, EveryFeed]
      · have hrest : EveryFeed (· = some '\r') none rest ↔
            EveryFeed (· = some '\r') (some c) rest := by
          refine everyFeed_congr fun hhead => ?_
          have hreturn : c ≠ '\r' := fun hreturn => head?_ne_lineFeed hbreak hreturn hhead
          simp [hreturn]
        simp [toCrlf_cons_of_ne hc, EveryFeed, hc, ih, hrest]

theorem toLf_eq_self_of_hasCrlf (h : hasCrlf s = false) : toLf s = s := by
  fun_induction toLf s with
  | case1 => rfl
  | case2 rest ih => cases h
  | case3 c rest hbreak ih =>
      rw [hasCrlf] at h
      · rw [ih h]
      · exact fun more hc hrest => hbreak more hc hrest

end

theorem unlines_append {ls ms : List (List Char)} (hls : ls ≠ []) (hms : ms ≠ []) :
    unlines (ls ++ ms) = unlines ls ++ '\n' :: unlines ms := by
  induction ls with
  | nil => exact absurd rfl hls
  | cons l ls ih =>
      cases ls with
      | nil =>
          obtain ⟨m, ms, rfl⟩ := List.exists_cons_of_ne_nil hms
          rfl
      | cons k ls =>
          have hrest := ih (List.cons_ne_nil k ls)
          rw [List.cons_append] at hrest
          rw [List.cons_append, List.cons_append, unlines, hrest, unlines, List.append_assoc,
            List.cons_append]

/-- A line break between two texts becomes a line feed, whatever its kind. -/
theorem toLf_append {lineBreak : List Char}
    (hbreak : lineBreak = ['\n'] ∨ lineBreak = ['\r', '\n']) {s : List Char}
    (hs : lineBreak = ['\n'] → s.getLast? ≠ some '\r') (t : List Char) :
    toLf (s ++ (lineBreak ++ t)) = toLf s ++ '\n' :: toLf t := by
  rw [← unlines_lines, lines_append hbreak hs, unlines_append (lines_ne_nil s) (lines_ne_nil t),
    unlines_lines, unlines_lines]

end Text

namespace Envelope

open Text

/-- The text up to the end of the closing delimiter. -/
def front (text : List Char) (e : Envelope) : List Char :=
  text.take (text.length - (e.closing ++ e.body).length)

variable {text : List Char} {e : Envelope} (h : split? text = some e)

include h

/-- With line feeds for line breaks, the front of a text is the block between two
delimiters. -/
theorem front_eq : text = front text e ++ (e.closing ++ e.body) ∧
    toLf (front text e) =
      ['-', '-', '-'] ++ '\n' :: (toLf e.block ++ '\n' :: ['-', '-', '-']) := by
  obtain ⟨⟨opening, lineBreak, hopening, hbreak, hlast, htext⟩, -, -⟩ := split?_eq h
  have hwhole : text = ['-', '-', '-'] ++ (opening ++ (e.block ++ (lineBreak ++
      ['-', '-', '-']))) ++ (e.closing ++ e.body) := by
    rw [htext]
    simp only [List.append_assoc]
  have hfront : front text e =
      ['-', '-', '-'] ++ (opening ++ (e.block ++ (lineBreak ++ ['-', '-', '-']))) := by
    rw [front, hwhole, List.length_append, Nat.add_sub_cancel]
    exact List.take_left
  refine ⟨by rw [hfront, ← hwhole], ?_⟩
  rw [hfront, toLf_append hopening (fun _ => by simp), toLf_append hbreak hlast]
  rfl

/-- The block of a text is put between delimiters with line breaks of the text's own
kind. -/
theorem rejoin_toLf_block_eq : e.rejoin (toLf e.block ++ ['\n']) =
    e.withBreaks (toLf (front text e)) ++ (e.closing ++ e.body) := by
  have hhyphens : e.withBreaks ['-', '-', '-'] = ['-', '-', '-'] := rfl
  rw [rejoin_append_lineFeed, (front_eq h).2, withBreaks_append, withBreaks_lineFeed,
    withBreaks_append, withBreaks_lineFeed, hhyphens]
  simp only [List.append_assoc]

/-- The text comes back when all line breaks up to the closing delimiter are of its own
kind. -/
theorem rejoin_toLf_block_iff : e.rejoin (toLf e.block ++ ['\n']) = text ↔
    (hasCrlf text = true → EveryFeed (· = some '\r') none (front text e)) := by
  obtain ⟨htext, -⟩ := front_eq h
  have hfront : e.rejoin (toLf e.block ++ ['\n']) = text ↔
      e.withBreaks (toLf (front text e)) = front text e := by
    rw [rejoin_toLf_block_eq h]
    nth_rewrite 2 [htext]
    exact List.append_left_inj _
  rw [hfront, ← convert_eq_withBreaks, (split?_eq h).2.2]
  cases hcrlf : hasCrlf text with
  | true => simp [toCrlf_toLf_eq_self_iff]
  | false =>
      have hnone : hasCrlf (front text e) = false := by
        rw [htext, hasCrlf_eq_false_iff] at hcrlf
        exact hasCrlf_eq_false_iff.2 hcrlf.of_append
      simp [toLf_eq_self_of_hasCrlf hnone]

omit h

/-- Around every block the closing delimiter has a line of its own, and what stands
behind it is kept. -/
theorem suffix_rejoin (e : Envelope) (block : List Char) :
    e.lineBreak ++ (['-', '-', '-'] ++ (e.closing ++ e.body)) <:+ e.rejoin block := by
  obtain ⟨s, hs⟩ : ∃ s, terminate block = s ++ ['\n'] := by
    rw [terminate]
    split
    · next hlast =>
      obtain ⟨s, rfl⟩ := List.getLast?_eq_some_iff.1 hlast
      exact ⟨s, rfl⟩
    · exact ⟨block, rfl⟩
  have hsame : e.rejoin block = e.rejoin (s ++ ['\n']) := by
    have hterminate : terminate (s ++ ['\n']) = s ++ ['\n'] := by
      rw [terminate, if_pos List.getLast?_concat]
    rw [rejoin, rejoin, hs, hterminate]
  rw [hsame, rejoin_append_lineFeed]
  refine ⟨['-', '-', '-'] ++ (e.lineBreak ++ e.withBreaks s), ?_⟩
  simp only [List.append_assoc]

/-- A text with one kind of line breaks comes back when it is taken apart and its block,
with line feeds for line breaks and one more behind it, is put where it was. Whatever
block is put there, the delimiter behind it, this delimiter's line break and the body
stay. -/
theorem rejoin_of_split? {text : List Char} {e : Envelope} (h : split? text = some e)
    (hbreaks : EveryFeed (· = some '\r') none text ∨ EveryFeed (· ≠ some '\r') none text) :
    e.rejoin (toLf e.block ++ ['\n']) = text ∧
      ∀ block, e.lineBreak ++ (['-', '-', '-'] ++ (e.closing ++ e.body)) <:+ e.rejoin block := by
  refine ⟨(rejoin_toLf_block_iff h).2 fun hcrlf => ?_, suffix_rejoin e⟩
  obtain hreturns | hfeeds := hbreaks
  · rw [(front_eq h).1] at hreturns
    exact hreturns.of_append
  · rw [hasCrlf_eq_false_iff.2 hfeeds] at hcrlf
    cases hcrlf

/-- A carriage return that belongs to no line break, a blank last line and nothing
behind the closing delimiter. -/
theorem rejoin_of_split?_blank :
    let text := "---\r\nid: a\r\r\n\r\n---".toList
    let e : Envelope := ⟨"id: a\r\r\n".toList, [], [], true⟩
    split? text = some e ∧ EveryFeed (· = some '\r') none text ∧
      e.rejoin "id: a\r\n\n".toList = text ∧
      ∀ block, e.lineBreak ++ (['-', '-', '-'] ++ (e.closing ++ e.body)) <:+ e.rejoin block := by
  intro text e
  have h : split? text = some e := by decide +kernel
  have hbreaks : EveryFeed (· = some '\r') none text := by decide +kernel
  exact ⟨h, hbreaks, rejoin_of_split? h (.inl hbreaks)⟩

end Envelope

end PromptDoc
