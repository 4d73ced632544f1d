import PromptDoc.FrontMatter.Stable
import PromptDoc.Proofs.Yaml.Marker

/-!
# Envelopes around written blocks

A block that is put into an envelope is found there again when no line of it
looks like a delimiter. Written documents are of that kind, so bringing front
matter into its stable form keeps everything around the block: the kind of line
breaks, the break behind the closing delimiter and the body.
-/

namespace PromptDoc

namespace Text

theorem hasCrlf_append {s t : List Char} (h : hasCrlf t = true) : hasCrlf (s ++ t) = true := by
  induction s with
  | nil => exact h
  | cons c s ih =>
      rw [List.cons_append]
      unfold hasCrlf
      split
      · next heq => cases heq
      · rfl
      · next heq =>
        obtain ⟨-, rfl⟩ := List.cons.inj heq
        exact ih

theorem hasCrlf_append_of_ne {s : List Char} (hs : ∀ c ∈ s, c ≠ '\r') (t : List Char) :
    hasCrlf (s ++ t) = hasCrlf t := by
  induction s with
  | nil => rfl
  | cons c s ih =>
      have hc := hs c (by simp)
      rw [List.cons_append, hasCrlf]
      · exact ih fun d hd => hs d (by simp [hd])
      · intro more heq
        exact absurd heq hc

end Text

namespace Envelope

open Yaml

/-! ## Delimiters -/

theorem takeBreak?_eq {s lineBreak rest : List Char} (h : takeBreak? s = some (lineBreak, rest)) :
    s = lineBreak ++ rest ∧ (lineBreak = ['\n'] ∨ lineBreak = ['\r', '\n']) := by
  unfold takeBreak? at h
  split at h
  · obtain ⟨rfl, rfl⟩ := Prod.mk.inj (Option.some.inj h)
    exact ⟨rfl, .inr rfl⟩
  · obtain ⟨rfl, rfl⟩ := Prod.mk.inj (Option.some.inj h)
    exact ⟨rfl, .inl rfl⟩
  · cases h

theorem takeDelimiter?_eq {s lineBreak rest : List Char}
    (h : takeDelimiter? s = some (lineBreak, rest)) :
    s = ['-', '-', '-'] ++ (lineBreak ++ rest) := by
  unfold takeDelimiter? at h
  split at h
  · obtain ⟨rfl, rfl⟩ := Prod.mk.inj (Option.some.inj h)
    rfl
  · obtain ⟨rfl, -⟩ := takeBreak?_eq h
    rfl
  · cases h

theorem takeDelimiter?_break {s lineBreak rest : List Char}
    (h : takeDelimiter? s = some (lineBreak, rest)) (hne : lineBreak ≠ []) :
    lineBreak = ['\n'] ∨ lineBreak = ['\r', '\n'] := by
  unfold takeDelimiter? at h
  split at h
  · obtain ⟨rfl, -⟩ := Prod.mk.inj (Option.some.inj h)
    exact absurd rfl hne
  · exact (takeBreak?_eq h).2
  · cases h

theorem takeDelimiter?_nil {s rest : List Char} (h : takeDelimiter? s = some ([], rest)) :
    rest = [] := by
  unfold takeDelimiter? at h
  split at h
  · exact (Prod.mk.inj (Option.some.inj h)).2.symm
  · rcases (takeBreak?_eq h).2 with hbreak | hbreak <;> cases hbreak
  · cases h

theorem takeDelimiter?_of_startsWithHyphens {s : List Char} (h : startsWithHyphens s = false) :
    takeDelimiter? s = none := by
  unfold takeDelimiter?
  split
  · cases h
  · cases h
  · rfl

/-- The text around a block: the line break before the closing delimiter, which no
carriage return of the block belongs to, the delimiter, its own line break and the
body. -/
theorem splitBlock?_eq {s block closing body : List Char}
    (h : splitBlock? s = some (block, closing, body)) :
    ∃ lineBreak, (lineBreak = ['\n'] ∨ lineBreak = ['\r', '\n']) ∧
      (lineBreak = ['\n'] → block.getLast? ≠ some '\r') ∧
      s = block ++ (lineBreak ++ (['-', '-', '-'] ++ (closing ++ body))) ∧
      takeDelimiter? (['-', '-', '-'] ++ (closing ++ body)) = some (closing, body) := by
  induction s generalizing block with
  | nil => cases h
  | cons c s ih =>
      rw [splitBlock?] at h
      cases hclosing : closingAt? (c :: s) with
      | none =>
          rw [hclosing] at h
          obtain ⟨⟨block', after⟩, hrest, heq⟩ := Option.map_eq_some_iff.1 h
          obtain ⟨rfl, rfl⟩ := Prod.mk.inj heq
          obtain ⟨lineBreak, hbreak, hlast, rfl, htake⟩ := ih hrest
          refine ⟨lineBreak, hbreak, fun hfeed => ?_, rfl, htake⟩
          cases block' with
          | cons d block' =>
              rw [List.getLast?_cons_cons]
              exact hlast hfeed
          | nil =>
              -- Behind a carriage return the delimiter would have been found here.
              intro hreturn
              obtain rfl : c = '\r' := Option.some.inj hreturn
              subst hfeed
              have hfound : closingAt? ('\r' :: '\n' :: (['-', '-', '-'] ++ (closing ++ body))) =
                  takeDelimiter? (['-', '-', '-'] ++ (closing ++ body)) := rfl
              rw [htake] at hfound
              exact absurd (hclosing.symm.trans hfound) (by simp)
      | some result =>
          obtain ⟨closing', body'⟩ := result
          rw [hclosing] at h
          obtain ⟨rfl, heq⟩ := Prod.mk.inj (Option.some.inj h)
          obtain ⟨rfl, rfl⟩ := Prod.mk.inj heq
          obtain ⟨⟨lineBreak, rest⟩, hbreak, htake⟩ := Option.bind_eq_some_iff.1 hclosing
          have hrest := takeDelimiter?_eq htake
          obtain ⟨heq, hkind⟩ := takeBreak?_eq hbreak
          exact ⟨lineBreak, hkind, fun _ => by simp, by rw [heq, hrest]; rfl, hrest ▸ htake⟩

/-- What a text with front matter is taken apart from. -/
theorem split?_eq {text : List Char} {e : Envelope} (h : split? text = some e) :
    (∃ opening lineBreak, (opening = ['\n'] ∨ opening = ['\r', '\n']) ∧
        (lineBreak = ['\n'] ∨ lineBreak = ['\r', '\n']) ∧
        (lineBreak = ['\n'] → e.block.getLast? ≠ some '\r') ∧
        text = ['-', '-', '-'] ++ (opening ++
          (e.block ++ (lineBreak ++ (['-', '-', '-'] ++ (e.closing ++ e.body)))))) ∧
      takeDelimiter? (['-', '-', '-'] ++ (e.closing ++ e.body)) = some (e.closing, e.body) ∧
      e.crlf = Text.hasCrlf text := by
  unfold split? at h
  split at h
  · next c opening rest htake =>
    obtain ⟨⟨block, closing, body⟩, hrest, heq⟩ := Option.map_eq_some_iff.1 h
    subst heq
    obtain ⟨lineBreak, hbreak, hlast, rfl, hclosing⟩ := splitBlock?_eq hrest
    refine ⟨⟨c :: opening, lineBreak, ?_, hbreak, hlast, takeDelimiter?_eq htake⟩, hclosing, rfl⟩
    exact takeDelimiter?_break htake (by simp)
  · cases h

/-! ## Putting a block into an envelope -/

/-- A text with the envelope's own line breaks in place of its line feeds. -/
def withBreaks (e : Envelope) (s : List Char) : List Char :=
  s.flatMap fun c => if c = '\n' then e.lineBreak else [c]

theorem withBreaks_nil (e : Envelope) : e.withBreaks [] = [] :=
  rfl

theorem withBreaks_cons_of_ne (e : Envelope) {c : Char} (h : c ≠ '\n') (s : List Char) :
    e.withBreaks (c :: s) = c :: e.withBreaks s := by
  rw [withBreaks, List.flatMap_cons, if_neg h]
  rfl

theorem withBreaks_lineFeed (e : Envelope) (s : List Char) :
    e.withBreaks ('\n' :: s) = e.lineBreak ++ e.withBreaks s := by
  rw [withBreaks, List.flatMap_cons, if_pos rfl]
  rfl

theorem withBreaks_append (e : Envelope) (s t : List Char) :
    e.withBreaks (s ++ t) = e.withBreaks s ++ e.withBreaks t :=
  List.flatMap_append

theorem lineBreak_eq (e : Envelope) : e.lineBreak = ['\n'] ∨ e.lineBreak = ['\r', '\n'] := by
  unfold lineBreak
  split
  · exact .inr rfl
  · exact .inl rfl

theorem withBreaks_of_crlf_eq_false {e : Envelope} (h : e.crlf = false) (s : List Char) :
    e.withBreaks s = s := by
  induction s with
  | nil => rfl
  | cons c s ih =>
      by_cases hc : c = '\n'
      · rw [hc, withBreaks_lineFeed, ih, lineBreak, h]
        rfl
      · rw [withBreaks_cons_of_ne e hc, ih]

theorem convert_eq_withBreaks (e : Envelope) (s : List Char) :
    (if e.crlf then Text.toCrlf s else s) = e.withBreaks s := by
  cases h : e.crlf with
  | true => simp only [Text.toCrlf, withBreaks, lineBreak, h, if_true]
  | false => exact (withBreaks_of_crlf_eq_false h s).symm

theorem takeBreak?_lineBreak (e : Envelope) (rest : List Char) :
    takeBreak? (e.lineBreak ++ rest) = some (e.lineBreak, rest) := by
  rcases lineBreak_eq e with h | h <;> rw [h] <;> rfl

theorem rejoin_append_lineFeed (e : Envelope) (s : List Char) :
    e.rejoin (s ++ ['\n']) =
      ['-', '-', '-'] ++ (e.lineBreak ++ (e.withBreaks s ++ (e.lineBreak ++
        (['-', '-', '-'] ++ (e.closing ++ e.body))))) := by
  have hterminate : terminate (s ++ ['\n']) = s ++ ['\n'] := by
    rw [terminate, if_pos List.getLast?_concat]
  have hbreaks : e.withBreaks (s ++ ['\n']) = e.withBreaks s ++ e.lineBreak := by
    rw [withBreaks_append, withBreaks_lineFeed, withBreaks_nil, List.append_nil]
  simp only [rejoin, hterminate, convert_eq_withBreaks, hbreaks, List.append_assoc]

/-! ## Finding the block again -/

theorem splitBlock?_cons {c : Char} {s : List Char} (h : closingAt? (c :: s) = none) :
    splitBlock? (c :: s) = (splitBlock? s).map fun (block, after) => (c :: block, after) := by
  rw [splitBlock?, h]

theorem splitBlock?_of_closingAt? {c : Char} {s closing body : List Char}
    (h : closingAt? (c :: s) = some (closing, body)) :
    splitBlock? (c :: s) = some ([], closing, body) := by
  rw [splitBlock?, h]

theorem takeBreak?_eq_none {c : Char} {s : List Char} (hfeed : c ≠ '\n')
    (hreturn : c = '\r' → s.head? ≠ some '\n') : takeBreak? (c :: s) = none := by
  unfold takeBreak?
  split
  · next heq =>
    obtain ⟨rfl, rfl⟩ := List.cons.inj heq
    exact absurd rfl (hreturn rfl)
  · next heq => exact absurd (List.cons.inj heq).1 hfeed
  · rfl

theorem closingAt?_eq_none {c : Char} {s : List Char} (hfeed : c ≠ '\n')
    (hreturn : c = '\r' → s.head? ≠ some '\n') : closingAt? (c :: s) = none := by
  rw [closingAt?, takeBreak?_eq_none hfeed hreturn]
  rfl

theorem takeBreak?_of_ne {c : Char} (hfeed : c ≠ '\n') (hreturn : c ≠ '\r') (s : List Char) :
    takeBreak? (c :: s) = none :=
  takeBreak?_eq_none hfeed fun hc => absurd hc hreturn

theorem closingAt?_of_ne {c : Char} (hfeed : c ≠ '\n') (hreturn : c ≠ '\r') (s : List Char) :
    closingAt? (c :: s) = none :=
  closingAt?_eq_none hfeed fun hc => absurd hc hreturn

/-- A line break that no delimiter follows belongs to the block. -/
theorem splitBlock?_break {lineBreak s : List Char}
    (hbreak : lineBreak = ['\n'] ∨ lineBreak = ['\r', '\n']) (h : takeDelimiter? s = none) :
    splitBlock? (lineBreak ++ s) =
      (splitBlock? s).map fun (block, after) => (lineBreak ++ block, after) := by
  have hfeed : splitBlock? ('\n' :: s) =
      (splitBlock? s).map fun (block, after) => ('\n' :: block, after) :=
    splitBlock?_cons h
  have hreturn : splitBlock? ('\r' :: '\n' :: s) =
      (splitBlock? ('\n' :: s)).map fun (block, after) => ('\r' :: block, after) :=
    splitBlock?_cons h
  rcases hbreak with rfl | rfl
  · exact hfeed
  · rw [List.cons_append, List.singleton_append, hreturn, hfeed, Option.map_map]
    rfl

/-- The block ends before a line break that a delimiter follows. -/
theorem splitBlock?_break_delimiter {lineBreak s closing body : List Char}
    (hbreak : lineBreak = ['\n'] ∨ lineBreak = ['\r', '\n'])
    (h : takeDelimiter? s = some (closing, body)) :
    splitBlock? (lineBreak ++ s) = some ([], closing, body) := by
  rcases hbreak with rfl | rfl <;> exact splitBlock?_of_closingAt? h

theorem startsWithHyphens_eq_true {s : List Char} (h : startsWithHyphens s = true) :
    ∃ more, s = '-' :: '-' :: '-' :: more := by
  unfold startsWithHyphens at h
  split at h
  · exact ⟨_, rfl⟩
  · cases h

/-- A hyphen in front is there before line feeds are converted. -/
theorem cons_of_withBreaks {e : Envelope} {s rest more : List Char}
    (h : e.withBreaks s ++ (e.lineBreak ++ rest) = '-' :: more) :
    ∃ s', s = '-' :: s' ∧ e.withBreaks s' ++ (e.lineBreak ++ rest) = more := by
  have hbreak : ∀ x, e.lineBreak ++ x ≠ '-' :: more := by
    intro x hx
    rcases lineBreak_eq e with heq | heq <;> rw [heq] at hx <;>
      exact absurd (List.cons.inj hx).1 (by decide)
  cases s with
  | nil => exact absurd h (hbreak _)
  | cons c s =>
      by_cases hc : c = '\n'
      · rw [hc, withBreaks_lineFeed, List.append_assoc] at h
        exact absurd h (hbreak _)
      · rw [withBreaks_cons_of_ne e hc] at h
        obtain ⟨rfl, hmore⟩ := List.cons.inj h
        exact ⟨s, rfl, hmore⟩

theorem startsWithHyphens_withBreaks (e : Envelope) {s : List Char}
    (h : startsWithHyphens s = false) (rest : List Char) :
    startsWithHyphens (e.withBreaks s ++ (e.lineBreak ++ rest)) = false := by
  refine Bool.eq_false_iff.2 fun htrue => ?_
  obtain ⟨more, hmore⟩ := startsWithHyphens_eq_true htrue
  obtain ⟨s₁, rfl, hmore₁⟩ := cons_of_withBreaks hmore
  obtain ⟨s₂, rfl, hmore₂⟩ := cons_of_withBreaks hmore₁
  obtain ⟨s₃, rfl, -⟩ := cons_of_withBreaks hmore₂
  exact absurd h (by simp [startsWithHyphens])

/-- The block ends where the delimiter was put. -/
theorem splitBlock?_withBreaks (e : Envelope) {s closing body : List Char} (hfree : MarkerFree s)
    (hreturn : ∀ c ∈ s, c ≠ '\r')
    (htake : takeDelimiter? (['-', '-', '-'] ++ (closing ++ body)) = some (closing, body)) :
    splitBlock? (e.withBreaks s ++ (e.lineBreak ++ (['-', '-', '-'] ++ (closing ++ body)))) =
      some (e.withBreaks s, closing, body) := by
  induction s with
  | nil =>
      rw [withBreaks_nil, List.nil_append]
      exact splitBlock?_break_delimiter e.lineBreak_eq htake
  | cons c s ih =>
      have hrest := ih hfree.2 fun d hd => hreturn d (by simp [hd])
      by_cases hc : c = '\n'
      · have hnone := takeDelimiter?_of_startsWithHyphens
          (startsWithHyphens_withBreaks e (hfree.1 hc)
            (['-', '-', '-'] ++ (closing ++ body)))
        rw [hc, withBreaks_lineFeed, List.append_assoc, splitBlock?_break e.lineBreak_eq hnone,
          hrest]
        rfl
      · rw [withBreaks_cons_of_ne e hc, List.cons_append,
          splitBlock?_cons (closingAt?_of_ne hc (hreturn c (by simp)) _), hrest]
        rfl

/-- The kind of line breaks is the same around another block. -/
theorem hasCrlf_rejoin {text : List Char} {e : Envelope} (h : split? text = some e)
    {s : List Char} (hs : ∀ c ∈ s, c ≠ '\r') :
    Text.hasCrlf (e.rejoin (s ++ ['\n'])) = e.crlf := by
  obtain ⟨⟨opening, before, -, -, -, htext⟩, -, hcrlf⟩ := split?_eq h
  rw [rejoin_append_lineFeed]
  cases hkind : e.crlf with
  | true =>
      rw [lineBreak, hkind]
      rfl
  | false =>
      have hbreak : ∀ c ∈ e.lineBreak, c ≠ '\r' := by
        intro c hc
        rw [lineBreak, hkind] at hc
        rw [List.mem_singleton.1 hc]
        decide
      have hhyphens : ∀ c ∈ ['-', '-', '-'], c ≠ '\r' := by simp
      rw [Text.hasCrlf_append_of_ne hhyphens, Text.hasCrlf_append_of_ne hbreak,
        withBreaks_of_crlf_eq_false hkind, Text.hasCrlf_append_of_ne hs,
        Text.hasCrlf_append_of_ne hbreak, Text.hasCrlf_append_of_ne hhyphens]
      refine Bool.eq_false_iff.2 fun htrue => ?_
      have hwhole : Text.hasCrlf text = true := by
        rw [htext]
        iterate 5 apply Text.hasCrlf_append
        exact htrue
      rw [← hcrlf, hkind] at hwhole
      cases hwhole

/-- A block without a delimiter's line is found where it was put, and nothing
around it changes. -/
theorem split?_rejoin {text : List Char} {e : Envelope} (h : split? text = some e)
    {s : List Char} (hfree : MarkerFree s) (hreturn : ∀ c ∈ s, c ≠ '\r') :
    split? (e.rejoin (s ++ ['\n'])) = some { e with block := e.withBreaks s } := by
  obtain ⟨-, htake, -⟩ := split?_eq h
  have hcrlf := hasCrlf_rejoin h hreturn
  have hblock := splitBlock?_withBreaks e hfree hreturn htake
  have hopening : takeDelimiter? (e.rejoin (s ++ ['\n'])) =
      some (e.lineBreak, e.withBreaks s ++ (e.lineBreak ++
        (['-', '-', '-'] ++ (e.closing ++ e.body)))) := by
    have hbreak := takeBreak?_lineBreak e (e.withBreaks s ++ (e.lineBreak ++
        (['-', '-', '-'] ++ (e.closing ++ e.body))))
    rw [rejoin_append_lineFeed]
    rcases lineBreak_eq e with heq | heq <;> rw [heq] at hbreak ⊢ <;> exact hbreak
  rcases lineBreak_eq e with heq | heq <;>
    simp only [split?, hopening, heq, hcrlf] <;> rw [← heq, hblock] <;> rfl

end Envelope

end PromptDoc
