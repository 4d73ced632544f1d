import Mathlib.Data.List.DropRight
import PromptDoc.Text.Lines
import PromptDoc.Text.Space

/-!
# Lines and their breaks

Every text is the lines that it is cut into, joined by line feeds, once the
carriage returns of its line breaks are gone (`unlines_lines`). So a text without
carriage returns has the same lines as the same text with one before every line
feed, and neither conversion of line breaks loses anything of such a text. Where
a line break stands between two texts, the lines of one are followed by the
lines of the other.
-/

namespace PromptDoc.Text

/-! ## Lines -/

/-- No line feed is next to a carriage return that is no part of a line break. -/
theorem head?_ne_lineFeed {c : Char} {s : List Char}
    (h : ∀ more, c = '\r' → s = '\n' :: more → False) (hc : c = '\r') : s.head? ≠ some '\n' := by
  intro hhead
  obtain ⟨more, rfl⟩ := List.head?_eq_some_iff.1 hhead
  exact h more hc rfl

theorem lines_ne_nil (s : List Char) : lines s ≠ [] := by
  unfold lines
  split
  · simp
  · simp
  · simp
  · split <;> simp

/-- A character that is no part of a line break stands at the front of the first
line. -/
theorem lines_cons {c : Char} {s line : List Char} {others : List (List Char)} (hfeed : c ≠ '\n')
    (hreturn : c = '\r' → s.head? ≠ some '\n') (hs : lines s = line :: others) :
    lines (c :: s) = (c :: line) :: others := by
  rw [lines.eq_def]
  split
  · next heq => cases heq
  · next heq =>
    obtain ⟨rfl, rfl⟩ := List.cons.inj heq
    exact absurd rfl (hreturn rfl)
  · next heq => exact absurd (List.cons.inj heq).1 hfeed
  · next heq =>
    obtain ⟨rfl, rfl⟩ := List.cons.inj heq
    rw [hs]

theorem unlines_cons_cons (c : Char) (line : List Char) (others : List (List Char)) :
    unlines ((c :: line) :: others) = c :: unlines (line :: others) := by
  cases others <;> rfl

theorem unlines_nil_cons {lines : List (List Char)} (h : lines ≠ []) :
    unlines ([] :: lines) = '\n' :: unlines lines := by
  cases lines with
  | nil => exact absurd rfl h
  | cons line others => rfl

/-- The lines of a text with line feeds between them: the text without the
carriage returns of its line breaks. -/
theorem unlines_lines (s : List Char) : unlines (lines s) = toLf s := by
  fun_induction toLf s with
  | case1 => rfl
  | case2 rest ih => rw [lines, unlines_nil_cons (lines_ne_nil rest), ih]
  | case3 c rest hbreak ih =>
      by_cases hfeed : c = '\n'
      · subst hfeed
        rw [lines, unlines_nil_cons (lines_ne_nil rest), ih]
      · cases hs : lines rest with
        | nil => exact absurd hs (lines_ne_nil rest)
        | cons line others =>
            rw [lines_cons hfeed (head?_ne_lineFeed hbreak) hs, unlines_cons_cons, ← hs, ih]

/-- The lines on both sides of a line break. A carriage return before a line feed
would belong to the break. -/
theorem lines_append {lineBreak : List Char}
    (hbreak : lineBreak = ['\n'] ∨ lineBreak = ['\r', '\n']) {s : List Char}
    (hs : lineBreak = ['\n'] → s.getLast? ≠ some '\r') (t : List Char) :
    lines (s ++ (lineBreak ++ t)) = lines s ++ lines t := by
  have htail : ∀ {c : Char} {rest : List Char},
      (lineBreak = ['\n'] → (c :: rest).getLast? ≠ some '\r') →
        lineBreak = ['\n'] → rest.getLast? ≠ some '\r' := fun hs h hlast =>
    hs h (by rw [List.getLast?_cons, hlast, Option.getD_some])
  fun_induction lines s with
  | case1 => rcases hbreak with rfl | rfl <;> rfl
  | case2 rest ih =>
      rw [List.cons_append, List.cons_append, lines, ih (htail (htail hs))]
      rfl
  | case3 rest ih =>
      rw [List.cons_append, lines, ih (htail hs)]
      rfl
  | case4 c rest hpair hfeed hnil ih => exact absurd hnil (lines_ne_nil rest)
  | case5 c rest hpair hfeed line others hlines ih =>
      have hnext : c = '\r' → (rest ++ (lineBreak ++ t)).head? ≠ some '\n' := by
        rintro rfl hhead
        cases rest with
        | nil => rcases hbreak with rfl | rfl <;> simp_all
        | cons d rest =>
            obtain rfl : d = '\n' := Option.some.inj hhead
            exact hpair rest rfl rfl
      rw [hlines] at ih
      rw [List.cons_append, lines_cons hfeed hnext (ih (htail hs))]
      rfl

/-! ## Conversions of line breaks -/

theorem toCrlf_cons_of_ne {c : Char} (h : c ≠ '\n') (s : List Char) :
    toCrlf (c :: s) = c :: toCrlf s := by
  rw [toCrlf, List.flatMap_cons, if_neg h]
  rfl

theorem toCrlf_lineFeed (s : List Char) : toCrlf ('\n' :: s) = '\r' :: '\n' :: toCrlf s := by
  rw [toCrlf, List.flatMap_cons, if_pos rfl]
  rfl

theorem toCrlf_append (s t : List Char) : toCrlf (s ++ t) = toCrlf s ++ toCrlf t :=
  List.flatMap_append

theorem head?_toCrlf_ne (s : List Char) : (toCrlf s).head? ≠ some '\n' := by
  cases s with
  | nil => simp [toCrlf]
  | cons c s =>
      by_cases hc : c = '\n'
      · rw [hc, toCrlf_lineFeed]
        simp
      · rw [toCrlf_cons_of_ne hc]
        simpa using hc

theorem toLf_cons {c : Char} {s : List Char} (h : c = '\r' → s.head? ≠ some '\n') :
    toLf (c :: s) = c :: toLf s := by
  rw [toLf]
  rintro more rfl rfl
  exact h rfl rfl

/-- Carriage returns that were put before the line feeds are taken away again. -/
theorem toLf_toCrlf (s : List Char) : toLf (toCrlf s) = s := by
  induction s with
  | nil => rfl
  | cons c s ih =>
      by_cases hc : c = '\n'
      · rw [hc, toCrlf_lineFeed, toLf, ih]
      · rw [toCrlf_cons_of_ne hc, toLf_cons fun _ => head?_toCrlf_ne s, ih]

theorem toCrlf_injective {s t : List Char} (h : toCrlf s = toCrlf t) : s = t := by
  rw [← toLf_toCrlf s, h, toLf_toCrlf]

theorem toLf_eq_self {s : List Char} (h : '\r' ∉ s) : toLf s = s := by
  induction s with
  | nil => rfl
  | cons c s ih =>
      simp only [List.mem_cons, not_or] at h
      rw [toLf_cons fun hc => absurd hc.symm h.1, ih h.2]

/-- The kind of its line breaks does not show in the lines of a text. -/
theorem lines_toCrlf {s : List Char} (h : '\r' ∉ s) : lines (toCrlf s) = lines s := by
  induction s with
  | nil => rfl
  | cons c s ih =>
      simp only [List.mem_cons, not_or] at h
      by_cases hc : c = '\n'
      · rw [hc, toCrlf_lineFeed, lines, lines, ih h.2]
      · cases hs : lines s with
        | nil => exact absurd hs (lines_ne_nil s)
        | cons line others =>
            rw [lines_cons hc (fun hreturn => absurd hreturn.symm h.1) hs, toCrlf_cons_of_ne hc,
              lines_cons hc (fun _ => head?_toCrlf_ne s) ((ih h.2).trans hs)]

theorem hasCrlf_eq_false {s : List Char} (h : '\r' ∉ s) : hasCrlf s = false := by
  induction s with
  | nil => rfl
  | cons c s ih =>
      simp only [List.mem_cons, not_or] at h
      rw [hasCrlf]
      · exact ih h.2
      · rintro more rfl
        exact absurd rfl h.1

theorem hasCrlf_toCrlf {s : List Char} (h : '\n' ∈ s) : hasCrlf (toCrlf s) = true := by
  induction s with
  | nil => cases h
  | cons c s ih =>
      by_cases hc : c = '\n'
      · rw [hc, toCrlf_lineFeed]
        rfl
      · have hs : '\n' ∈ s := (List.mem_cons.1 h).resolve_left (Ne.symm hc)
        rw [toCrlf_cons_of_ne hc, hasCrlf]
        · exact ih hs
        · rintro more rfl hmore
          exact absurd (congrArg List.head? hmore) (head?_toCrlf_ne s)

/-! ## The ends of a text -/

theorem getLast?_toLf (s : List Char) : (toLf s).getLast? = s.getLast? := by
  fun_induction toLf s with
  | case1 => rfl
  | case2 rest ih => rw [List.getLast?_cons, List.getLast?_cons_cons, List.getLast?_cons, ih]
  | case3 c rest hbreak ih => rw [List.getLast?_cons, List.getLast?_cons, ih]

theorem head?_toLf {s : List Char} (h : s.head? ≠ some '\r') : (toLf s).head? = s.head? := by
  cases s with
  | nil => rfl
  | cons c s =>
      rw [toLf_cons fun hc => absurd (by rw [hc]; rfl) h]
      rfl

theorem trimStart_eq_self_iff {s : List Char} :
    trimStart s = s ↔ ∀ c ∈ s.head?, isSpace c = false := by
  rw [trimStart, List.dropWhile_eq_self_iff]
  cases s <;> simp

theorem trimEnd_eq_self_iff {s : List Char} :
    trimEnd s = s ↔ ∀ c ∈ s.getLast?, isSpace c = false := by
  rw [trimEnd, ← List.rdropWhile, List.rdropWhile_eq_self_iff]
  constructor
  · intro h c hc
    obtain ⟨hne, rfl⟩ := List.mem_getLast?_eq_getLast hc
    simpa using h hne
  · intro h hne
    simp [h _ (List.getLast_mem_getLast? hne)]

/-- Trimming keeps a text that has no white space at either end. -/
theorem trim_eq_self_iff {s : List Char} :
    trim s = s ↔ (∀ c ∈ s.head?, isSpace c = false) ∧ ∀ c ∈ s.getLast?, isSpace c = false := by
  rw [← trimStart_eq_self_iff, ← trimEnd_eq_self_iff, trim]
  constructor
  · intro h
    have hend : (trimEnd (trimStart s)).length ≤ (trimStart s).length :=
      (List.rdropWhile_prefix isSpace (trimStart s)).length_le
    have hsuffix : trimStart s <:+ s := List.dropWhile_suffix isSpace
    have hsame : trimStart s = s := hsuffix.eq_of_length (by
      have := hsuffix.length_le
      rw [h] at hend
      omega)
    exact ⟨hsame, by rwa [hsame] at h⟩
  · rintro ⟨hs, he⟩
    rw [hs, he]

end PromptDoc.Text
