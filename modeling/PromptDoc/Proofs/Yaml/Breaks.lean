import PromptDoc.Proofs.Text.Lines
import PromptDoc.Yaml.Document

/-!
# Line breaks that a reader does not tell apart

A reader takes a carriage return with a line feed for one line break, so it reads
a text the same without the carriage returns of its line breaks
(`readChars_toLf`). One that stands in front of such a pair is a line break of its
own, and would become a part of the next one.
-/

namespace PromptDoc.Yaml

open Text

namespace Source

theorem unifyBreaks_cons {c : Char} {s : List Char} (h : c = '\r' → s.head? ≠ some '\n') :
    unifyBreaks (c :: s) = (if c = '\r' ∨ c = '\u0085' then '\n' else c) :: unifyBreaks s := by
  rw [unifyBreaks]
  rintro more rfl rfl
  exact h rfl rfl

theorem unifyBreaks_toLf {s : List Char} (h : ¬ ['\r', '\r', '\n'] <:+: s) :
    unifyBreaks (toLf s) = unifyBreaks s := by
  fun_induction toLf s with
  | case1 => rfl
  | case2 rest ih =>
      have hrest : ¬ ['\r', '\r', '\n'] <:+: rest := fun hpart =>
        h (List.infix_cons (List.infix_cons hpart))
      rw [unifyBreaks_cons (by simp), ih hrest]
      rfl
  | case3 c rest hbreak ih =>
      have hrest : ¬ ['\r', '\r', '\n'] <:+: rest := fun hpart => h (List.infix_cons hpart)
      have hnext : c = '\r' → rest.head? ≠ some '\n' := head?_ne_lineFeed hbreak
      have hnext' : c = '\r' → (toLf rest).head? ≠ some '\n' := by
        rintro rfl hhead
        -- A line feed could come to the front only from behind a carriage return.
        by_cases hreturn : rest.head? = some '\r'
        · obtain ⟨more, rfl⟩ := List.head?_eq_some_iff.1 hreturn
          by_cases hfeed : more.head? = some '\n'
          · obtain ⟨last, rfl⟩ := List.head?_eq_some_iff.1 hfeed
            exact h ⟨[], last, rfl⟩
          · rw [toLf_cons fun _ => hfeed] at hhead
            cases hhead
        · rw [head?_toLf hreturn] at hhead
          exact hnext rfl hhead
      rw [unifyBreaks_cons hnext, unifyBreaks_cons hnext', ih hrest]

theorem all_isReadable_toLf (s : List Char) : (toLf s).all isReadable = s.all isReadable := by
  have hreturn : isReadable '\r' = true := by decide
  fun_induction toLf s with
  | case1 => rfl
  | case2 rest ih => rw [List.all_cons, List.all_cons, List.all_cons, ih, hreturn, Bool.true_and]
  | case3 c rest hbreak ih => rw [List.all_cons, List.all_cons, ih]

theorem dropMark_toLf (s : List Char) : dropMark (toLf s) = toLf (dropMark s) := by
  fun_cases toLf s with
  | case1 => rfl
  | case2 rest =>
      rw [dropMark, if_neg (by decide), dropMark, if_neg (by decide)]
      rfl
  | case3 c rest hbreak =>
      rw [dropMark, dropMark]
      by_cases hmark : c = byteOrderMark
      · rw [if_pos hmark, if_pos hmark]
      · rw [if_neg hmark, if_neg hmark, toLf]
        exact hbreak

theorem dropMark_suffix (s : List Char) : dropMark s <:+ s := by
  cases s with
  | nil => exact List.suffix_rfl
  | cons c s =>
      rw [dropMark]
      split
      · exact List.suffix_cons c s
      · exact List.suffix_rfl

theorem prepare?_toLf {s : List Char} (h : ¬ ['\r', '\r', '\n'] <:+: s) :
    prepare? (toLf s) = prepare? s := by
  have hbody : ¬ ['\r', '\r', '\n'] <:+: dropMark s := fun hpart =>
    h (hpart.trans (dropMark_suffix s).isInfix)
  simp only [prepare?, dropMark_toLf, all_isReadable_toLf, unifyBreaks_toLf hbody]

end Source

/-- The carriage returns of its line breaks make no difference to what a text is
read as. -/
theorem readChars_toLf {s : List Char} (h : ¬ ['\r', '\r', '\n'] <:+: s) :
    readChars (toLf s) = readChars s := by
  rw [readChars, readChars, value?, value?, Source.prepare?_toLf h]

theorem not_infix_toCrlf {s : List Char} (h : '\r' ∉ s) : ¬ ['\r', '\r', '\n'] <:+: toCrlf s := by
  induction s with
  | nil => simp [toCrlf]
  | cons c s ih =>
      simp only [List.mem_cons, not_or] at h
      by_cases hc : c = '\n'
      · rw [hc, toCrlf_lineFeed]
        simp only [List.infix_cons_iff, List.cons_prefix_cons]
        rintro (⟨-, hfeed, -⟩ | ⟨hfeed, -⟩ | hpart)
        · cases hfeed
        · cases hfeed
        · exact ih h.2 hpart
      · rw [toCrlf_cons_of_ne hc]
        simp only [List.infix_cons_iff, List.cons_prefix_cons]
        rintro (⟨hreturn, -⟩ | hpart)
        · exact h.1 hreturn
        · exact ih h.2 hpart

theorem readChars_toCrlf {s : List Char} (h : '\r' ∉ s) : readChars (toCrlf s) = readChars s := by
  rw [← readChars_toLf (not_infix_toCrlf h), toLf_toCrlf]

end PromptDoc.Yaml
