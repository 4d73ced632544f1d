import Mathlib.Data.List.Chain
import PromptDoc.Proofs.Yaml.Multiline

/-!
# Words on lines

`Folded.IsFilling` says what it means to put a string of words on lines of a width: the
lines joined by spaces are the string, a line that is too wide is one word, and no line
has room for the first word of the next one. There is exactly one such list of lines,
and a folded block is written with these (`Folded.existsUnique_isFilling`).
-/

namespace PromptDoc.Yaml.Folded

/-- A line that is not empty and has no space at either end. -/
def IsTrimmed (l : List Char) : Prop :=
  l ≠ [] ∧ l.head? ≠ some ' ' ∧ l.getLast? ≠ some ' '

instance (l : List Char) : Decidable (IsTrimmed l) :=
  inferInstanceAs (Decidable (_ ∧ _))

/-- The characters of a line up to its first space. -/
def firstWord (l : List Char) : List Char :=
  l.takeWhile (· ≠ ' ')

/-- Lines that hold the words of a string, each as many of them as the budget allows. -/
structure IsFilling (budget : Nat) (s : List Char) (ls : List (List Char)) : Prop where
  joined : Text.join ' ' ls = s
  trimmed : ∀ l ∈ ls, IsTrimmed l
  /-- Only a word that has a line of its own may exceed the budget. -/
  bounded : ∀ l ∈ ls, budget < l.length → ' ' ∉ l
  /-- The first word of the next line does not fit on a line. -/
  greedy : ls.IsChain fun l m => budget < l.length + 1 + (firstWord m).length

variable {budget : Nat} {s : List Char}

/-! ## The lines are a filling -/

theorem isTrimmed_append {l w : List Char} (hl : IsTrimmed l) (hw : IsTrimmed w) :
    IsTrimmed (l ++ ' ' :: w) := by
  obtain ⟨hne, hhead, -⟩ := hl
  obtain ⟨hne', -, hlast⟩ := hw
  refine ⟨by simp, ?_, ?_⟩
  · rwa [List.head?_append_of_ne_nil _ hne]
  · obtain ⟨c, cs, rfl⟩ := List.exists_cons_of_ne_nil hne'
    rwa [List.getLast?_append_of_ne_nil _ (List.cons_ne_nil _ _), List.getLast?_cons_cons]

/-- The line that is being filled starts with what is on it already. -/
theorem exists_fill_eq (budget : Nat) {current : List Char} (hcurrent : current ≠ [])
    (words : List (List Char)) :
    ∃ more ls, fill budget current words = (current ++ more) :: ls ∧
      (more = [] ∨ more.head? = some ' ') := by
  induction words generalizing current with
  | nil => exact ⟨[], [], by rw [fill, List.append_nil], .inl rfl⟩
  | cons w words ih =>
      rw [fill, if_neg (by simpa using hcurrent)]
      split
      · have hnext : current ++ ' ' :: w ≠ [] := by simp
        obtain ⟨more, ls, hfill, -⟩ := ih hnext
        exact ⟨' ' :: w ++ more, ls, by rw [hfill, List.append_assoc], .inr rfl⟩
      · exact ⟨[], _, by rw [List.append_nil], .inl rfl⟩

theorem firstWord_append {w more : List Char} (hw : ' ' ∉ w)
    (hmore : more = [] ∨ more.head? = some ' ') : firstWord (w ++ more) = w := by
  have hpos : ∀ c ∈ w, decide (c ≠ ' ') = true := by
    intro c hc
    exact decide_eq_true (ne_of_mem_of_not_mem hc hw)
  rw [firstWord, List.takeWhile_append_of_pos hpos]
  rcases hmore with rfl | hmore
  · simp
  · obtain ⟨rest, rfl⟩ := List.head?_eq_some_iff.1 hmore
    rw [List.takeWhile_cons_of_neg (by simp), List.append_nil]

/-- A line is ended only where the next word does not fit. -/
theorem isChain_fill {current : List Char} (hcurrent : current ≠ []) {words : List (List Char)}
    (hwords : ∀ w ∈ words, w ≠ [] ∧ ' ' ∉ w) :
    (fill budget current words).IsChain
      fun l m => budget < l.length + 1 + (firstWord m).length := by
  induction words generalizing current with
  | nil => exact .singleton current
  | cons w words ih =>
      obtain ⟨⟨hne, hspace⟩, hwords⟩ := List.forall_mem_cons.1 hwords
      rw [fill, if_neg (by simpa using hcurrent)]
      split
      · exact ih (by simp) hwords
      · next hfull =>
        obtain ⟨more, ls, hfill, hmore⟩ := exists_fill_eq budget hne words
        have hchain := ih hne hwords
        rw [hfill] at hchain ⊢
        refine List.isChain_cons_cons.2 ⟨?_, hchain⟩
        rw [firstWord_append hspace hmore]
        exact Nat.lt_of_not_le hfull

/-- The lines of a folded block are a filling. -/
theorem isFilling_lines (hs : fits s = true) (budget : Nat) :
    IsFilling budget s (lines budget s) := by
  have hwords : ∀ w ∈ Text.pieces ' ' s, w ≠ [] ∧ ' ' ∉ w := fun w hw =>
    ⟨((of_fits hs).1 w hw).1, fun hmem => (Text.mem_of_mem_pieces hw hmem).2 rfl⟩
  have htrimmed : ∀ w, w ≠ [] ∧ ' ' ∉ w → IsTrimmed w := fun w hw =>
    ⟨hw.1, fun h => hw.2 (List.mem_of_mem_head? h), fun h => hw.2 (List.mem_of_getLast? h)⟩
  refine ⟨(lines_spec hs budget).1, ?_, ?_, ?_⟩
  all_goals
    unfold lines
    obtain ⟨w, words, hp⟩ := List.exists_cons_of_ne_nil (Text.pieces_ne_nil ' ' s)
    rw [hp] at hwords ⊢
    obtain ⟨hw, hwords⟩ := List.forall_mem_cons.1 hwords
    rw [fill, if_pos (show ([] : List Char).isEmpty = true from rfl)]
  · exact forall_mem_fill (fun l w hl hw _ => isTrimmed_append hl hw) (htrimmed w hw)
      fun v hv => htrimmed v (hwords v hv)
  · refine forall_mem_fill (P := fun l => budget < l.length → ' ' ∉ l) ?_ (fun _ => hw.2)
      fun v hv _ => (hwords v hv).2
    intro l w _ _ hle hlt
    rw [List.length_append, List.length_cons] at hlt
    omega
  · exact isChain_fill hw.1 hwords

/-! ## There is no other one -/

theorem exists_pieces_eq (l : List Char) : ∃ words, Text.pieces ' ' l = firstWord l :: words :=
  Text.exists_pieces_eq ' ' l

/-- Words that fit are put on the line being filled. -/
theorem fill_append {current : List Char} (hcurrent : current ≠ []) {words : List (List Char)}
    (hfits : (Text.join ' ' (current :: words)).length ≤ budget) (rest : List (List Char)) :
    fill budget current (words ++ rest) = fill budget (Text.join ' ' (current :: words)) rest := by
  induction words generalizing current with
  | nil => rfl
  | cons w words ih =>
      have hjoin := Text.join_append_separator ' ' current w words
      have hle : current.length + 1 + w.length ≤ budget := by
        rw [← hjoin, Text.join_eq_append_flatMap, List.length_append, List.length_append,
          List.length_cons] at hfits
        omega
      rw [List.cons_append, fill, if_neg (by simpa using hcurrent), if_pos hle, ih (by simp),
        hjoin]
      rwa [hjoin]

/-- A line of a filling is filled from its words and then left. -/
theorem fill_pieces {l : List Char} (hl : IsTrimmed l) (hbound : budget < l.length → ' ' ∉ l)
    (rest : List (List Char)) :
    fill budget [] (Text.pieces ' ' l ++ rest) = fill budget l rest := by
  obtain ⟨words, hp⟩ := exists_pieces_eq l
  have hjoin := Text.join_pieces ' ' l
  have hne : firstWord l ≠ [] := by
    obtain ⟨c, cs, rfl⟩ := List.exists_cons_of_ne_nil hl.1
    rw [firstWord, List.takeWhile_cons_of_pos (by simpa using hl.2.1)]
    exact List.cons_ne_nil _ _
  rw [hp] at hjoin ⊢
  rw [List.cons_append, fill, if_pos (show ([] : List Char).isEmpty = true from rfl)]
  by_cases hlong : budget < l.length
  · rw [Text.pieces_of_notMem (hbound hlong)] at hp
    obtain ⟨hfirst, rfl⟩ := List.cons.inj hp
    rw [← hfirst, List.nil_append]
  · rw [fill_append hne (by rw [hjoin]; exact Nat.le_of_not_lt hlong), hjoin]

theorem fill_flatMap_pieces {ls : List (List Char)} (hne : ls ≠ [])
    (htrimmed : ∀ l ∈ ls, IsTrimmed l) (hbound : ∀ l ∈ ls, budget < l.length → ' ' ∉ l)
    (hgreedy : ls.IsChain fun l m => budget < l.length + 1 + (firstWord m).length) :
    fill budget [] (ls.flatMap (Text.pieces ' ')) = ls := by
  induction ls with
  | nil => exact absurd rfl hne
  | cons l ls ih =>
      obtain ⟨hl, htrimmed⟩ := List.forall_mem_cons.1 htrimmed
      obtain ⟨hlong, hbound⟩ := List.forall_mem_cons.1 hbound
      rw [List.flatMap_cons, fill_pieces hl hlong]
      cases ls with
      | nil => rfl
      | cons m ls =>
          obtain ⟨hfull, hgreedy⟩ := List.isChain_cons_cons.1 hgreedy
          have hrest := ih (List.cons_ne_nil m ls) htrimmed hbound hgreedy
          obtain ⟨words, hp⟩ := exists_pieces_eq m
          rw [List.flatMap_cons, hp, List.cons_append, fill,
            if_pos (show ([] : List Char).isEmpty = true from rfl)] at hrest
          rw [List.flatMap_cons, hp, List.cons_append, fill, if_neg (by simpa using hl.1),
            if_neg (Nat.not_le.2 hfull), hrest]

/-- The lines of a filling are determined by the string. -/
theorem IsFilling.eq_lines {ls : List (List Char)} (hs : s ≠ []) (h : IsFilling budget s ls) :
    ls = lines budget s := by
  have hne : ls ≠ [] := by
    rintro rfl
    exact hs h.joined.symm
  rw [lines, ← h.joined, Text.pieces_join_eq_flatMap ' ' hne,
    fill_flatMap_pieces hne h.trimmed h.bounded h.greedy]

/-! ## The written block -/

/-- The lines of a folded block: its header, then each line behind the indentation. -/
theorem pieces_text (hs : fits s = true) (width column : Nat) :
    Text.pieces '\n' (text width column s) =
      ['>', '-'] :: (lines (max 1 (width - column)) s).map (spaces column ++ ·) := by
  have hfeed : ∀ l ∈ lines (max 1 (width - column)) s, '\n' ∉ l := by
    intro l hl hmem
    rw [← (isFilling_lines hs _).joined] at hs
    have hgraphic := (of_fits hs).2 '\n' (Text.mem_join_of_mem ' ' hl hmem)
    exact ne_lineFeed_of_isGraphic hgraphic rfl
  have htext : text width column s = Text.join '\n' (['>', '-'] ::
      (lines (max 1 (width - column)) s).map (spaces column ++ ·)) := by
    rw [Text.join_eq_append_flatMap, List.flatMap_map]
    rfl
  rw [htext, Text.pieces_join (List.cons_ne_nil _ _)]
  intro l hl
  rcases List.mem_cons.1 hl with rfl | hl
  · decide
  · obtain ⟨k, hk, rfl⟩ := List.mem_map.1 hl
    rw [List.mem_append, not_or]
    exact ⟨fun h => absurd (List.eq_of_mem_replicate h) (by decide), hfeed k hk⟩

/-- Behind the header of a folded block stand, each behind the indentation, the lines of
the one filling of the string within the width that the indentation leaves. -/
theorem existsUnique_isFilling (hs : fits s = true) (width column : Nat) :
    ∃ ls, Text.pieces '\n' (text width column s) = ['>', '-'] :: ls.map (spaces column ++ ·) ∧
      ∀ ks, IsFilling (max 1 (width - column)) s ks ↔ ks = ls := by
  refine ⟨_, pieces_text hs width column, fun ks => ⟨fun h => h.eq_lines ?_, ?_⟩⟩
  · rintro rfl
    exact absurd hs (by decide)
  · rintro rfl
    exact isFilling_lines hs _

theorem existsUnique_isFilling_ten_columns :
    fits "a bb ccccccccc dd ee".toList = true ∧
      ∃ ls, Text.pieces '\n' ">-\n  a bb\n  ccccccccc\n  dd ee".toList =
          ['>', '-'] :: ls.map (spaces 2 ++ ·) ∧
        ∀ ks, IsFilling 8 "a bb ccccccccc dd ee".toList ks ↔ ks = ls := by
  have hs : fits "a bb ccccccccc dd ee".toList = true := by decide
  exact ⟨hs, existsUnique_isFilling hs 10 2⟩

end PromptDoc.Yaml.Folded
