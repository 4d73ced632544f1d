import PromptDoc.Proofs.Yaml.Block

/-!
# Strings over several lines read back

A literal block gives back the string it was written for when a line feed
stands behind it. Cut off behind its last character it may give back one line
feed less, as `Literal.readText` says. A folded block gives back its string in
either case, because a reader strips the line feed at its end.
-/

namespace PromptDoc.Yaml

namespace Literal

/-- The three ways in which a string ends. -/
theorem chomp_spec (s : List Char) :
    chomp s = (.strip, s) ∧ s.getLast? ≠ some '\n' ∨
      ∃ body, s = body ++ ['\n'] ∧
        (chomp s = (.clip, body) ∧ body.getLast? ≠ some '\n' ∨
          chomp s = (.keep, body) ∧ body.getLast? = some '\n') := by
  have hs := List.reverse_reverse s
  unfold chomp
  split
  · next rest heq =>
    rw [heq] at hs
    refine .inr ⟨('\n' :: rest).reverse, ?_, .inr ⟨rfl, by simp⟩⟩
    rw [← hs]
    simp
  · next rest hnot heq =>
    rw [heq] at hs
    refine .inr ⟨rest.reverse, ?_, .inl ⟨rfl, ?_⟩⟩
    · rw [← hs]
      simp
    · intro hlast
      rw [List.getLast?_reverse] at hlast
      cases rest with
      | nil => cases hlast
      | cons c rest =>
          obtain rfl := Option.some.inj hlast
          exact hnot rest rfl
  · next hkeep hclip =>
    refine .inl ⟨rfl, fun hlast => ?_⟩
    rw [← List.head?_reverse] at hlast
    obtain ⟨rest, heq⟩ : ∃ rest, s.reverse = '\n' :: rest := by
      cases hr : s.reverse with
      | nil => rw [hr] at hlast; cases hlast
      | cons c rest =>
          rw [hr] at hlast
          obtain rfl := Option.some.inj hlast
          exact ⟨rest, rfl⟩
    exact hclip rest heq

theorem mem_of_mem_chomp {s : List Char} {c : Char} (h : c ∈ (chomp s).2) : c ∈ s := by
  rcases chomp_spec s with ⟨heq, -⟩ | ⟨body, hs, ⟨heq, -⟩ | ⟨heq, -⟩⟩
  · rw [heq] at h
    exact h
  all_goals
    rw [heq] at h
    rw [hs]
    exact List.mem_append_left _ h

/-- The string that a literal block is read as; `ended` says whether a line
feed stands behind the block. -/
def readText (ended : Bool) (s : List Char) : List Char :=
  if ended then s else (chomp s).2

theorem of_fits {s : List Char} (h : fits s = true) :
    s.all Text.isSpace = false ∧ (∀ c ∈ s, c = '\n' ∨ c = '\t' ∨ isGraphic c = true) ∧
      ∀ l ∈ Text.pieces '\n' s, l.head? ≠ some '\t' := by
  simp only [fits, Bool.and_eq_true, Bool.not_eq_true', List.all_eq_true, Bool.or_eq_true,
    decide_eq_true_eq, bne_iff_ne, or_assoc] at h
  exact ⟨h.1.1, h.1.2, h.2⟩

/-- The lines of a literal block are lines of the string. -/
theorem mem_pieces_of_mem_chomp {s l : List Char} (h : l ∈ Text.pieces '\n' (chomp s).2) :
    l ∈ Text.pieces '\n' s := by
  rcases chomp_spec s with ⟨heq, -⟩ | ⟨body, rfl, hbody⟩
  · rw [heq] at h
    exact h
  · have hsnd : (chomp (body ++ ['\n'])).2 = body := by
      rcases hbody with ⟨heq, -⟩ | ⟨heq, -⟩ <;> rw [heq]
    rw [hsnd] at h
    rw [Text.pieces_append_separator]
    exact List.mem_append_left _ h

theorem isBreak_of_mem_line {s l : List Char} (hs : fits s = true)
    (hl : l ∈ Text.pieces '\n' s) : ∀ c ∈ l, isBreak c = false := by
  intro c hc
  obtain ⟨hmem, hne⟩ := Text.mem_of_mem_pieces hl hc
  rcases (of_fits hs).2.1 c hmem with rfl | rfl | h
  · exact absurd rfl hne
  · decide
  · exact isBreak_of_isGraphic h

/-- A block without a digit has no space before its first character. -/
theorem ne_space_of_needsIndentation {ls : List (List Char)} (h : needsIndentation ls = false)
    {c : Char} {cs : List Char} (hfind : ls.find? (!·.isEmpty) = some (c :: cs)) : c ≠ ' ' := by
  rintro rfl
  rw [needsIndentation, hfind] at h
  cases h

/-- A literal block has a line with something in it. -/
theorem exists_line_ne_nil {s : List Char} (hs : fits s = true) :
    ∃ l ∈ Text.pieces '\n' (chomp s).2, l ≠ [] := by
  apply Decidable.byContradiction
  intro hnone
  have hempty : ∀ l ∈ Text.pieces '\n' (chomp s).2, l = [] := fun l hl =>
    Decidable.byContradiction fun hne => hnone ⟨l, hl, hne⟩
  have hbody : ∀ c ∈ (chomp s).2, c = '\n' := by
    intro c hc
    rw [← Text.join_pieces '\n' (chomp s).2] at hc
    exact Text.eq_separator_of_mem_join hempty hc
  have hspace : s.all Text.isSpace = true := by
    apply List.all_eq_true.2
    intro c hc
    have hnewline : c = '\n' := by
      rcases chomp_spec s with ⟨heq, -⟩ | ⟨body, hsplit, hchomp⟩
      · rw [heq] at hbody
        exact hbody c hc
      · have hsnd : (chomp s).2 = body := by
          rcases hchomp with ⟨heq, -⟩ | ⟨heq, -⟩ <;> rw [heq]
        rw [hsnd] at hbody
        rw [hsplit] at hc
        rcases List.mem_append.1 hc with hc | hc
        · exact hbody c hc
        · exact List.mem_singleton.1 hc
    subst hnewline
    decide
  rw [(of_fits hs).1] at hspace
  cases hspace

/-- A string that is written without its last line feed ends in a line that is
not empty. -/
theorem keep_or_getLast?_ne {s : List Char} (hs : fits s = true) :
    (chomp s).1 = .keep ∨ (Text.pieces '\n' (chomp s).2).getLast? ≠ some [] := by
  have hlast : (chomp s).2.getLast? ≠ some '\n' →
      (Text.pieces '\n' (chomp s).2).getLast? ≠ some [] := by
    intro hne h
    rcases Text.getLast?_pieces h with hnil | hlast
    · obtain ⟨l, hl, hl'⟩ := exists_line_ne_nil hs
      rw [hnil] at hl
      exact hl' (List.mem_singleton.1 hl)
    · exact hne hlast
  rcases chomp_spec s with ⟨heq, hne⟩ | ⟨body, -, ⟨heq, hne⟩ | ⟨heq, -⟩⟩
  · rw [heq] at hlast ⊢
    exact .inr (hlast hne)
  · rw [heq] at hlast ⊢
    exact .inr (hlast hne)
  · rw [heq]
    exact .inl rfl

theorem append_chompText (s tail : List Char) (htail : tail = [] ∨ ∃ more, tail = '\n' :: more) :
    (chomp s).2 ++ Token.chompText (chomp s).1 (tail.take 1) [] = readText (!tail.isEmpty) s := by
  rcases htail with rfl | ⟨more, rfl⟩
  · cases (chomp s).1 <;> simp [Token.chompText, readText]
  · rcases chomp_spec s with ⟨heq, -⟩ | ⟨body, hs, ⟨heq, -⟩ | ⟨heq, -⟩⟩
    all_goals
      rw [heq]
      simp [Token.chompText, readText]
    all_goals exact hs.symm

end Literal

namespace Token

/-- The header and the lines of a literal block are read as its string. -/
theorem blockScalar?_literal {s : List Char} (hs : Literal.fits s = true) {owner step : Nat}
    (hpos : 0 < step) (hstep : step < 10) {tail rest : List Char} {q : Position}
    (htail : LineEnd (owner + 1) tail q rest) :
    ∃ cs q', Literal.text step (owner + step) s ++ tail = '|' :: cs ∧
      (tail ≠ [] → q' = q) ∧
      blockScalar? false (owner + 1) cs =
        some ⟨Literal.readText (!tail.isEmpty) s, q', rest⟩ := by
  have hlines : ∀ l ∈ Text.pieces '\n' (Literal.chomp s).2, ∀ c ∈ l, isBreak c = false :=
    fun l hl => Literal.isBreak_of_mem_line hs (Literal.mem_pieces_of_mem_chomp hl)
  have hsome := Literal.exists_line_ne_nil hs
  obtain ⟨hne, htext⟩ := literalLines_contentOf (tail.take 1) hsome
    (Literal.keep_or_getLast?_ne hs)
  rw [Text.join_pieces, Literal.append_chompText s tail htail.eq_nil_or_cons] at htext
  have hread : blockText false (Literal.chomp s).1
      (contentOf (tail.take 1) (Text.pieces '\n' (Literal.chomp s).2)) =
      Literal.readText (!tail.isEmpty) s := by
    rw [blockText, if_neg (by simpa using hne)]
    exact htext
  simp only [Literal.text]
  cases hneeds : Literal.needsIndentation (Text.pieces '\n' (Literal.chomp s).2) with
  | true =>
      obtain ⟨cs, q', hcs, hq', hcontent⟩ :=
        blockContent?_lines hpos htail hlines hsome (.inl rfl)
      rw [if_pos rfl, List.cons_append, List.append_assoc, hcs]
      refine ⟨_, q', rfl, hq', ?_⟩
      rw [blockScalar?, headerIndicators?_digit hstep hpos]
      simp only [headerEnd?_break, hcontent, Option.map_some, hread]
  | false =>
      have hhead : ∀ c cs, (Text.pieces '\n' (Literal.chomp s).2).find? (!·.isEmpty) =
          some (c :: cs) → isBlank c = false := by
        intro c cs hfind
        have hmem := Literal.mem_pieces_of_mem_chomp (List.mem_of_find?_eq_some hfind)
        have htab : c ≠ '\t' := by
          rintro rfl
          exact (Literal.of_fits hs).2.2 _ hmem rfl
        have hspace := Literal.ne_space_of_needsIndentation hneeds hfind
        simp [isBlank, hspace, htab]
      obtain ⟨cs, q', hcs, hq', hcontent⟩ :=
        blockContent?_lines hpos htail hlines hsome (.inr ⟨rfl, hhead⟩)
      rw [if_neg Bool.false_ne_true, List.nil_append, List.cons_append, List.append_assoc, hcs]
      refine ⟨_, q', rfl, hq', ?_⟩
      rw [blockScalar?, headerIndicators?_indicator]
      simp only [headerEnd?_break, hcontent, Option.map_some, hread]

end Token

/-! ## Folded blocks -/

namespace Folded

theorem of_fits {s : List Char} (h : fits s = true) :
    (∀ w ∈ Text.pieces ' ' s, w ≠ [] ∧ Token.startsBlank w = false) ∧
      ∀ c ∈ s, isGraphic c = true := by
  simp only [fits, Bool.and_eq_true, List.all_eq_true, Bool.not_eq_true'] at h
  refine ⟨fun w hw => ?_, h.2⟩
  cases w with
  | nil => exact absurd (h.1.2 [] hw) (by simp)
  | cons c w =>
      obtain ⟨hmem, hne⟩ := Text.mem_of_mem_pieces hw List.mem_cons_self
      refine ⟨by simp, ?_⟩
      rw [Token.startsBlank, isBlank_of_isGraphic (h.2 c hmem)]
      simpa using hne

theorem fill_ne_nil (budget : Nat) (current : List Char) (words : List (List Char)) :
    fill budget current words ≠ [] := by
  induction words generalizing current with
  | nil => simp [fill]
  | cons w words ih =>
      rw [fill]
      split
      · exact ih w
      split
      · exact ih _
      · simp

/-- Filling lines keeps the words, one space between two of them. -/
theorem join_fill (budget : Nat) {current : List Char} (hcurrent : current ≠ [])
    {words : List (List Char)} (hwords : ∀ w ∈ words, w ≠ []) :
    Text.join ' ' (fill budget current words) = Text.join ' ' (current :: words) := by
  induction words generalizing current with
  | nil => rfl
  | cons w words ih =>
      have hwords' : ∀ v ∈ words, v ≠ [] := fun v hv => hwords v (by simp [hv])
      rw [fill, if_neg (by simpa using hcurrent)]
      split
      · rw [ih (by simp) hwords', Text.join_append_separator]
      · rw [Text.join_cons ' ' current (fill_ne_nil budget w words),
          ih (hwords w (by simp)) hwords', Text.join]

/-- What holds for words and is kept by putting another word on a line that has room for
it holds for all lines. -/
theorem forall_mem_fill {budget : Nat} {P : List Char → Prop}
    (happend : ∀ l w, P l → P w → l.length + 1 + w.length ≤ budget → P (l ++ ' ' :: w))
    {current : List Char} (hcurrent : P current) {words : List (List Char)}
    (hwords : ∀ w ∈ words, P w) : ∀ l ∈ fill budget current words, P l := by
  induction words generalizing current with
  | nil =>
      intro l hl
      rw [List.mem_singleton.1 hl]
      exact hcurrent
  | cons w words ih =>
      obtain ⟨hw, hwords⟩ := List.forall_mem_cons.1 hwords
      rw [fill]
      split
      · exact ih hw hwords
      split
      · next hfits => exact ih (happend current w hcurrent hw hfits) hwords
      · exact List.forall_mem_cons.2 ⟨hcurrent, ih hw hwords⟩

/-- The lines of a folded string: with single spaces between them they are the
string, and none of them is empty or starts with a blank. -/
theorem lines_spec {s : List Char} (hs : fits s = true) (budget : Nat) :
    Text.join ' ' (lines budget s) = s ∧
      ∀ l ∈ lines budget s, l ≠ [] ∧ Token.startsBlank l = false := by
  have hwords := (of_fits hs).1
  have hjoin := Text.join_pieces ' ' s
  unfold lines
  cases hp : Text.pieces ' ' s with
  | nil => exact absurd hp (Text.pieces_ne_nil ' ' s)
  | cons w words =>
      rw [hp] at hwords hjoin
      have hw := hwords w (by simp)
      have hwords' : ∀ v ∈ words, v ≠ [] ∧ Token.startsBlank v = false :=
        fun v hv => hwords v (by simp [hv])
      rw [fill, if_pos (show ([] : List Char).isEmpty = true from rfl)]
      refine ⟨?_, forall_mem_fill (fun l v hl _ _ => ?_) hw hwords'⟩
      · rw [join_fill budget hw.1 fun v hv => (hwords' v hv).1, hjoin]
      · obtain ⟨hne, hblank⟩ := hl
        obtain ⟨c, cs, rfl⟩ := List.exists_cons_of_ne_nil hne
        exact ⟨List.cons_ne_nil _ _, hblank⟩

/-- The lines of a folded block are written like those of a literal block. -/
theorem text_eq {s : List Char} (hs : fits s = true) (width column : Nat) :
    text width column s =
      '>' :: '-' :: (lines (max 1 (width - column)) s).flatMap (Literal.line column) := by
  obtain ⟨-, hlines⟩ := lines_spec hs (max 1 (width - column))
  rw [text, List.flatMap_def, List.flatMap_def]
  congr 3
  apply List.map_congr_left
  intro l hl
  rw [Literal.line, if_neg (by simpa using (hlines l hl).1)]

end Folded

namespace Token

/-- A folded block joins lines that do not start with a blank by spaces. -/
theorem foldedLines_contentOf (ending : List Char) {ls : List (List Char)} (hne : ls ≠ [])
    (hls : ∀ l ∈ ls, l ≠ [] ∧ startsBlank l = false) :
    (contentOf ending ls).leading = [] ∧ (contentOf ending ls).lines ≠ [] ∧
      foldedLines .strip (contentOf ending ls).lines = Text.join ' ' ls := by
  induction ls with
  | nil => exact absurd rfl hne
  | cons l ls ih =>
      have hl := hls l (by simp)
      cases ls with
      | nil =>
          rw [contentOf, if_neg (by simpa using hl.1)]
          exact ⟨rfl, by simp, by simp [foldedLines, chompText, Text.join]⟩
      | cons m ls =>
          obtain ⟨hleading, -, htext⟩ := ih (by simp) fun k hk => hls k (by simp [hk])
          have hm := hls m (by simp)
          have hfirst : ∃ e b ks, (contentOf ending (m :: ls)).lines = ⟨m, e, b⟩ :: ks := by
            cases ls with
            | nil =>
                rw [contentOf, if_neg (by simpa using hm.1)]
                exact ⟨_, _, _, rfl⟩
            | cons k ls =>
                rw [contentOf, if_neg (by simpa using hm.1)]
                exact ⟨_, _, _, rfl⟩
          obtain ⟨e, b, ks, hks⟩ := hfirst
          rw [contentOf, if_neg (by simpa using hl.1)]
          rw [hks] at htext
          refine ⟨rfl, by simp, ?_⟩
          simp only [hks, foldedLines, hleading, htext, foldBetween, hl.2, hm.2, Text.join]
          simp

/-- The header and the lines of a folded block are read as its string. -/
theorem blockScalar?_folded {s : List Char} (hs : Folded.fits s = true) {owner step : Nat}
    (hpos : 0 < step) (width : Nat) {tail rest : List Char} {q : Position}
    (htail : LineEnd (owner + 1) tail q rest) :
    ∃ cs q', Folded.text width (owner + step) s ++ tail = '>' :: cs ∧
      (tail ≠ [] → q' = q) ∧
      blockScalar? true (owner + 1) cs = some ⟨s, q', rest⟩ := by
  obtain ⟨hjoin, hlines⟩ := Folded.lines_spec hs (max 1 (width - (owner + step)))
  rw [Folded.text_eq hs]
  generalize Folded.lines (max 1 (width - (owner + step))) s = ls at hjoin hlines
  have hne : ls ≠ [] := by
    rintro rfl
    rw [← hjoin] at hs
    cases hs
  have hgraphic : ∀ l ∈ ls, ∀ c ∈ l, isGraphic c = true := by
    intro l hl c hc
    apply (Folded.of_fits hs).2
    rw [← hjoin]
    exact Text.mem_join_of_mem ' ' hl hc
  have hsome : ∃ l ∈ ls, l ≠ [] := by
    obtain ⟨l, ks, rfl⟩ := List.exists_cons_of_ne_nil hne
    exact ⟨l, by simp, (hlines l (by simp)).1⟩
  have hhead : ∀ c cs, ls.find? (!·.isEmpty) = some (c :: cs) → isBlank c = false :=
    fun c cs hfind => (hlines _ (List.mem_of_find?_eq_some hfind)).2
  obtain ⟨cs, q', hcs, hq', hcontent⟩ := blockContent?_lines hpos htail
    (fun l hl c hc => isBreak_of_isGraphic (hgraphic l hl c hc)) hsome (.inr ⟨rfl, hhead⟩)
  obtain ⟨hleading, hlines', htext⟩ := foldedLines_contentOf (tail.take 1) hne hlines
  rw [List.cons_append, List.cons_append, hcs]
  refine ⟨_, q', rfl, hq', ?_⟩
  have hheader : headerIndicators? ('-' :: '\n' :: cs) = some (⟨.strip, none⟩, '\n' :: cs) :=
    headerIndicators?_indicator .strip cs
  rw [blockScalar?, hheader]
  simp only [headerEnd?_break, hcontent, Option.map_some]
  rw [blockText, if_neg (by simpa using hlines'), hleading, if_pos rfl, htext, hjoin]
  rfl

end Token

end PromptDoc.Yaml
