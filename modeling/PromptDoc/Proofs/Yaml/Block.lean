import PromptDoc.Proofs.Yaml.LineEnd
import PromptDoc.Yaml.Token.Block

/-!
# Block scalars read back

The reader of a block scalar first finds the block's column and then cuts the
lines out of the text. `contentAt?` is that second part; it takes one line
feed after the other (`contentAt?_break`, `blockLines?_break`), so the content
of a written block follows by induction on its lines (`contentAt?_lines`).
What the lines of a literal block are joined to then depends on the chomping
alone (`literalLines_contentOf`).
-/

namespace PromptDoc.Yaml

namespace Token

/-- The content of a block scalar whose column is known. -/
def contentAt? (column : Nat) (cs : List Char) :
    Option (BlockContent × Position × List Char) :=
  (blankLines? column 0 cs).bind fun b =>
    if b.column = column ∧ b.rest ≠ [] then
      (blockLines? column b.rest).map fun (lines, after) => (⟨b.breaks, lines⟩, after)
    else some (⟨b.breaks, []⟩, ⟨b.column, b.column⟩, b.rest)

/-- A line of a block from its indentation on. -/
def indented (column : Nat) (l : List Char) : List Char :=
  if l.isEmpty then [] else spaces column ++ l

theorem line_eq (column : Nat) (l : List Char) :
    Literal.line column l = '\n' :: indented column l := rfl

theorem blankLines?_break (column : Nat) (cs : List Char) :
    blankLines? column 0 ('\n' :: cs) =
      (blankLines? column 0 cs).map fun b => { b with breaks := '\n' :: b.breaks } := by
  rw [blankLines?, if_neg (by simp), if_neg (by simp), if_pos isBreak_lineFeed]

theorem blankLines?_spaces {column m n : Nat} (h : m + n ≤ column) (cs : List Char) :
    blankLines? column m (spaces n ++ cs) = blankLines? column (m + n) cs := by
  induction n generalizing m with
  | zero => rfl
  | succ n ih =>
      rw [spaces_succ, List.cons_append, blankLines?, if_pos ⟨by omega, rfl⟩, ih (by omega)]
      congr 1
      omega

theorem contentAt?_nil {column : Nat} :
    contentAt? column [] = some (⟨[], []⟩, ⟨0, 0⟩, []) := by
  simp [contentAt?, blankLines?]

theorem contentAt?_break (column : Nat) (cs : List Char) :
    contentAt? column ('\n' :: cs) =
      (contentAt? column cs).map fun (c, after) => (⟨'\n' :: c.leading, c.lines⟩, after) := by
  rw [contentAt?, blankLines?_break, contentAt?]
  cases blankLines? column 0 cs with
  | none => rfl
  | some b =>
      simp only [Option.map_some, Option.bind_some]
      by_cases h : b.column = column ∧ b.rest ≠ []
      · rw [if_pos h, if_pos h, Option.map_map]
        rfl
      · rw [if_neg h, if_neg h]
        rfl

theorem contentAt?_line {column : Nat} {c : Char} (hc : isBreak c = false) (cs : List Char) :
    contentAt? column (spaces column ++ c :: cs) =
      (blockLines? column (c :: cs)).map fun (lines, after) => (⟨[], lines⟩, after) := by
  rw [contentAt?, blankLines?_spaces (by omega), blankLines?, if_neg (by omega),
    if_neg (by omega), if_neg (by simp [hc])]
  simp

/-- The text of something else that starts to the left of the block. -/
theorem contentAt?_outside {column m : Nat} (hm : m < column) {c : Char}
    (hc : opensToken c = true) (rest : List Char) :
    contentAt? column (spaces m ++ c :: rest) = some (⟨[], []⟩, ⟨m, m⟩, c :: rest) := by
  obtain ⟨-, hbreak, -, -⟩ := opensToken_iff.1 hc
  obtain ⟨hspace, htab⟩ := ne_blank_of_opensToken hc
  rw [contentAt?, blankLines?_spaces (by omega), blankLines?, if_neg (by simp [hspace]),
    if_neg (by simp [htab]), if_neg (by simp [hbreak])]
  simp only [Option.bind_some, Nat.zero_add]
  rw [if_neg (by omega)]

theorem takeWhile_break {l : List Char} (hl : ∀ c ∈ l, isBreak c = false) (cs : List Char) :
    (l ++ '\n' :: cs).takeWhile (!isBreak ·) = l ∧
      (l ++ '\n' :: cs).dropWhile (!isBreak ·) = '\n' :: cs := by
  have hpos : ∀ c ∈ l, (!isBreak c) = true := fun c hc => by rw [hl c hc]; rfl
  constructor
  · rw [List.takeWhile_append_of_pos hpos, List.takeWhile_cons_of_neg (by decide),
      List.append_nil]
  · rw [List.dropWhile_append_of_pos hpos, List.dropWhile_cons_of_neg (by decide)]

theorem blockLines?_break {column : Nat} {l : List Char} (hl : ∀ c ∈ l, isBreak c = false)
    (cs : List Char) :
    blockLines? column (l ++ '\n' :: cs) =
      (contentAt? column cs).map fun (c, after) =>
        (⟨l, ['\n'], c.leading⟩ :: c.lines, after) := by
  obtain ⟨htake, hdrop⟩ := takeWhile_break hl cs
  rw [blockLines?, htake, contentAt?]
  split
  · next heq => rw [hdrop] at heq; cases heq
  · next c rest heq =>
    rw [hdrop] at heq
    obtain ⟨rfl, rfl⟩ := List.cons.inj heq
    split
    · next hb => rw [hb]; rfl
    · next breaks k rest hb =>
      rw [hb]
      simp only [Option.bind_some]
      by_cases h : k = column ∧ rest ≠ []
      · rw [if_pos h, if_pos h, Option.map_map]
        rfl
      · rw [if_neg h, if_neg h]
        rfl

theorem blockLines?_stop {column : Nat} {l : List Char} (hl : ∀ c ∈ l, isBreak c = false) :
    blockLines? column l = some ([⟨l, [], []⟩], ⟨column + l.length, 0⟩, []) := by
  have hpos : ∀ c ∈ l, (!isBreak c) = true := fun c hc => by rw [hl c hc]; rfl
  have htake : l.takeWhile (!isBreak ·) = l := by
    rw [← List.append_nil l, List.takeWhile_append_of_pos hpos]
    simp
  have hdrop : l.dropWhile (!isBreak ·) = [] := by
    rw [← List.append_nil l, List.dropWhile_append_of_pos hpos]
    rfl
  rw [blockLines?, htake]
  split
  · rfl
  · next heq => rw [hdrop] at heq; cases heq

/-- The content of a block with the given lines, `ending` being what is left
of the line break after the last of them. -/
def contentOf (ending : List Char) : List (List Char) → BlockContent
  | [] => ⟨ending, []⟩
  | [l] => if l.isEmpty then ⟨ending, []⟩ else ⟨[], [⟨l, ending, []⟩]⟩
  | l :: m :: ls =>
    let c := contentOf ending (m :: ls)
    if l.isEmpty then ⟨'\n' :: c.leading, c.lines⟩
    else ⟨[], ⟨l, ['\n'], c.leading⟩ :: c.lines⟩

/-- Behind a block the reader finds no further line. -/
theorem contentAt?_lineEnd {column parent : Nat} (hcol : parent ≤ column) {tail rest : List Char}
    {q : Position} (h : LineEnd parent ('\n' :: tail) q rest) :
    contentAt? column tail = some (⟨[], []⟩, q, rest) := by
  cases h with
  | last => exact contentAt?_nil
  | next hm hc rest => exact contentAt?_outside (Nat.lt_of_lt_of_le hm hcol) hc rest

theorem contentAt?_lastLine {column parent : Nat} (hcol : parent ≤ column)
    {tail rest : List Char} {q : Position} (htail : LineEnd parent tail q rest) {l : List Char}
    (hl : ∀ c ∈ l, isBreak c = false) :
    ∃ q', (tail ≠ [] → q' = q) ∧
      contentAt? column (indented column l ++ tail) =
        some (contentOf (tail.take 1) [l], q', rest) := by
  rcases htail.eq_nil_or_cons with rfl | ⟨more, rfl⟩
  · obtain rfl := htail.eq_nil_of_nil
    cases l with
    | nil => exact ⟨_, fun h => absurd rfl h, contentAt?_nil⟩
    | cons c l =>
        refine ⟨⟨column + (c :: l).length, 0⟩, fun h => absurd rfl h, ?_⟩
        rw [List.append_nil, indented, if_neg (by simp), contentAt?_line (hl c (by simp)),
          blockLines?_stop hl]
        rfl
  · refine ⟨q, fun _ => rfl, ?_⟩
    cases l with
    | nil =>
        rw [show indented column [] = [] from rfl, List.nil_append, contentAt?_break,
          contentAt?_lineEnd hcol htail]
        rfl
    | cons c l =>
        rw [indented, if_neg (by simp), List.append_assoc, List.cons_append,
          contentAt?_line (hl c (by simp)), ← List.cons_append, blockLines?_break hl,
          contentAt?_lineEnd hcol htail]
        rfl

/-- The text from the first line of a block on is cut into the block's lines. -/
theorem contentAt?_lines {column parent : Nat} (hcol : parent ≤ column) {tail rest : List Char}
    {q : Position} (htail : LineEnd parent tail q rest) {l : List Char} {ls : List (List Char)}
    (hls : ∀ m ∈ l :: ls, ∀ c ∈ m, isBreak c = false) :
    ∃ q', (tail ≠ [] → q' = q) ∧
      contentAt? column (indented column l ++ ls.flatMap (Literal.line column) ++ tail) =
        some (contentOf (tail.take 1) (l :: ls), q', rest) := by
  induction ls generalizing l with
  | nil =>
      rw [List.flatMap_nil, List.append_nil]
      exact contentAt?_lastLine hcol htail (hls l (by simp))
  | cons m ls ih =>
      obtain ⟨q', hq', hread⟩ := ih (fun k hk => hls k (List.mem_cons_of_mem l hk))
      refine ⟨q', hq', ?_⟩
      have hl := hls l (by simp)
      rw [List.flatMap_cons, line_eq, List.append_assoc, List.cons_append, List.cons_append]
      cases l with
      | nil =>
          rw [show indented column [] = [] from rfl, List.nil_append, contentAt?_break, hread]
          rfl
      | cons c l =>
          rw [indented, if_neg (by simp), List.append_assoc, List.cons_append,
            contentAt?_line (hl c (by simp)), ← List.cons_append, blockLines?_break hl, hread]
          rfl

/-! ## From lines to text -/

theorem contentOf_blank {ending : List Char} {ls : List (List Char)} (h : ∀ l ∈ ls, l = []) :
    contentOf ending ls = ⟨Text.join '\n' ls ++ ending, []⟩ := by
  induction ls with
  | nil => rfl
  | cons l ls ih =>
      obtain rfl := h l (by simp)
      cases ls with
      | nil => rfl
      | cons m ls =>
          rw [contentOf, ih (fun k hk => h k (List.mem_cons_of_mem [] hk))]
          rfl

/-- Only a block that keeps all its line breaks may end in an empty line. -/
theorem literalLines_contentOf {chomping : Chomping} (ending : List Char)
    {ls : List (List Char)} (hsome : ∃ l ∈ ls, l ≠ [])
    (hlast : chomping = .keep ∨ ls.getLast? ≠ some []) :
    (contentOf ending ls).lines ≠ [] ∧
      (contentOf ending ls).leading ++ literalLines chomping (contentOf ending ls).lines =
        Text.join '\n' ls ++ chompText chomping ending [] := by
  induction ls with
  | nil =>
      obtain ⟨l, hl, -⟩ := hsome
      cases hl
  | cons l ls ih =>
      cases ls with
      | nil =>
          obtain ⟨k, hk, hne⟩ := hsome
          rw [List.mem_singleton.1 hk] at hne
          rw [contentOf, if_neg (by simpa using hne)]
          exact ⟨by simp, rfl⟩
      | cons m ls =>
          rw [List.getLast?_cons_cons] at hlast
          rw [contentOf, Text.join]
          by_cases hmore : ∃ k ∈ m :: ls, k ≠ []
          · obtain ⟨hne, htext⟩ := ih hmore hlast
            by_cases hl : l = []
            · subst hl
              exact ⟨hne, congrArg ('\n' :: ·) htext⟩
            · rw [if_neg (by simpa using hl)]
              refine ⟨by simp, ?_⟩
              obtain ⟨k, ks, hks⟩ := List.exists_cons_of_ne_nil hne
              rw [hks] at htext
              simp only [hks, literalLines, List.nil_append, List.append_assoc,
                List.cons_append, htext]
          · -- All further lines are empty, so the block keeps its line breaks.
            have hrest : ∀ k ∈ m :: ls, k = [] := fun k hk =>
              Decidable.byContradiction fun hne => hmore ⟨k, hk, hne⟩
            have hkeep : chomping = .keep := by
              rcases hlast with h | h
              · exact h
              · rw [List.getLast?_eq_some_getLast (List.cons_ne_nil m ls),
                  hrest _ (List.getLast_mem _)] at h
                exact absurd rfl h
            have hl : l ≠ [] := by
              rintro rfl
              obtain ⟨k, hk, hne⟩ := hsome
              rcases List.mem_cons.1 hk with rfl | hk
              · exact hne rfl
              · exact hne (hrest k hk)
            subst hkeep
            rw [contentOf_blank hrest, if_neg (by simpa using hl)]
            refine ⟨by simp, ?_⟩
            simp [literalLines, chompText]

/-! ## Headers -/

theorem widestIndent?_spaces (m n : Nat) (cs : List Char) :
    widestIndent? m 0 (spaces n ++ cs) = widestIndent? (m + n) 0 cs := by
  induction n generalizing m with
  | zero => rfl
  | succ n ih =>
      rw [spaces_succ, List.cons_append, widestIndent?, if_pos rfl, ih]
      congr 1
      omega

/-- Where the reader stands after the indentation of a block's first line,
found without knowing the column. -/
theorem widestIndent?_line {column : Nat} {c : Char} (hblank : isBlank c = false)
    (hbreak : isBreak c = false) (cs : List Char) :
    ∃ b, widestIndent? 0 0 (spaces column ++ c :: cs) = some (column, b) ∧
      blankLines? column 0 (spaces column ++ c :: cs) = some b := by
  simp only [isBlank, Bool.or_eq_false_iff, decide_eq_false_iff_not] at hblank
  refine ⟨⟨[], column, c :: cs⟩, ?_, ?_⟩
  · rw [widestIndent?_spaces, widestIndent?, if_neg hblank.1, if_neg hblank.2,
      if_neg (by simp [hbreak])]
    simp
  · rw [blankLines?_spaces (by omega), blankLines?, if_neg (by omega), if_neg (by omega),
      if_neg (by simp [hbreak])]
    simp

/-- Without a digit in the header the column is found from the first line that
is not empty. -/
theorem widestIndent?_lines {column : Nat} {l : List Char} {ls : List (List Char)}
    (tail : List Char) (hsome : ∃ m ∈ l :: ls, m ≠ [])
    (hhead : ∀ c cs, (l :: ls).find? (!·.isEmpty) = some (c :: cs) →
      isBlank c = false ∧ isBreak c = false) :
    ∃ b, widestIndent? 0 0 (indented column l ++ ls.flatMap (Literal.line column) ++ tail) =
        some (column, b) ∧
      blankLines? column 0 (indented column l ++ ls.flatMap (Literal.line column) ++ tail) =
        some b := by
  induction ls generalizing l with
  | nil =>
      cases l with
      | nil => simp at hsome
      | cons c l =>
          obtain ⟨hblank, hbreak⟩ := hhead c l rfl
          rw [indented, if_neg (by simp), List.append_assoc, List.append_assoc, List.cons_append]
          exact widestIndent?_line hblank hbreak _
  | cons m ls ih =>
      cases l with
      | nil =>
          obtain ⟨b, hwidest, hb⟩ := ih (by simpa using hsome) hhead
          rw [show indented column [] = [] from rfl, List.nil_append, List.flatMap_cons, line_eq,
            List.cons_append, List.cons_append, widestIndent?, if_neg (by decide),
            if_neg (by decide), if_pos isBreak_lineFeed, Nat.max_self, hwidest, blankLines?_break,
            hb]
          exact ⟨_, rfl, rfl⟩
      | cons c l =>
          obtain ⟨hblank, hbreak⟩ := hhead c l rfl
          rw [indented, if_neg (by simp), List.append_assoc, List.append_assoc, List.cons_append]
          exact widestIndent?_line hblank hbreak _

theorem blockContent?_some (owner step : Nat) (cs : List Char) :
    blockContent? (owner + 1) (some step) cs = contentAt? (owner + step) cs := by
  simp only [blockContent?, contentAt?, Nat.add_sub_cancel]
  cases blankLines? (owner + step) 0 cs <;> rfl

theorem blockContent?_none {owner column : Nat} (h : owner < column) {cs : List Char}
    {b : BlankLines} (hwidest : widestIndent? 0 0 cs = some (column, b))
    (hb : blankLines? column 0 cs = some b) :
    blockContent? (owner + 1) none cs = contentAt? column cs := by
  have hmax : max (max column (owner + 1)) 1 = column := by omega
  simp only [blockContent?, contentAt?, hwidest, hb, Option.map_some, Option.bind_some, hmax]

/-- The content of a written block, whether its header gives the indentation
beyond its owner or leaves it to the first line. -/
theorem blockContent?_lines {owner step : Nat} (hstep : 0 < step) {tail rest : List Char}
    {q : Position} (htail : LineEnd (owner + 1) tail q rest) {digit : Option Nat}
    {ls : List (List Char)} (hls : ∀ m ∈ ls, ∀ c ∈ m, isBreak c = false)
    (hsome : ∃ m ∈ ls, m ≠ [])
    (hdigit : digit = some step ∨ digit = none ∧
      ∀ c cs, ls.find? (!·.isEmpty) = some (c :: cs) → isBlank c = false) :
    ∃ cs q', ls.flatMap (Literal.line (owner + step)) ++ tail = '\n' :: cs ∧
      (tail ≠ [] → q' = q) ∧
      blockContent? (owner + 1) digit cs = some (contentOf (tail.take 1) ls, q', rest) := by
  cases ls with
  | nil => simp at hsome
  | cons l ls =>
      have hcol : owner + 1 ≤ owner + step := by omega
      obtain ⟨q', hq', hread⟩ := contentAt?_lines hcol htail hls
      refine ⟨_, q', rfl, hq', ?_⟩
      change blockContent? (owner + 1) digit (indented (owner + step) l ++
        ls.flatMap (Literal.line (owner + step)) ++ tail) = _
      rcases hdigit with rfl | ⟨rfl, hhead⟩
      · rw [blockContent?_some, hread]
      · have hfirst : ∀ c cs, (l :: ls).find? (!·.isEmpty) = some (c :: cs) →
            isBlank c = false ∧ isBreak c = false := fun c cs hfind =>
          ⟨hhead c cs hfind, hls _ (List.mem_of_find?_eq_some hfind) c (by simp)⟩
        obtain ⟨b, hwidest, hb⟩ := widestIndent?_lines tail hsome hfirst
        rw [blockContent?_none hcol hwidest hb, hread]

theorem headerEnd?_break (cs : List Char) : headerEnd? ('\n' :: cs) = some cs := by
  simp [headerEnd?]

/-- The digit that a header gives the indentation in. -/
theorem digit_spec : ∀ k < 10, 0 < k → ∃ d, Nat.toDigits 10 k = [d] ∧ chomping? d = none ∧
    d ≠ '0' ∧ d.isDigit = true ∧ d.toNat - '0'.toNat = k := by
  intro k hk hpos
  refine ⟨Nat.digitChar k, ?_⟩
  revert k
  decide

theorem headerIndicators?_indicator (chomping : Chomping) (cs : List Char) :
    headerIndicators? (chomping.indicator ++ '\n' :: cs) =
      some (⟨chomping, none⟩, '\n' :: cs) := by
  cases chomping <;> rfl

theorem headerIndicators?_digit {k : Nat} (hk : k < 10) (hpos : 0 < k) (chomping : Chomping)
    (cs : List Char) :
    headerIndicators? (Nat.toDigits 10 k ++ chomping.indicator ++ '\n' :: cs) =
      some (⟨chomping, some k⟩, '\n' :: cs) := by
  obtain ⟨d, hd, hchomp, hzero, hdigit, hval⟩ := digit_spec k hk hpos
  rw [hd, List.append_assoc, List.singleton_append, headerIndicators?.eq_def]
  simp only [hchomp, indentDigit?, if_neg hzero, if_pos hdigit, hval]
  cases chomping <;> rfl

end Token

end PromptDoc.Yaml
