import Mathlib.Data.List.DropRight
import PromptDoc.Proofs.Yaml.Multiline

/-!
# What a literal block denotes

`Literal.meaning?` is the string that a literal block denotes below an owner, found line
by line from the rules of the format: the header or the first line that is not blank gives
the column of the content, the lines that reach that column lose it, and the header says
how many of the line breaks at the end count. The block that is written for a string
denotes that string (`Literal.meaning?_text`), whatever follows the block.

Line breaks are line feeds here, as they are behind the reader's first step.
-/

namespace PromptDoc.Yaml

namespace Literal

/-! ## The rules -/

/-- The spaces that a line starts with. -/
def indentation (l : List Char) : Nat :=
  (l.takeWhile (· = ' ')).length

/-- Whether there is nothing but spaces on a line. -/
def isBlankLine (l : List Char) : Bool :=
  l.all (· = ' ')

/-- Whether a line belongs to a block with its content at a column. -/
def belongs (column : Nat) (l : List Char) : Bool :=
  isBlankLine l || column ≤ indentation l

/-- A line without the indentation of its block; a blank line may have less of it. -/
def dedent (column : Nat) (l : List Char) : List Char :=
  l.drop (min column (indentation l))

/-- The lines of a block without their indentation. The first line that does not belong
to the block ends it. -/
def content (column : Nat) : List (List Char) → List Char
  | [] => []
  | [l] => if belongs column l then dedent column l else []
  | l :: m :: ls =>
    if belongs column l then dedent column l ++ '\n' :: content column (m :: ls) else []

/-- The column of a block's content: the digit of the header counts from the owner's
column, and without a digit the first line that is not blank decides. The content is to
the right of the owner in any case. -/
def contentColumn (level : Nat) (digit : Option Nat) (ls : List (List Char)) : Nat :=
  match digit with
  | some d => level + d
  | none => max (level + 1) (((ls.find? (!isBlankLine ·)).map indentation).getD 0)

/-- What the chomping leaves of the line breaks at the end. -/
def chompBreaks : Chomping → List Char → List Char
  | .strip, s => s.rdropWhile (· = '\n')
  | .clip, s => s.rdropWhile (· = '\n') ++ if s.getLast? = some '\n' then ['\n'] else []
  | .keep, s => s

/-- The string that a literal block denotes whose owner starts at column `level`. The
text starts with the indicator and may go on behind the block. -/
def meaning? (level : Nat) : List Char → Option (List Char)
  | '|' :: cs =>
    (Token.headerIndicators? cs).bind fun (header, cs) =>
      (Token.headerEnd? cs).map fun cs =>
        let ls := Text.pieces '\n' cs
        chompBreaks header.chomping (content (contentColumn level header.indent ls) ls)
  | _ => none

/-- What may follow a block and the line feed behind it: nothing, or a line that is not
blank and starts at the owner's column or to the left of it. -/
inductive EndsBlock (level : Nat) : List Char → Prop
  | nil : EndsBlock level []
  | line {m : Nat} {c : Char} (hm : m ≤ level) (hspace : c ≠ ' ') (hfeed : c ≠ '\n')
      (more : List Char) : EndsBlock level (spaces m ++ c :: more)

/-! ## Lines -/

theorem indentation_spaces_append (m : Nat) (l : List Char) :
    indentation (spaces m ++ l) = m + indentation l := by
  have hspaces : ∀ c ∈ spaces m, decide (c = ' ') = true := fun c hc =>
    decide_eq_true (List.eq_of_mem_replicate hc)
  rw [indentation, List.takeWhile_append_of_pos hspaces, List.length_append, spaces,
    List.length_replicate]
  rfl

theorem indentation_line {c : Char} (hc : c ≠ ' ') (m : Nat) (cs : List Char) :
    indentation (spaces m ++ c :: cs) = m := by
  rw [indentation_spaces_append, indentation, List.takeWhile_cons_of_neg (by simpa using hc)]
  rfl

theorem isBlankLine_line {c : Char} (hc : c ≠ ' ') (m : Nat) (cs : List Char) :
    isBlankLine (spaces m ++ c :: cs) = false := by
  simp [isBlankLine, hc]

theorem belongs_indented (column : Nat) (l : List Char) :
    belongs column (Token.indented column l) = true := by
  cases l with
  | nil => rfl
  | cons c l =>
      rw [Token.indented, if_neg (by simp), belongs, indentation_spaces_append]
      simp

theorem dedent_indented (column : Nat) (l : List Char) :
    dedent column (Token.indented column l) = l := by
  cases l with
  | nil => exact List.drop_nil
  | cons c l =>
      rw [Token.indented, if_neg (by simp), dedent, indentation_spaces_append,
        Nat.min_eq_left (Nat.le_add_right _ _)]
      exact List.drop_left' List.length_replicate

/-- Written lines are the content, each with its line feed. -/
theorem content_append (column : Nat) (ls : List (List Char)) {others : List (List Char)}
    (hne : others ≠ []) :
    content column (ls.map (Token.indented column) ++ others) =
      ls.flatMap (· ++ ['\n']) ++ content column others := by
  induction ls with
  | nil => rfl
  | cons l ls ih =>
      obtain ⟨m, ms, hms⟩ : ∃ m ms, ls.map (Token.indented column) ++ others = m :: ms :=
        List.exists_cons_of_ne_nil (by simp [hne])
      rw [hms] at ih
      rw [List.map_cons, List.cons_append, hms, content, if_pos (belongs_indented column l),
        dedent_indented, ih, List.flatMap_cons]
      simp

theorem content_of_not_belongs {column : Nat} {l : List Char} (h : belongs column l = false)
    (ls : List (List Char)) : content column (l :: ls) = [] := by
  cases ls <;> simp [content, h]

/-- Nothing of what follows a block is content. -/
theorem content_rest {level column : Nat} (hlt : level < column) {rest : List Char}
    (h : EndsBlock level rest) : content column (Text.pieces '\n' rest) = [] := by
  cases h with
  | nil => exact List.drop_nil
  | @line m c hm hspace hfeed more =>
      have hspaces : ∀ d ∈ spaces m, decide (d ≠ '\n') = true := by
        intro d hd
        rw [List.eq_of_mem_replicate hd]
        rfl
      obtain ⟨others, hpieces⟩ := Text.exists_pieces_eq '\n' (spaces m ++ c :: more)
      rw [List.takeWhile_append_of_pos hspaces,
        List.takeWhile_cons_of_pos (by simpa using hfeed)] at hpieces
      rw [hpieces]
      apply content_of_not_belongs
      rw [belongs, isBlankLine_line hspace, indentation_line hspace, Bool.false_or,
        decide_eq_false (by omega)]

/-- The lines of a written block and of what follows it. -/
theorem pieces_lines {ls : List (List Char)} (hls : ∀ l ∈ ls, '\n' ∉ l) (hne : ls ≠ [])
    (column : Nat) (rest : List Char) :
    ∃ body, ls.flatMap (line column) ++ '\n' :: rest = '\n' :: body ∧
      Text.pieces '\n' body = ls.map (Token.indented column) ++ Text.pieces '\n' rest := by
  induction ls with
  | nil => exact absurd rfl hne
  | cons l ls ih =>
      obtain ⟨hl, hls⟩ := List.forall_mem_cons.1 hls
      have hindented : '\n' ∉ Token.indented column l := by
        rw [Token.indented]
        split
        · exact List.not_mem_nil
        · rw [List.mem_append, not_or]
          exact ⟨fun h => absurd (List.eq_of_mem_replicate h) (by decide), hl⟩
      refine ⟨Token.indented column l ++ (ls.flatMap (line column) ++ '\n' :: rest), ?_, ?_⟩
      · rw [List.flatMap_cons, Token.line_eq, List.cons_append, List.cons_append,
          List.append_assoc]
      · by_cases hmore : ls = []
        · subst hmore
          exact Text.pieces_append_cons hindented rest
        · obtain ⟨body, hbody, hpieces⟩ := ih hls hmore
          rw [hbody, Text.pieces_append_cons hindented, hpieces]
          rfl

/-- Without a digit in the header the first line that is not blank gives the column. -/
theorem contentColumn_none {level column : Nat} (hlt : level < column) {ls : List (List Char)}
    (hsome : ∃ l ∈ ls, l ≠ [])
    (hhead : ∀ c cs, ls.find? (!·.isEmpty) = some (c :: cs) → c ≠ ' ')
    (others : List (List Char)) :
    contentColumn level none (ls.map (Token.indented column) ++ others) = column := by
  have hfind : ∃ c cs, c ≠ ' ' ∧ (ls.map (Token.indented column) ++ others).find?
      (!isBlankLine ·) = some (spaces column ++ c :: cs) := by
    induction ls with
    | nil => simp at hsome
    | cons l ls ih =>
        cases l with
        | nil => exact ih (by simpa using hsome) hhead
        | cons c cs =>
            have hc := hhead c cs rfl
            refine ⟨c, cs, hc, ?_⟩
            rw [List.map_cons, List.cons_append, Token.indented, if_neg (by simp),
              List.find?_cons_of_pos (by simp [isBlankLine_line hc])]
  obtain ⟨c, cs, hc, hfind⟩ := hfind
  rw [contentColumn, hfind, Option.map_some, Option.getD_some, indentation_line hc,
    Nat.max_eq_right hlt]

/-! ## Written blocks -/

/-- Lines that end with a line feed each are the joined lines with one more. -/
theorem flatMap_lineFeed {ls : List (List Char)} (hne : ls ≠ []) :
    ls.flatMap (· ++ ['\n']) = Text.join '\n' ls ++ ['\n'] := by
  induction ls with
  | nil => exact absurd rfl hne
  | cons l ls ih =>
      by_cases hls : ls = []
      · subst hls
        simp [Text.join]
      · rw [List.flatMap_cons, ih hls, Text.join_cons '\n' l hls]
        simp

/-- The chomping of a written block takes back what the line feed behind the block is
too much. -/
theorem chompBreaks_chomp (s : List Char) :
    chompBreaks (chomp s).1 ((chomp s).2 ++ ['\n']) = s := by
  have htrim : ∀ body : List Char, body.getLast? ≠ some '\n' →
      (body ++ ['\n']).rdropWhile (· = '\n') = body := by
    intro body hlast
    rw [List.rdropWhile_concat_pos _ _ _ (by simp), List.rdropWhile_eq_self_iff]
    intro hne hfeed
    rw [List.getLast?_eq_some_getLast hne] at hlast
    exact hlast (congrArg some (of_decide_eq_true hfeed))
  rcases chomp_spec s with ⟨hchomp, hlast⟩ | ⟨body, hs, ⟨hchomp, hlast⟩ | ⟨hchomp, -⟩⟩
  · rw [hchomp, chompBreaks, htrim s hlast]
  · rw [hchomp, chompBreaks, htrim body hlast, List.getLast?_concat, if_pos rfl, hs]
  · rw [hchomp, chompBreaks, hs]

/-- The block written for a string denotes the string, for every column of its owner and
every step of indentation that a header can give, at the end of the text and before
anything that does not continue the block. -/
theorem meaning?_text {s : List Char} (hs : fits s = true) {step : Nat} (hpos : 1 ≤ step)
    (hstep : step ≤ 9) (level : Nat) {rest : List Char} (hrest : EndsBlock level rest) :
    meaning? level (text step (level + step) s ++ '\n' :: rest) = some s := by
  have hlines : ∀ l ∈ Text.pieces '\n' (chomp s).2, '\n' ∉ l := fun l hl hmem =>
    (Text.mem_of_mem_pieces hl hmem).2 rfl
  have hne := Text.pieces_ne_nil '\n' (chomp s).2
  have hsome := exists_line_ne_nil hs
  have hlt : level < level + step := by omega
  obtain ⟨body, hbody, hpieces⟩ := pieces_lines hlines hne (level + step) rest
  have hcontent : chompBreaks (chomp s).1
      (content (level + step) (Text.pieces '\n' body)) = s := by
    rw [hpieces, content_append _ _ (Text.pieces_ne_nil '\n' rest), content_rest hlt hrest,
      List.append_nil, flatMap_lineFeed hne, Text.join_pieces, chompBreaks_chomp]
  simp only [text]
  cases hneeds : needsIndentation (Text.pieces '\n' (chomp s).2) with
  | true =>
      rw [if_pos rfl, List.cons_append, List.append_assoc, hbody, meaning?,
        Token.headerIndicators?_digit (Nat.lt_succ_of_le hstep) hpos]
      simp only [Option.bind_some, Token.headerEnd?_break, Option.map_some, contentColumn,
        hcontent]
  | false =>
      have hcolumn : contentColumn level none (Text.pieces '\n' body) = level + step := by
        rw [hpieces]
        exact contentColumn_none hlt hsome (fun _ _ => ne_space_of_needsIndentation hneeds) _
      rw [if_neg Bool.false_ne_true, List.nil_append, List.cons_append, List.append_assoc, hbody,
        meaning?, Token.headerIndicators?_indicator]
      simp only [Option.bind_some, Token.headerEnd?_break, Option.map_some, hcolumn, hcontent]

theorem meaning?_text_of_leading_spaces :
    fits "\n  a\n \n\n".toList = true ∧ EndsBlock 3 "   k: 1".toList ∧
      meaning? 3 ("|2+\n\n       a\n      \n\n".toList ++ "   k: 1".toList) =
        some "\n  a\n \n\n".toList := by
  have hs : fits "\n  a\n \n\n".toList = true := by decide
  have hrest : EndsBlock 3 "   k: 1".toList :=
    .line (Nat.le_refl 3) (by decide) (by decide) ": 1".toList
  exact ⟨hs, hrest, @meaning?_text _ hs 2 (by decide) (by decide) 3 _ hrest⟩

-- A block need not be a written one: a comment, blank lines of less indentation, an end
-- without a line feed.
example : meaning? 1 "|+ # c\n\n   a\n \n    b\n  c".toList = some "\na\n\n b\n".toList := by
  decide

end Literal

end PromptDoc.Yaml
