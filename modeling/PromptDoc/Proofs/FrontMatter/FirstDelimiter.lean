import PromptDoc.Proofs.FrontMatter.Envelope
import PromptDoc.Proofs.Text.Lines

/-!
# Where front matter ends

`Text.brokenLines` are the lines of a text with their line breaks, and
`Envelope.ofLines?` takes the lines behind the opening delimiter apart at the first
one of three hyphens. `split?` does the same unless that line is the very first one
(`Envelope.split?_eq_ofLines?_iff`): it wants a line break on either side of the
block, so it does not see a delimiter that follows the opening one at once and looks
for another one in the body.
-/

namespace PromptDoc

/-! ## Lines with their breaks -/

namespace Text

/-- A line with the line break behind it. The last line of a text has none. -/
structure BrokenLine where
  content : List Char
  lineBreak : List Char
deriving DecidableEq

/-- The lines of a text with their breaks. -/
def brokenLines : List Char → List BrokenLine
  | [] => [⟨[], []⟩]
  | '\r' :: '\n' :: rest => ⟨[], ['\r', '\n']⟩ :: brokenLines rest
  | '\n' :: rest => ⟨[], ['\n']⟩ :: brokenLines rest
  | c :: rest =>
    match brokenLines rest with
    | [] => [⟨[c], []⟩]
    | l :: ls => ⟨c :: l.content, l.lineBreak⟩ :: ls

/-- The text of some lines. -/
def joined (ls : List BrokenLine) : List Char :=
  ls.flatMap fun l => l.content ++ l.lineBreak

/-- The text of some lines without the last line break. -/
def inside : List BrokenLine → List Char
  | [] => []
  | [l] => l.content
  | l :: m :: ls => l.content ++ l.lineBreak ++ inside (m :: ls)

variable {c : Char} {s : List Char} {l : BrokenLine} {ls : List BrokenLine}

theorem exists_brokenLines_eq (s : List Char) : ∃ l ls, brokenLines s = l :: ls := by
  unfold brokenLines
  split
  · exact ⟨_, _, rfl⟩
  · exact ⟨_, _, rfl⟩
  · exact ⟨_, _, rfl⟩
  · split <;> exact ⟨_, _, rfl⟩

/-- A character that is no part of a line break stands at the front of the first
line. -/
theorem brokenLines_cons (hfeed : c ≠ '\n') (hreturn : c = '\r' → s.head? ≠ some '\n')
    (hs : brokenLines s = l :: ls) :
    brokenLines (c :: s) = ⟨c :: l.content, l.lineBreak⟩ :: ls := by
  rw [brokenLines.eq_def]
  split
  · next heq => cases heq
  · next heq =>
    obtain ⟨rfl, rfl⟩ := List.cons.inj heq
    exact absurd rfl (hreturn rfl)
  · next heq => exact absurd (List.cons.inj heq).1 hfeed
  · next heq =>
    obtain ⟨rfl, rfl⟩ := List.cons.inj heq
    rw [hs]

theorem joined_cons : joined (l :: ls) = l.content ++ l.lineBreak ++ joined ls :=
  List.flatMap_cons

/-- Nothing of a text is lost. -/
theorem joined_brokenLines (s : List Char) : joined (brokenLines s) = s := by
  fun_induction brokenLines s with
  | case1 => rfl
  | case2 rest ih => exact congrArg (['\r', '\n'] ++ ·) ih
  | case3 rest ih => exact congrArg ('\n' :: ·) ih
  | case4 c rest _ _ hrest ih =>
    rw [hrest] at ih
    exact congrArg (c :: ·) ih
  | case5 c rest _ _ l ls hrest ih =>
    rw [hrest] at ih
    exact congrArg (c :: ·) ih

/-- What follows a line break are the other lines. -/
theorem brokenLines_joined (h : brokenLines s = l :: ls) (hbreak : l.lineBreak ≠ []) :
    brokenLines (joined ls) = ls := by
  fun_induction brokenLines s generalizing l ls with
  | case1 =>
    obtain ⟨rfl, rfl⟩ := List.cons.inj h
    exact absurd rfl hbreak
  | case2 rest | case3 rest =>
    obtain ⟨rfl, rfl⟩ := List.cons.inj h
    rw [joined_brokenLines]
  | case4 c rest _ _ hrest ih =>
    obtain ⟨rfl, rfl⟩ := List.cons.inj h
    exact absurd rfl hbreak
  | case5 c rest _ _ m ms hrest ih =>
    obtain ⟨rfl, rfl⟩ := List.cons.inj h
    exact ih hrest hbreak

end Text

namespace Envelope

open Text

variable {s : List Char} {l first : BrokenLine} {ls : List BrokenLine}

/-- A line of three hyphens and nothing else. -/
def isRule (l : BrokenLine) : Bool :=
  l.content == ['-', '-', '-']

/-- The envelope of the lines behind an opening delimiter: the block ends before the
first rule among them, and the body is all that follows this line. -/
def ofLines? (crlf : Bool) (ls : List BrokenLine) : Option Envelope :=
  match ls.dropWhile (!isRule ·) with
  | [] => none
  | rule :: after =>
    some ⟨inside (ls.takeWhile (!isRule ·)), rule.lineBreak, joined after, crlf⟩

/-! ## Delimiters among lines -/

/-- The line break in front of a text ends a first line without characters. -/
theorem takeBreak?_eq_ite (hs : s ≠ []) (h : brokenLines s = l :: ls) :
    takeBreak? s = if l.content = [] then some (l.lineBreak, joined ls) else none := by
  fun_cases takeBreak? s with
  | case1 rest =>
    obtain ⟨rfl, rfl⟩ := List.cons.inj h
    simp [joined_brokenLines]
  | case2 rest =>
    obtain ⟨rfl, rfl⟩ := List.cons.inj h
    simp [joined_brokenLines]
  | case3 _ hcrlf hfeed =>
    obtain ⟨c, rest, rfl⟩ := List.exists_cons_of_ne_nil hs
    obtain ⟨m, ms, hrest⟩ := exists_brokenLines_eq rest
    rw [brokenLines_cons (fun hc => hfeed rest (by rw [hc])) ?_ hrest] at h
    · obtain ⟨rfl, rfl⟩ := List.cons.inj h
      simp
    · rintro rfl hhead
      obtain ⟨more, rfl⟩ := List.head?_eq_some_iff.1 hhead
      exact hcrlf more rfl

theorem brokenLines_hyphen_cons (h : brokenLines s = l :: ls) :
    brokenLines ('-' :: s) = ⟨'-' :: l.content, l.lineBreak⟩ :: ls :=
  brokenLines_cons (by decide) (fun h => absurd h (by decide)) h

/-- The delimiter in front of a text is its first line. -/
theorem takeDelimiter?_eq_ite (h : brokenLines s = l :: ls) :
    takeDelimiter? s = if isRule l then some (l.lineBreak, joined ls) else none := by
  fun_cases takeDelimiter? s with
  | case1 =>
    obtain ⟨rfl, rfl⟩ := List.cons.inj h
    rfl
  | case2 rest hne =>
    obtain ⟨m, ms, hrest⟩ := exists_brokenLines_eq rest
    rw [brokenLines_hyphen_cons (brokenLines_hyphen_cons (brokenLines_hyphen_cons hrest))] at h
    obtain ⟨rfl, rfl⟩ := List.cons.inj h
    rw [takeBreak?_eq_ite hne hrest]
    simp [isRule]
  | case3 _ _ hmore =>
    rw [if_neg]
    intro hrule
    have hs := joined_brokenLines s
    rw [h, joined_cons, eq_of_beq hrule] at hs
    exact hmore _ hs.symm

/-! ## The block among lines -/

/-- What `splitBlock?` gives for a first line and the lines behind it, in terms of the
lines: it looks for a rule among the others only. -/
def behind? (first : BrokenLine) (ls : List BrokenLine) :
    Option (List Char × List Char × List Char) :=
  match ls.dropWhile (!isRule ·) with
  | [] => none
  | rule :: after =>
    some (inside (first :: ls.takeWhile (!isRule ·)), rule.lineBreak, joined after)

theorem behind?_of_isRule (h : isRule l = true) :
    behind? first (l :: ls) = some (first.content, l.lineBreak, joined ls) := by
  simp [behind?, h, inside]

theorem behind?_of_not_isRule (h : isRule l = false) :
    behind? first (l :: ls) = (behind? l ls).map fun (block, after) =>
      (first.content ++ first.lineBreak ++ block, after) := by
  have hgo : (!isRule l) = true := by simp [h]
  simp only [behind?, List.dropWhile_cons, List.takeWhile_cons, hgo, if_true]
  cases ls.dropWhile (!isRule ·) <;> rfl

theorem behind?_cons (c : Char) :
    behind? ⟨c :: first.content, first.lineBreak⟩ ls =
      (behind? first ls).map fun (block, after) => (c :: block, after) := by
  have hinside : ∀ ms, inside (⟨c :: first.content, first.lineBreak⟩ :: ms) =
      c :: inside (first :: ms) := by
    intro ms
    cases ms <;> rfl
  simp only [behind?, hinside]
  cases ls.dropWhile (!isRule ·) <;> rfl

/-- A line break in front of a text ends a first line without characters. -/
theorem splitBlock?_append_eq_behind? {lineBreak : List Char}
    (hbreak : lineBreak = ['\n'] ∨ lineBreak = ['\r', '\n']) (hs : brokenLines s = l :: ls)
    (ih : splitBlock? s = behind? l ls) :
    splitBlock? (lineBreak ++ s) = behind? ⟨[], lineBreak⟩ (l :: ls) := by
  have hdelimiter := takeDelimiter?_eq_ite hs
  cases hrule : isRule l with
  | true =>
    rw [hrule, if_pos rfl] at hdelimiter
    rw [splitBlock?_break_delimiter hbreak hdelimiter, behind?_of_isRule hrule]
  | false =>
    rw [hrule, if_neg Bool.false_ne_true] at hdelimiter
    rw [splitBlock?_break hbreak hdelimiter, behind?_of_not_isRule hrule, ih]
    rfl

/-- The first line always belongs to the block. -/
theorem splitBlock?_eq_behind? (h : brokenLines s = first :: ls) :
    splitBlock? s = behind? first ls := by
  fun_induction brokenLines s generalizing first ls with
  | case1 =>
    obtain ⟨rfl, rfl⟩ := List.cons.inj h
    rfl
  | case2 rest ih =>
    obtain ⟨rfl, rfl⟩ := List.cons.inj h
    obtain ⟨l, ms, hrest⟩ := exists_brokenLines_eq rest
    rw [hrest]
    exact splitBlock?_append_eq_behind? (.inr rfl) hrest (ih hrest)
  | case3 rest ih =>
    obtain ⟨rfl, rfl⟩ := List.cons.inj h
    obtain ⟨l, ms, hrest⟩ := exists_brokenLines_eq rest
    rw [hrest]
    exact splitBlock?_append_eq_behind? (.inl rfl) hrest (ih hrest)
  | case4 c rest hcrlf hfeed hrest ih =>
    obtain ⟨l, ms, hlines⟩ := exists_brokenLines_eq rest
    rw [hrest] at hlines
    cases hlines
  | case5 c rest hcrlf hfeed l ms hrest ih =>
    obtain ⟨rfl, rfl⟩ := List.cons.inj h
    rw [behind?_cons, ← ih hrest]
    exact splitBlock?_cons (closingAt?_eq_none hfeed (head?_ne_lineFeed hcrlf))

/-! ## Envelopes among lines -/

theorem ofLines?_of_isRule (crlf : Bool) (h : isRule first = true) :
    ofLines? crlf (first :: ls) = some ⟨[], first.lineBreak, joined ls, crlf⟩ := by
  simp [ofLines?, h, inside]

theorem ofLines?_of_not_isRule (crlf : Bool) (h : isRule first = false) :
    ofLines? crlf (first :: ls) =
      (behind? first ls).map fun (block, closing, body) => ⟨block, closing, body, crlf⟩ := by
  simp only [ofLines?, behind?, List.dropWhile_cons, List.takeWhile_cons, h, Bool.not_false,
    if_true]
  cases ls.dropWhile (!isRule ·) <;> rfl

/-- A first line with characters makes a block with characters. -/
theorem ne_nil_of_behind? {block after} (hcontent : first.content ≠ [])
    (h : behind? first ls = some (block, after)) : block ≠ [] := by
  unfold behind? at h
  split at h
  · cases h
  · next rule rest heq =>
    obtain ⟨rfl, -⟩ := Prod.mk.inj (Option.some.inj h)
    cases ls.takeWhile (!isRule ·) <;> simp [inside, hcontent]

/-- Behind an opening delimiter, front matter ends at the first line of three hyphens
exactly when this is not the next line. -/
theorem split?_eq_ofLines?_iff {text : List Char} {opening : BrokenLine}
    (h : brokenLines text = opening :: ls) (hopening : isRule opening = true)
    (hbreak : opening.lineBreak ≠ []) :
    split? text = ofLines? (hasCrlf text) ls ↔ ∀ next ∈ ls.head?, isRule next = false := by
  have hbehind := brokenLines_joined h hbreak
  have hsplit : split? text = (splitBlock? (joined ls)).map fun (block, closing, body) =>
      ⟨block, closing, body, hasCrlf text⟩ := by
    obtain ⟨c, lineBreak, heq⟩ := List.exists_cons_of_ne_nil hbreak
    rw [split?, takeDelimiter?_eq_ite h, if_pos hopening, heq]
  obtain ⟨next, others, rfl⟩ : ∃ next others, ls = next :: others :=
    hbehind ▸ exists_brokenLines_eq (joined ls)
  rw [hsplit, splitBlock?_eq_behind? hbehind]
  cases hnext : isRule next with
  | false => simp [ofLines?_of_not_isRule _ hnext, hnext]
  | true =>
    refine iff_of_false (fun heq => ?_) (by simp [hnext])
    -- The delimiter itself would be part of the block.
    rw [ofLines?_of_isRule _ hnext] at heq
    obtain ⟨⟨block, after⟩, hblock, hempty⟩ := Option.map_eq_some_iff.1 heq
    refine ne_nil_of_behind? ?_ hblock (Envelope.mk.inj hempty).1
    simp [eq_of_beq hnext]

/-- Line breaks of both kinds, and a line of three hyphens in the body. -/
theorem split?_eq_ofLines?_iff_body :
    let text := "---\r\nid: a\r\n---\nbody\n---\nmore".toList
    let ls : List BrokenLine := [⟨"id: a".toList, ['\r', '\n']⟩, ⟨"---".toList, ['\n']⟩,
      ⟨"body".toList, ['\n']⟩, ⟨"---".toList, ['\n']⟩, ⟨"more".toList, []⟩]
    brokenLines text = ⟨"---".toList, ['\r', '\n']⟩ :: ls ∧
      ofLines? true ls = some ⟨"id: a".toList, ['\n'], "body\n---\nmore".toList, true⟩ ∧
      (split? text = ofLines? (hasCrlf text) ls ↔ ∀ next ∈ ls.head?, isRule next = false) := by
  intro text ls
  have h : brokenLines text = ⟨"---".toList, ['\r', '\n']⟩ :: ls := by decide +kernel
  exact ⟨h, by decide +kernel, split?_eq_ofLines?_iff h (by decide +kernel) (by decide)⟩

/-- A delimiter right behind the opening one is passed over, and the body up to the
next line of three hyphens becomes the block. -/
theorem not_split?_eq_ofLines? :
    ¬ ∀ text opening ls, brokenLines text = opening :: ls → isRule opening = true →
      opening.lineBreak ≠ [] → split? text = ofLines? (hasCrlf text) ls := by
  intro h
  have hsplit := h "---\n---\na: 1\n---\nbody".toList ⟨['-', '-', '-'], ['\n']⟩
    (brokenLines "---\na: 1\n---\nbody".toList) (by decide +kernel) (by decide) (by decide)
  revert hsplit
  decide +kernel

end Envelope

end PromptDoc
