import PromptDoc.Proofs.Yaml.Plain

/-!
# Where a written scalar ends

A written scalar is followed by the end of the text, by a line feed at the end
of the text, or by a line feed and a line that is indented less than the
scalar would have to be. `LineEnd` says which, and where the reader stands when
it has seen that the scalar is over.
-/

namespace PromptDoc.Yaml

theorem spaces_succ (n : Nat) : spaces (n + 1) = ' ' :: spaces n := rfl

theorem Position.after_spaces (p : Position) (n : Nat) :
    p.after (spaces n) = ⟨p.column + n, p.bytes + n⟩ := by
  induction n generalizing p with
  | zero => rfl
  | succ n ih =>
      have hone : ' '.utf8Size = 1 := by decide
      rw [spaces_succ, Position.after_cons, ih]
      simp only [Position.next, hone, Nat.add_assoc, Nat.add_comm 1]

theorem Position.lineStart_after_spaces (n : Nat) :
    Position.lineStart.after (spaces n) = ⟨n, n⟩ := by
  rw [Position.after_spaces]
  simp [lineStart]

namespace Token

/-- Characters that a token may start with. -/
def opensToken (c : Char) : Bool :=
  !(isBlank c || isBreak c || c = '#' || c = byteOrderMark)

theorem opensToken_iff {c : Char} : opensToken c = true ↔
    isBlank c = false ∧ isBreak c = false ∧ c ≠ '#' ∧ c ≠ byteOrderMark := by
  simp [opensToken, and_assoc]

theorem ne_blank_of_opensToken {c : Char} (h : opensToken c = true) : c ≠ ' ' ∧ c ≠ '\t' := by
  constructor <;> rintro rfl <;> exact absurd h (by decide)

/-- What follows a scalar below the indentation `parent`: the characters after
it, and the position and the characters where the next token starts. -/
inductive LineEnd (parent : Nat) : List Char → Position → List Char → Prop
  /-- The text ends with the scalar, wherever that is. -/
  | stop (p : Position) : LineEnd parent [] p []
  /-- The text ends with the scalar's line. -/
  | last : LineEnd parent ['\n'] .lineStart []
  /-- The next line starts to the left of the scalar. -/
  | next {m : Nat} {c : Char} (hm : m < parent) (hc : opensToken c = true) (rest : List Char) :
    LineEnd parent ('\n' :: (spaces m ++ c :: rest)) ⟨m, m⟩ (c :: rest)

theorem LineEnd.mono {m n : Nat} (hmn : m ≤ n) {tail rest : List Char} {p : Position}
    (h : LineEnd m tail p rest) : LineEnd n tail p rest := by
  cases h with
  | stop p => exact .stop p
  | last => exact .last
  | next hm hc rest => exact .next (Nat.lt_of_lt_of_le hm hmn) hc rest

theorem LineEnd.head?_ne {parent : Nat} {tail rest : List Char} {p : Position}
    (h : LineEnd parent tail p rest) {c : Char} (hc : c ≠ '\n') : tail.head? ≠ some c := by
  cases h <;> simp [Ne.symm hc]

theorem LineEnd.eq_nil_or_cons {parent : Nat} {tail rest : List Char} {q : Position}
    (h : LineEnd parent tail q rest) : tail = [] ∨ ∃ more, tail = '\n' :: more := by
  cases h with
  | stop p => exact .inl rfl
  | last => exact .inr ⟨[], rfl⟩
  | next hm hc rest => exact .inr ⟨_, rfl⟩

theorem LineEnd.eq_nil_of_nil {parent : Nat} {rest : List Char} {q : Position}
    (h : LineEnd parent [] q rest) : rest = [] := by
  cases h
  rfl

/-- What is skipped at the end of a line has a line break in it. -/
theorem LineEnd.exists_between {parent : Nat} {tail rest : List Char} {p : Position}
    (h : LineEnd parent tail p rest) :
    ∃ between, tail = between ++ rest ∧ between.any isBreak = !tail.isEmpty := by
  cases h with
  | stop p => exact ⟨[], rfl, rfl⟩
  | last => exact ⟨['\n'], rfl, rfl⟩
  | @next m c hm hc rest => exact ⟨'\n' :: spaces m, rfl, rfl⟩

theorem LineEnd.length_le {parent : Nat} {tail rest : List Char} {p : Position}
    (h : LineEnd parent tail p rest) : rest.length ≤ tail.length := by
  cases h with
  | stop p => exact Nat.le_refl 0
  | last => exact Nat.zero_le 1
  | next hm hc rest =>
      simp only [List.length_cons, List.length_append]
      omega

theorem plain?_spaces (indent n : Nat) (first more : List Char) (p : Position)
    (rest : List Char) :
    plain? false indent (.breaks first more) p (spaces n ++ rest) =
      plain? false indent (.breaks first more) (p.after (spaces n)) rest := by
  induction n generalizing p with
  | zero => rfl
  | succ n ih =>
      rw [spaces_succ, List.cons_append, plain?, if_pos isBlank_space, if_neg (by simp)]
      exact ih _

/-- A plain scalar ends with its line. -/
theorem plain?_lineEnd {parent : Nat} {tail rest : List Char} {q : Position}
    (h : LineEnd parent tail q rest) (p : Position) :
    ∃ q' gap, (tail ≠ [] → q' = q) ∧ gap.hasBreak = !tail.isEmpty ∧
      plain? false parent .none p tail = some ⟨⟨[], q', rest⟩, gap⟩ := by
  cases h with
  | stop q => exact ⟨p, .none, fun h => absurd rfl h, rfl, rfl⟩
  | last => exact ⟨.lineStart, .breaks ['\n'] [], fun _ => rfl, rfl, rfl⟩
  | @next m c hm hc rest =>
      obtain ⟨hblank, hbreak, -, -⟩ := opensToken_iff.1 hc
      refine ⟨⟨m, m⟩, .breaks ['\n'] [], fun _ => rfl, rfl, ?_⟩
      rw [plain?, if_neg (by decide), if_pos isBreak_lineFeed,
        show Gap.none.addBreak '\n' = .breaks ['\n'] [] from rfl, plain?_spaces,
        Position.lineStart_after_spaces, plain?, hblank, if_neg Bool.false_ne_true, hbreak,
        if_neg Bool.false_ne_true, if_pos (by simp [hm])]

end Token

end PromptDoc.Yaml
