import PromptDoc.Proofs.Yaml.LineEnd
import PromptDoc.Yaml.Token.Lexer

/-!
# The lexer between two tokens

Written text never has a possible key open between two lines, so the states
that matter are the `settled` ones: the columns of the open collections, whether
a key may start, the tokens so far and the position. The lemmas here say what
`run?` does from a settled state with the characters that separate tokens, and
how open collections are closed: closing the innermost one early makes no
difference when the next token starts to the left of it
(`run?_close`). `Resumes` puts this together for the characters after a scalar.
-/

namespace PromptDoc.Yaml.Token.Lexer

/-- The state without a possible key, outside all flow collections. -/
def settled (is : List Nat) (allowed : Bool) (ts : List Token) (p : Position) : Lexer :=
  ⟨is, allowed, ⟨ts.reverse, none, []⟩, [], p⟩

/-- The column of the innermost open collection plus one; zero outside all. -/
def parentOf : List Nat → Nat
  | [] => 0
  | n :: _ => n + 1

theorem parent_settled (is : List Nat) (allowed : Bool) (ts : List Token) (p : Position) :
    (settled is allowed ts p).parent = parentOf is := by
  cases is <;> rfl

/-! ## Gaps -/

/-- A step consumes characters or ends the text, so equal steps give equal
runs. -/
theorem run?_of_step? {s s' : Lexer} {cs cs' : List Char} {r : List Token}
    (hstep : s'.step? cs' = s.step? cs) (hlen : cs.length ≤ cs'.length)
    (h : s.run? cs = some r) : s'.run? cs' = some r := by
  rw [run?] at h ⊢
  rw [hstep]
  cases hs : s.step? cs with
  | none =>
      rw [hs] at h
      cases h
  | some result =>
      rw [hs] at h
      cases result with
      | inl tokens => exact h
      | inr next =>
          obtain ⟨s₁, rest⟩ := next
          simp only at h ⊢
          split at h
          · next hlt => rw [if_pos (by omega), h]
          · cases h

/-- The first character after a gap, or the end of the text. -/
def afterGap? (s : Lexer) : List Char → Option (List Token ⊕ Step)
  | [] => s.finish?.map .inl
  | c :: rest => ((s.unindent fun n => s.position.column < n).token? c rest).map .inr

theorem step?_settled (is : List Nat) (allowed : Bool) (ts : List Token) (p : Position)
    (cs : List Char) :
    (settled is allowed ts p).step? cs =
      (settled is (skipGap false allowed false false p cs).keyAllowed ts
        (skipGap false allowed false false p cs).position).afterGap?
        (skipGap false allowed false false p cs).rest := by
  simp only [step?, settled, inFlow, List.isEmpty_nil, Bool.not_true]
  generalize skipGap false allowed false false p cs = gap
  -- The end of a line changes nothing where no key is possible.
  have hline : (if gap.newLine = true then
      (settled is gap.keyAllowed ts gap.position).endLine?
      else some (settled is gap.keyAllowed ts gap.position)) =
      some (settled is gap.keyAllowed ts gap.position) := by
    split <;> rfl
  simp only [settled] at hline
  rw [hline]
  cases gap.rest <;> rfl

theorem skipGap_space (flow allowed newLine : Bool) (p : Position) (cs : List Char) :
    skipGap flow allowed newLine false p (' ' :: cs) =
      skipGap flow allowed newLine false (p.next ' ') cs := by
  rw [skipGap, if_neg (by decide), if_neg Bool.false_ne_true, if_pos (by simp)]

theorem skipGap_lineFeed (allowed newLine : Bool) (p : Position) (cs : List Char) :
    skipGap false allowed newLine false p ('\n' :: cs) =
      skipGap false true true false .lineStart cs := by
  rw [skipGap, if_pos isBreak_lineFeed, Bool.not_false, Bool.or_true]

theorem skipGap_token (flow allowed newLine : Bool) (p : Position) {c : Char}
    (hc : opensToken c = true) (cs : List Char) :
    skipGap flow allowed newLine false p (c :: cs) = ⟨allowed, newLine, p, c :: cs⟩ := by
  obtain ⟨-, hbreak, hnumber, hmark⟩ := opensToken_iff.1 hc
  obtain ⟨hspace, htab⟩ := ne_blank_of_opensToken hc
  rw [skipGap, hbreak, if_neg Bool.false_ne_true, if_neg Bool.false_ne_true,
    if_neg (by simp [hspace, htab, hmark]), if_neg hnumber]

/-- Whether a line has ended already does not show in what is skipped. -/
theorem skipGap_newLine (flow allowed comment : Bool) (p : Position) (cs : List Char) :
    skipGap flow allowed true comment p cs =
      { skipGap flow allowed false comment p cs with newLine := true } := by
  induction cs generalizing allowed comment p with
  | nil => rfl
  | cons c cs ih =>
      rw [skipGap, skipGap]
      split
      · rw [ih]
      split
      · exact ih _ _ _
      split
      · exact ih _ _ _
      split
      · exact ih _ _ _
      · rfl

theorem run?_space {is : List Nat} {allowed : Bool} {ts r : List Token} {p : Position}
    {cs : List Char} (h : (settled is allowed ts (p.next ' ')).run? cs = some r) :
    (settled is allowed ts p).run? (' ' :: cs) = some r := by
  refine run?_of_step? ?_ (Nat.le_succ _) h
  rw [step?_settled, step?_settled, skipGap_space]

theorem run?_spaces {is : List Nat} {allowed : Bool} {ts r : List Token} {p : Position}
    {n : Nat} {cs : List Char}
    (h : (settled is allowed ts (p.after (spaces n))).run? cs = some r) :
    (settled is allowed ts p).run? (spaces n ++ cs) = some r := by
  induction n generalizing p with
  | zero => exact h
  | succ n ih => exact run?_space (ih h)

/-- On a new line a key may start. -/
theorem run?_lineFeed {is : List Nat} {ts r : List Token} {cs : List Char}
    (h : (settled is true ts .lineStart).run? cs = some r) (allowed : Bool) (p : Position) :
    (settled is allowed ts p).run? ('\n' :: cs) = some r := by
  refine run?_of_step? ?_ (Nat.le_succ _) h
  rw [step?_settled, step?_settled, skipGap_lineFeed, skipGap_newLine]

/-- A line that is indented by `n` columns. -/
theorem run?_line {is : List Nat} {ts r : List Token} {n : Nat} {cs : List Char}
    (h : (settled is true ts ⟨n, n⟩).run? cs = some r) (allowed : Bool) (p : Position) :
    (settled is allowed ts p).run? ('\n' :: (spaces n ++ cs)) = some r := by
  refine run?_lineFeed (run?_spaces ?_) allowed p
  rw [Position.lineStart_after_spaces]
  exact h

/-! ## Tokens -/

theorem unindent_settled (is : List Nat) (allowed : Bool) (ts : List Token) (p : Position)
    (closes : Nat → Bool) :
    (settled is allowed ts p).unindent closes =
      settled (is.dropWhile closes) allowed
        (ts ++ (is.takeWhile closes).map fun _ => .blockEnd) p := by
  simp [unindent, inFlow, settled, Pending.pushAll, List.map_const']

/-- Nothing is closed by a token that starts at the column of the innermost
collection or to the right of it. -/
theorem unindent_of_parent_le {is : List Nat} {p : Position} (h : parentOf is ≤ p.column + 1)
    (allowed : Bool) (ts : List Token) :
    (settled is allowed ts p).unindent (fun n => p.column < n) = settled is allowed ts p := by
  rw [unindent_settled]
  cases is with
  | nil => simp
  | cons n is =>
      have hn : ¬ p.column < n := by
        simp only [parentOf] at h
        omega
      simp [hn]

/-- A token where nothing has to be skipped and no collection is closed. -/
theorem run?_of_token? {s s' : Lexer} {r : List Token}
    (hs : s.unindent (fun n => s.position.column < n) = s) {c : Char}
    (hc : opensToken c = true) {cs rest : List Char} (htoken : s.token? c cs = some (s', rest))
    (hlen : rest.length ≤ cs.length) (h : s'.run? rest = some r) : s.run? (c :: cs) = some r := by
  have hstep : s.step? (c :: cs) = some (.inr (s', rest)) := by
    rw [step?, skipGap_token _ _ _ _ hc]
    simp only [Bool.false_eq_true, if_false]
    rw [hs, htoken]
    rfl
  rw [run?, hstep]
  simp only [List.length_cons]
  rw [if_pos (by omega), h]

theorem run?_token {is : List Nat} {allowed : Bool} {ts r : List Token} {p : Position}
    (hp : parentOf is ≤ p.column + 1) {c : Char} (hc : opensToken c = true)
    {cs rest : List Char} {s : Lexer}
    (htoken : (settled is allowed ts p).token? c cs = some (s, rest))
    (hlen : rest.length ≤ cs.length) (h : s.run? rest = some r) :
    (settled is allowed ts p).run? (c :: cs) = some r :=
  run?_of_token? (unindent_of_parent_le hp allowed ts) hc htoken hlen h

/-! ## The end of the text -/

theorem finish?_settled (is : List Nat) (allowed : Bool) (ts : List Token) (p : Position) :
    (settled is allowed ts p).finish? = some (ts ++ is.map fun _ => .blockEnd) := by
  have htake : is.takeWhile (fun _ => true) = is := by
    induction is with
    | nil => rfl
    | cons n is ih => rw [List.takeWhile_cons_of_pos rfl, ih]
  rw [finish?, unindent_settled, htake]
  simp [settled, settle?, Pending.settle?, Pending.all]

/-- All tokens of a text that ends in a settled state: every open collection is
closed. -/
theorem run?_nil (is : List Nat) (allowed : Bool) (ts : List Token) (p : Position) :
    (settled is allowed ts p).run? [] = some (ts ++ is.map fun _ => .blockEnd) := by
  rw [run?, step?_settled]
  simp only [skipGap, afterGap?, finish?_settled, Option.map_some]

/-! ## Closing collections -/

/-- A token to the left of a collection closes it, now or before. -/
theorem run?_close {is : List Nat} {ts r : List Token} {n : Nat} {p : Position} {c : Char}
    (hp : p.column < n) (hc : opensToken c = true) {cs : List Char}
    (h : (settled is true (ts ++ [.blockEnd]) p).run? (c :: cs) = some r) :
    (settled (n :: is) true ts p).run? (c :: cs) = some r := by
  refine run?_of_step? ?_ (Nat.le_refl _) h
  have hclose : (settled (n :: is) true ts p).unindent (fun n => p.column < n) =
      (settled is true (ts ++ [.blockEnd]) p).unindent fun n => p.column < n := by
    rw [unindent_settled, unindent_settled]
    simp [hp]
  rw [step?_settled, step?_settled, skipGap_token _ _ _ _ hc]
  simp only [afterGap?]
  rw [show (settled (n :: is) true ts p).position = p from rfl,
    show (settled is true (ts ++ [.blockEnd]) p).position = p from rfl, hclose]

/-- What a run gives behind a scalar: the characters up to the next token are
`tail`, and a new line is open when they end. -/
def Resumes (is : List Nat) (ts : List Token) (tail : List Char) (r : List Token) : Prop :=
  ∃ q rest, LineEnd (parentOf is) tail q rest ∧ (settled is true ts q).run? rest = some r

/-- A scalar at the end of the text may leave the position anywhere. -/
theorem run?_lineEnd {is : List Nat} {ts r : List Token} {tail rest : List Char}
    {q q' : Position} (hend : LineEnd (parentOf is) tail q rest) (hq : tail ≠ [] → q' = q)
    (h : (settled is true ts q).run? rest = some r) :
    (settled is true ts q').run? rest = some r := by
  cases hend with
  | stop q =>
      rw [run?_nil] at h ⊢
      exact h
  | last => rwa [hq (by simp)]
  | next hm hc rest => rwa [hq (by simp)]

theorem Resumes.run? {is : List Nat} {ts r : List Token} {tail : List Char}
    (h : Resumes is ts tail r) (allowed : Bool) (p : Position) :
    (settled is allowed ts p).run? tail = some r := by
  obtain ⟨q, rest, hend, hrun⟩ := h
  cases hend with
  | stop q =>
      rw [run?_nil] at hrun ⊢
      exact hrun
  | last => exact run?_lineFeed hrun allowed p
  | next hm hc rest => exact run?_line hrun allowed p

/-- The innermost collection ends with its last entry. -/
theorem Resumes.close {is : List Nat} {ts r : List Token} {tail : List Char} {n : Nat}
    (hn : parentOf is ≤ n) (h : Resumes is (ts ++ [.blockEnd]) tail r) :
    Resumes (n :: is) ts tail r := by
  obtain ⟨q, rest, hend, hrun⟩ := h
  refine ⟨q, rest, hend.mono (Nat.le_succ_of_le hn), ?_⟩
  cases hend with
  | stop q =>
      rw [run?_nil] at hrun ⊢
      simpa using hrun
  | last =>
      rw [run?_nil] at hrun ⊢
      simpa using hrun
  | next hm hc rest => exact run?_close (Nat.lt_of_lt_of_le hm hn) hc hrun

end PromptDoc.Yaml.Token.Lexer
