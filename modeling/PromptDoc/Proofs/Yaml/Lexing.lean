import PromptDoc.Proofs.Yaml.Legible
import PromptDoc.Proofs.Yaml.Lexer
import PromptDoc.Proofs.Yaml.Multiline

/-!
# Written scalars, keys and dashes as tokens

What the lexer does with the parts that written text consists of: the dash
before an item, a key with its colon, a scalar behind either. Each lemma takes
the characters of one part from the front of the text and goes on in a settled
state. A scalar may stand at a place where a key could have started; that the
possibility is given up at the end of its line is what `run?_afterTokens` shows.
-/

namespace PromptDoc.Yaml.Token.Lexer

/-! ## Opening collections -/

/-- A token at a column opens a block collection there, or belongs to the one
that is open at this column: the tokens that come before it, and the columns of
the open collections afterwards. -/
inductive Opens (start : Token) : List Nat → Nat → List Token → List Nat → Prop
  | new {is : List Nat} {column : Nat} (h : parentOf is ≤ column) :
    Opens start is column [start] (column :: is)
  | same (is : List Nat) (column : Nat) : Opens start (column :: is) column [] (column :: is)

theorem Opens.parent_le {start : Token} {is js : List Nat} {column : Nat} {ts : List Token}
    (h : Opens start is column ts js) : parentOf is ≤ column + 1 := by
  cases h with
  | new h => exact Nat.le_succ_of_le h
  | same is => exact Nat.le_refl _

theorem Opens.parent_eq {start : Token} {is js : List Nat} {column : Nat} {ts : List Token}
    (h : Opens start is column ts js) : parentOf js = column + 1 := by
  cases h <;> rfl

theorem indent_settled {start : Token} {is js : List Nat} {column : Nat} {opened : List Token}
    (h : Opens start is column opened js) (allowed : Bool) (ts : List Token) {p : Position}
    (hp : p.column = column) :
    (settled is allowed ts p).indent start = settled js allowed (ts ++ opened) p := by
  subst hp
  have hflow : (settled is allowed ts p).inFlow = false := rfl
  have hpos : (settled is allowed ts p).position = p := rfl
  rw [indent, parent_settled, hflow, hpos, Bool.not_false, Bool.true_and]
  cases h with
  | new h =>
      rw [if_pos (by simpa using h)]
      simp [settled, push, Pending.push]
  | same is =>
      have hlt : ¬ parentOf (p.column :: is) ≤ p.column := Nat.not_succ_le_self _
      rw [decide_eq_false hlt, if_neg Bool.false_ne_true, List.append_nil]

/-- No marker between documents starts with another character. -/
theorem startsMarker_of_ne {c d : Char} (h : d ≠ c) (cs : List Char) :
    startsMarker c (d :: cs) = false := by
  unfold startsMarker
  split
  · next heq =>
    obtain ⟨rfl, -⟩ := List.cons.inj heq
    simp [h]
  · rfl

theorem startsMarker_cons_of_ne {c d : Char} {cs : List Char} (h : cs.head? ≠ some c) :
    startsMarker c (d :: cs) = false := by
  unfold startsMarker
  split
  · next b e rest heq =>
    obtain ⟨-, rfl⟩ := List.cons.inj heq
    have hb : b ≠ c := fun e => h (by rw [e]; rfl)
    simp [hb]
  · rfl

/-- The dash before an item. -/
theorem run?_dash {is js : List Nat} {column : Nat} {opened ts r : List Token}
    (h : Opens .blockSequenceStart is column opened js) {cs : List Char}
    (hrun : (settled js true (ts ++ opened ++ [.blockEntry]) ⟨column + 1, column + 1⟩).run?
      (' ' :: cs) = some r) :
    (settled is true ts ⟨column, column⟩).run? ('-' :: ' ' :: cs) = some r := by
  have hdash : startsMarker '-' ('-' :: ' ' :: cs) = false := startsMarker_cons_of_ne (by simp)
  have hdot : startsMarker '.' ('-' :: ' ' :: cs) = false := startsMarker_of_ne (by decide) _
  have htoken : (settled is true ts ⟨column, column⟩).token? '-' (' ' :: cs) =
      blockEntry? (settled is true ts ⟨column, column⟩) '-' (' ' :: cs) := by
    simp [token?, hdash, hdot]
  have hentry : blockEntry? (settled is true ts ⟨column, column⟩) '-' (' ' :: cs) =
      some (settled js true (ts ++ opened ++ [.blockEntry]) ⟨column + 1, column + 1⟩,
        ' ' :: cs) := by
    rw [ blockEntry?, indent_settled h true ts rfl]
    simp [settled, inFlow, settle?, Pending.settle?, push, Pending.push, skip, allowKey,
      Position.next]
    decide
  exact run?_token h.parent_le (by decide) (htoken.trans hentry) (Nat.le_refl _) hrun

/-- The indicator of an explicit key. -/
theorem run?_questionMark {is js : List Nat} {column : Nat} {opened ts r : List Token}
    (h : Opens .blockMappingStart is column opened js) {cs : List Char}
    (hrun : (settled js true (ts ++ opened ++ [.key]) ⟨column + 1, column + 1⟩).run?
      (' ' :: cs) = some r) :
    (settled is true ts ⟨column, column⟩).run? ('?' :: ' ' :: cs) = some r := by
  have hdash : startsMarker '-' ('?' :: ' ' :: cs) = false := startsMarker_of_ne (by decide) _
  have hdot : startsMarker '.' ('?' :: ' ' :: cs) = false := startsMarker_of_ne (by decide) _
  have htoken : (settled is true ts ⟨column, column⟩).token? '?' (' ' :: cs) =
      (settled is true ts ⟨column, column⟩).explicitKey? '?' (' ' :: cs) := by
    simp [token?, hdash, hdot]
  have hkey : (settled is true ts ⟨column, column⟩).explicitKey? '?' (' ' :: cs) =
      some (settled js true (ts ++ opened ++ [.key]) ⟨column + 1, column + 1⟩, ' ' :: cs) := by
    rw [explicitKey?, indent_settled h true ts rfl]
    simp [settled, inFlow, settle?, Pending.settle?, push, Pending.push, skip, allowKey,
      Position.next]
    decide
  exact run?_token h.parent_le (by decide) (htoken.trans hkey) (Nat.le_refl _) hrun

theorem token?_colon {s : Lexer} {cs : List Char} (hcs : atGap cs = true) :
    s.token? ':' cs = s.valueMark? ':' cs := by
  have hdash : startsMarker '-' (':' :: cs) = false := startsMarker_of_ne (by decide) _
  have hdot : startsMarker '.' (':' :: cs) = false := startsMarker_of_ne (by decide) _
  simp [token?, hdash, hdot, hcs]

/-- The colon after an explicit key, on a line of its own. -/
theorem run?_colonLine {is : List Nat} {column : Nat} {ts r : List Token} {cs : List Char}
    (hcs : atGap cs = true)
    (hrun : (settled (column :: is) true (ts ++ [.value]) ⟨column + 1, column + 1⟩).run? cs =
      some r) :
    (settled (column :: is) true ts ⟨column, column⟩).run? (':' :: cs) = some r := by
  have hvalue : (settled (column :: is) true ts ⟨column, column⟩).valueMark? ':' cs =
      some (settled (column :: is) true (ts ++ [.value]) ⟨column + 1, column + 1⟩, cs) := by
    have hsame : Opens .blockMappingStart (column :: is) column [] (column :: is) :=
      .same is column
    have hindent := indent_settled hsame true ts (p := ⟨column, column⟩) rfl
    simp only [valueMark?, settled, valueMark?.valueWithoutKey] at hindent ⊢
    rw [hindent]
    simp [inFlow, push, Pending.push, skip, allowKey, Position.next]
    decide
  exact run?_token (Nat.le_refl _) (by decide) ((token?_colon hcs).trans hvalue)
    (Nat.le_refl _) hrun

/-! ## Behind a scalar -/

/-- The state after the tokens of a scalar that started at `p`. If a key could
have started there, it still can have. -/
def afterTokens (is : List Nat) (marked : Bool) (ts new : List Token) (p : Position)
    (allowed : Bool) (q : Position) : Lexer :=
  ⟨is, allowed,
    if marked then ⟨ts.reverse, some ⟨p, parentOf is == p.column + 1⟩, new.reverse⟩
    else ⟨(ts ++ new).reverse, none, []⟩, [], q⟩

theorem markKey?_settled (is : List Nat) (allowed : Bool) (ts : List Token) (p : Position) :
    (settled is allowed ts p).markKey? = some (afterTokens is allowed ts [] p allowed p) := by
  cases allowed with
  | false => simp [markKey?, afterTokens, settled]
  | true => cases is <;> simp [markKey?, settle?, Pending.settle?, afterTokens, settled, inFlow,
      parent, parentOf]

theorem push_afterTokens (is : List Nat) (marked : Bool) (ts new : List Token) (p : Position)
    (allowed : Bool) (q : Position) (t : Token) :
    (afterTokens is marked ts new p allowed q).push t =
      afterTokens is marked ts (new ++ [t]) p allowed q := by
  cases marked <;> simp [afterTokens, push, Pending.push]

/-- At the end of the line the possible key is given up, unless a key has to
stand there. -/
theorem endLine?_afterTokens {is : List Nat} {marked : Bool} {p : Position}
    (hreq : marked = true → parentOf is ≠ p.column + 1) (ts new : List Token)
    (allowed : Bool) (q : Position) :
    (afterTokens is marked ts new p allowed q).endLine? =
      some (settled is allowed (ts ++ new) q) := by
  cases marked with
  | false => simp [afterTokens, endLine?, Pending.settle?, settled]
  | true =>
      have hne := hreq rfl
      simp [afterTokens, endLine?, Pending.settle?, Pending.all, settled, hne]

theorem finish?_afterTokens {is : List Nat} {marked : Bool} {p : Position}
    (hreq : marked = true → parentOf is ≠ p.column + 1) (ts new : List Token)
    (allowed : Bool) (q : Position) :
    (afterTokens is marked ts new p allowed q).finish? =
      (settled is allowed (ts ++ new) q).finish? := by
  cases marked with
  | false => simp [afterTokens, settled]
  | true =>
      have hne := hreq rfl
      simp [afterTokens, settled, finish?, unindent, inFlow, settle?, Pending.pushAll,
        Pending.settle?, Pending.all, hne]

/-- Behind a scalar on one line the lexer goes on as if no key had been
possible. -/
theorem run?_afterTokens {is : List Nat} {marked : Bool} {p : Position}
    (hreq : marked = true → parentOf is ≠ p.column + 1) {ts new r : List Token}
    {tail : List Char} (h : Resumes is (ts ++ new) tail r) (allowed : Bool) (q : Position) :
    (afterTokens is marked ts new p allowed q).run? tail = some r := by
  refine run?_of_step? ?_ (Nat.le_refl _) (h.run? allowed q)
  obtain ⟨_, _, hend, _⟩ := h
  rcases hend.eq_nil_or_cons with rfl | ⟨more, rfl⟩
  · rw [step?_settled]
    have hfinish := finish?_afterTokens hreq ts new allowed q
    exact congrArg (Option.map Sum.inl) hfinish
  · rw [step?_settled, step?,
      show (afterTokens is marked ts new p allowed q).inFlow = false from rfl,
      show (afterTokens is marked ts new p allowed q).keyAllowed = allowed from rfl,
      show (afterTokens is marked ts new p allowed q).position = q from rfl,
      skipGap_lineFeed, skipGap_newLine]
    simp only [if_true]
    generalize skipGap false true false false .lineStart more = gap
    have hline := endLine?_afterTokens hreq ts new gap.keyAllowed gap.position
    simp only [afterTokens] at hline ⊢
    rw [hline]
    cases gap.rest <;> rfl

/-! ## Scalars on one line -/

theorem consumed_append (cs rest : List Char) : consumed (cs ++ rest) rest = cs := by
  simp [consumed]

theorem any_isBreak_of_isPrintable {cs : List Char} (h : ∀ c ∈ cs, isPrintable c = true) :
    cs.any isBreak = false := by
  rw [List.any_eq_false]
  intro c hc
  rw [isBreak_of_isPrintable (h c hc)]
  exact Bool.false_ne_true

/-- A quoted scalar on one line. -/
theorem run?_quoted {is : List Nat} {allowed : Bool} {ts r : List Token} {p q : Position}
    (hp : parentOf is ≤ p.column + 1) {c : Char} (hc : c = '\'' ∨ c = '"')
    {inner rest s : List Char} (hinner : ∀ d ∈ inner, isPrintable d = true)
    (hread : (if c = '"' then doubleQuoted? (.text .none) (p.next c) (inner ++ rest)
      else singleQuoted? .none (p.next c) (inner ++ rest)) = some ⟨s, q, rest⟩)
    (hrun : (afterTokens is allowed ts [.scalar false s] p false q).run? rest = some r) :
    (settled is allowed ts p).run? (c :: (inner ++ rest)) = some r := by
  have hopens : opensToken c = true := by
    rcases hc with rfl | rfl <;> decide
  have htoken : (settled is allowed ts p).token? c (inner ++ rest) =
      (settled is allowed ts p).quotedScalar? c (inner ++ rest) := by
    rcases hc with rfl | rfl
    · simp [token?, startsMarker_of_ne (show '\'' ≠ '-' by decide),
        startsMarker_of_ne (show '\'' ≠ '.' by decide)]
    · simp [token?, startsMarker_of_ne (show '"' ≠ '-' by decide),
        startsMarker_of_ne (show '"' ≠ '.' by decide)]
  have hscalar : (settled is allowed ts p).quotedScalar? c (inner ++ rest) =
      some (afterTokens is allowed ts [.scalar false s] p false q, rest) := by
    simp only [quotedScalar?, markKey?_settled]
    rw [show (afterTokens is allowed ts [] p allowed p).position = p from rfl, hread]
    simp only [push_afterTokens, afterScalar?, consumed_append,
      any_isBreak_of_isPrintable hinner]
    rfl
  exact run?_token hp hopens (htoken.trans hscalar) (by simp) hrun

/-- A marker between documents does not begin with plain text, whatever follows
it on the line. -/
theorem startsMarker_of_isPlain {s : List Char} (hs : IsPlain s) {rest : List Char} {c : Char}
    (hhead : rest.head? ≠ some c) (hc : c = '-' ∨ c = '.') :
    startsMarker c (s ++ rest) = false := by
  have hmarker := hs.marker
  match s, hs.ne_nil with
  | [a], _ => exact startsMarker_cons_of_ne hhead
  | [a, b], _ =>
      unfold startsMarker
      split
      · next x y z more heq =>
        simp only [List.cons_append, List.nil_append, List.cons.injEq] at heq
        obtain ⟨-, -, rfl⟩ := heq
        have hz : z ≠ c := fun e => hhead (by rw [e]; rfl)
        simp [hz]
      · rfl
  | a :: b :: d :: more, _ =>
      apply Bool.eq_false_iff.2
      intro h
      simp only [List.cons_append, startsMarker, Bool.and_eq_true, decide_eq_true_eq] at h
      obtain ⟨⟨⟨rfl, rfl⟩, rfl⟩, -⟩ := h
      rcases hc with rfl | rfl <;> exact absurd hmarker (by simp [Quoted.startsWithMarker])

/-- A plain scalar that starts with a hyphen, a question mark or a colon goes on
behind it. -/
theorem atGap_of_isPlain {c : Char} {cs : List Char} (hs : IsPlain (c :: cs))
    (hc : c = '-' ∨ c = '?' ∨ c = ':') (rest : List Char) : atGap (cs ++ rest) = false := by
  have hstarts := hs.starts
  rw [Quoted.startsWithIndicator, Bool.or_eq_false_iff, Bool.and_eq_false_imp] at hstarts
  have hgap : atGap cs = false := hstarts.2 (by simpa [or_assoc] using hc)
  cases cs with
  | nil => cases hgap
  | cons d cs => simpa using hgap

theorem startsPlain_of_isPlain {c : Char} {cs : List Char} (hs : IsPlain (c :: cs))
    {flow : Bool} (hflow : flow = true → c ≠ '?' ∧ c ≠ ':') (rest : List Char)
    (hblank : isBlank c = false) (hbreak : isBreak c = false)
    (hopens : Quoted.opensOther c = false) : startsPlain flow c (cs ++ rest) = true := by
  rw [startsPlain, hblank, hbreak]
  by_cases hhyphen : c = '-'
  · have hgap := atGap_of_isPlain hs (.inl hhyphen) rest
    cases hx : cs ++ rest with
    | nil =>
        rw [hx] at hgap
        cases hgap
    | cons d more =>
        rw [hx, atGap_cons, Bool.or_eq_false_iff] at hgap
        simp [hhyphen, hgap.1]
  by_cases hquestion : c = '?'
  · have hgap := atGap_of_isPlain hs (.inr (.inl hquestion)) rest
    have hblock : flow = false := Bool.eq_false_iff.2 fun h => (hflow h).1 hquestion
    simp [hquestion, hgap, hblock]
  by_cases hcolon : c = ':'
  · have hgap := atGap_of_isPlain hs (.inr (.inr hcolon)) rest
    have hblock : flow = false := Bool.eq_false_iff.2 fun h => (hflow h).2 hcolon
    simp [hcolon, hgap, hblock]
  · simp only [Quoted.opensOther, List.mem_cons, List.not_mem_nil, or_false, not_or,
      decide_eq_false_iff_not] at hopens
    simp [isIndicator, *]

/-- Plain text is taken for a plain scalar. -/
theorem token?_plain {s : Lexer} {c : Char} {cs : List Char} (hs : IsPlain (c :: cs))
    (hflow : s.inFlow = true → c ≠ '?' ∧ c ≠ ':') (rest : List Char)
    (hrest : rest.head? ≠ some '-' ∧ rest.head? ≠ some '.') :
    opensToken c = true ∧ s.token? c (cs ++ rest) = s.plainScalar? (c :: cs ++ rest) := by
  have hdash := startsMarker_of_isPlain hs hrest.1 (.inl rfl)
  have hdot := startsMarker_of_isPlain hs hrest.2 (.inr rfl)
  rw [List.cons_append] at hdash hdot
  have hprint := hs.printable c (by simp)
  have hspace : c ≠ ' ' := by
    rintro rfl
    exact hs.head rfl
  have hblank : isBlank c = false := by
    rw [isBlank_of_isPrintable hprint]
    simpa using hspace
  have hbreak := isBreak_of_isPrintable hprint
  have hmark := ne_mark_of_isGraphic (isGraphic_of_isPrintable hprint)
  have hstarts := hs.starts
  rw [Quoted.startsWithIndicator, Bool.or_eq_false_iff] at hstarts
  have hplain := startsPlain_of_isPlain hs hflow rest hblank hbreak hstarts.1
  have hindicator : ∀ d, d = '-' ∨ d = '?' ∨ d = ':' →
      (decide (c = d) && atGap (cs ++ rest)) = false := by
    intro d hd
    by_cases hcd : c = d
    · subst hcd
      rw [atGap_of_isPlain hs hd rest, Bool.and_false]
    · simp [hcd]
  have hhyphen := hindicator '-' (by simp)
  have hquestion : (decide (c = '?') && (s.inFlow || atGap (cs ++ rest))) = false := by
    cases h : s.inFlow with
    | false => simpa using hindicator '?' (by simp)
    | true => simp [(hflow h).1]
  have hcolon : (decide (c = ':') && (s.inFlow || atGap (cs ++ rest))) = false := by
    cases h : s.inFlow with
    | false => simpa using hindicator ':' (by simp)
    | true => simp [(hflow h).2]
  obtain ⟨hopens, -⟩ := hstarts
  simp only [Quoted.opensOther, List.mem_cons, List.not_mem_nil, or_false, not_or,
    decide_eq_false_iff_not] at hopens
  obtain ⟨hnumber, hcomma, hopenSeq, hcloseSeq, hopenMap, hcloseMap, hanchor, halias, htag,
    hliteral, hfolded, hsingle, hdouble, hpercent, hat, hgrave⟩ := hopens
  refine ⟨opensToken_iff.2 ⟨hblank, hbreak, hnumber, hmark⟩, ?_⟩
  simp [token?, *]

/-- A plain scalar that the reader takes from the front of the text together
with the gap behind it. -/
theorem plainScalar?_settled {is : List Nat} (allowed : Bool) (ts : List Token)
    {p q : Position} {s between rest : List Char} {gap : Gap}
    (hread : plain? false (parentOf is) .none p (s ++ (between ++ rest)) =
      some ⟨⟨s, q, rest⟩, gap⟩) :
    (settled is allowed ts p).plainScalar? (s ++ (between ++ rest)) =
      if (s ++ between).any isBreak then
        (afterTokens is allowed ts [.scalar true s] p gap.hasBreak q).endLine?.map (·, rest)
      else some (afterTokens is allowed ts [.scalar true s] p gap.hasBreak q, rest) := by
  have hparent : (afterTokens is allowed ts [] p allowed p).parent = parentOf is := by
    cases is <;> rfl
  simp only [plainScalar?, markKey?_settled, hparent]
  rw [show (afterTokens is allowed ts [] p allowed p).position = p from rfl,
    show (afterTokens is allowed ts [] p allowed p).inFlow = false from rfl, hread]
  simp only [push_afterTokens, afterScalar?, ← List.append_assoc, consumed_append]
  rfl

/-- A plain scalar before a colon. -/
theorem run?_plain_colon {is : List Nat} {allowed : Bool} {ts r : List Token} {p : Position}
    (hp : parentOf is ≤ p.column + 1) {s : List Char} (hs : IsPlain s) {rest : List Char}
    (hrest : atGap rest = true)
    (hrun : (afterTokens is allowed ts [.scalar true s] p false (p.after s)).run? (':' :: rest) =
      some r) :
    (settled is allowed ts p).run? (s ++ ':' :: rest) = some r := by
  have hread : plain? false (parentOf is) .none p (s ++ ([] ++ ':' :: rest)) =
      some ⟨⟨s, p.after s, ':' :: rest⟩, .none⟩ := by
    rw [List.nil_append, plain?_block hs hp, plain?_colon _ _ hrest]
    simp [PlainResult.prepend, ScalarResult.prepend]
  have hscalar := plainScalar?_settled allowed ts hread
  rw [List.append_nil, any_isBreak_of_isPrintable hs.printable, if_neg Bool.false_ne_true,
    List.nil_append] at hscalar
  obtain ⟨c, cs, rfl⟩ := List.exists_cons_of_ne_nil hs.ne_nil
  obtain ⟨hopens, htoken⟩ := token?_plain (s := settled is allowed ts p) hs
    (fun hflow => absurd hflow Bool.false_ne_true) (':' :: rest) (by simp)
  exact run?_token hp hopens (htoken.trans hscalar) (by simp) hrun

/-- A plain scalar at the end of its line. -/
theorem run?_plain {is : List Nat} {allowed : Bool} {ts r : List Token} {p : Position}
    (hp : parentOf is ≤ p.column + 1) (hreq : allowed = true → parentOf is ≠ p.column + 1)
    {s : List Char} (hs : IsPlain s) {tail : List Char}
    (h : Resumes is (ts ++ [.scalar true s]) tail r) :
    (settled is allowed ts p).run? (s ++ tail) = some r := by
  have hafter := fun allowed' q => run?_afterTokens hreq h allowed' q
  obtain ⟨q, rest, hend, hrun⟩ := h
  obtain ⟨q', gap, hq', hbreak, hgap⟩ := plain?_lineEnd hend (p.after s)
  obtain ⟨between, hbetween, hany⟩ := hend.exists_between
  have hread : plain? false (parentOf is) .none p (s ++ (between ++ rest)) =
      some ⟨⟨s, q', rest⟩, gap⟩ := by
    rw [← hbetween, plain?_block hs hp, hgap]
    simp [PlainResult.prepend, ScalarResult.prepend]
  have hscalar := plainScalar?_settled allowed ts hread
  rw [List.any_append, any_isBreak_of_isPrintable hs.printable, Bool.false_or, hany,
    endLine?_afterTokens hreq, ← hbetween] at hscalar
  obtain ⟨c, cs, rfl⟩ := List.exists_cons_of_ne_nil hs.ne_nil
  obtain ⟨hopens, htoken⟩ := token?_plain (s := settled is allowed ts p) hs
    (fun hflow => absurd hflow Bool.false_ne_true) tail
    ⟨hend.head?_ne (by decide), hend.head?_ne (by decide)⟩
  have hlen : rest.length ≤ (cs ++ tail).length := by
    have := hend.length_le
    rw [List.length_append]
    omega
  rcases hend.eq_nil_or_cons with rfl | ⟨more, rfl⟩
  · obtain rfl := hend.eq_nil_of_nil
    exact run?_token hp hopens (htoken.trans hscalar) hlen (hafter gap.hasBreak q')
  · rw [hbreak] at hscalar
    exact run?_token hp hopens (htoken.trans hscalar) hlen (run?_lineEnd hend hq' hrun)

/-- Whether a string on one line is written without quotes. -/
def staysPlain (s : List Char) : Bool :=
  s.all isPrintable && Quoted.plainSafe s

theorem isPlain_of_staysPlain {s : List Char} (h : staysPlain s = true) :
    Quoted.text s = s ∧ IsPlain s := by
  rw [staysPlain, Bool.and_eq_true] at h
  refine ⟨?_, isPlain_of_plainSafe h.1 h.2⟩
  rw [Quoted.text, h.1, h.2]
  rfl

theorem run?_text_quoted {is : List Nat} {allowed : Bool} {ts r : List Token} {p : Position}
    (hp : parentOf is ≤ p.column + 1) {s : List Char} (hs : staysPlain s = false)
    {rest : List Char} (hrest : rest.head? ≠ some '\'')
    (hrun : (afterTokens is allowed ts [.scalar false s] p false
      (p.after (Quoted.text s))).run? rest = some r) :
    (settled is allowed ts p).run? (Quoted.text s ++ rest) = some r := by
  cases hall : s.all isPrintable with
  | false =>
      have htext : Quoted.text s = '"' :: (s.flatMap Quoted.escape ++ ['"']) := by
        rw [Quoted.text, hall]
        rfl
      have hread := doubleQuoted?_append s [] (p := p.next '"') (Nat.succ_pos _) rest
      rw [htext] at hrun ⊢
      rw [List.cons_append]
      refine run?_quoted hp (.inr rfl) ?_ ?_ hrun
      · intro d hd
        apply Quoted.isPrintable_of_mem_text (s := s)
        rw [htext]
        exact List.mem_cons_of_mem _ hd
      · rw [if_pos rfl, List.append_assoc, List.singleton_append]
        simpa [Gap.within, Position.after_append] using hread
  | true =>
      rw [staysPlain, hall, Bool.true_and] at hs
      have htext : Quoted.text s = '\'' :: (s.flatMap doubleQuote ++ ['\'']) := by
        rw [Quoted.text, hall, hs]
        rfl
      have hread := singleQuoted?_append (List.all_eq_true.1 hall) [] (p := p.next '\'')
        (Nat.succ_pos _) hrest
      rw [htext] at hrun ⊢
      rw [List.cons_append]
      refine run?_quoted hp (.inl rfl) ?_ ?_ hrun
      · intro d hd
        apply Quoted.isPrintable_of_mem_text (s := s)
        rw [htext]
        exact List.mem_cons_of_mem _ hd
      · rw [if_neg (by decide), List.append_assoc, List.singleton_append]
        simpa [Gap.within, Position.after_append] using hread

/-- A string on one line, at the end of its line. -/
theorem run?_text {is : List Nat} {allowed : Bool} {ts r : List Token} {p : Position}
    (hp : parentOf is ≤ p.column + 1) (hreq : allowed = true → parentOf is ≠ p.column + 1)
    {s tail : List Char} (h : Resumes is (ts ++ [.scalar (staysPlain s) s]) tail r) :
    (settled is allowed ts p).run? (Quoted.text s ++ tail) = some r := by
  cases hs : staysPlain s with
  | true =>
      rw [hs] at h
      obtain ⟨htext, hplain⟩ := isPlain_of_staysPlain hs
      rw [htext]
      exact run?_plain hp hreq hplain h
  | false =>
      rw [hs] at h
      have hafter := run?_afterTokens hreq h false (p.after (Quoted.text s))
      obtain ⟨_, _, hend, _⟩ := h
      exact run?_text_quoted hp hs (hend.head?_ne (by decide)) hafter

/-! ## Keys -/

/-- A token on the line of its key opens the mapping first. -/
theorem confirmKey_afterTokens {is js : List Nat} {column : Nat} {opened : List Token}
    (h : Opens .blockMappingStart is column opened js) (ts new : List Token) (q : Position) :
    (afterTokens is true ts new ⟨column, column⟩ false q).confirmKey
        ⟨⟨column, column⟩, parentOf is == column + 1⟩ =
      settled js false (ts ++ opened ++ .key :: new) q := by
  have hparent : (afterTokens is true ts new ⟨column, column⟩ false q).parent = parentOf is := by
    cases is <;> rfl
  rw [confirmKey, hparent]
  cases h with
  | new h => simp [h, afterTokens, settled, inFlow]
  | same is =>
      have hlt : ¬ parentOf (column :: is) ≤ column := Nat.not_succ_le_self _
      simp [hlt, afterTokens, settled]

theorem unindent_afterTokens {is js : List Nat} {column : Nat} {opened : List Token}
    (h : Opens .blockMappingStart is column opened js) (ts new : List Token) {q : Position}
    (hq : column ≤ q.column) :
    (afterTokens is true ts new ⟨column, column⟩ false q).unindent (fun n => q.column < n) =
      afterTokens is true ts new ⟨column, column⟩ false q := by
  cases h with
  | new h =>
      cases is with
      | nil => rfl
      | cons n is =>
          have hn : ¬ q.column < n := by
            simp only [parentOf] at h
            omega
          simp [unindent, afterTokens, Pending.pushAll, hn]
  | same is =>
      have hn : ¬ q.column < column := by omega
      simp [unindent, afterTokens, Pending.pushAll, hn]

/-- The colon after what turns out to be a key. -/
theorem run?_colon {is js : List Nat} {column : Nat} {opened ts new r : List Token}
    (h : Opens .blockMappingStart is column opened js) {q : Position}
    (hq : column ≤ q.column) (hbytes : q.bytes ≤ column + keyByteLimit) {rest : List Char}
    (hrest : atGap rest = true)
    (hrun : (settled js false (ts ++ opened ++ .key :: (new ++ [.value])) (q.next ':')).run? rest =
      some r) :
    (afterTokens is true ts new ⟨column, column⟩ false q).run? (':' :: rest) = some r := by
  have hstart : (afterTokens is true ts new ⟨column, column⟩ false q).pending.start =
      some ⟨⟨column, column⟩, parentOf is == column + 1⟩ := rfl
  have hvalue : (afterTokens is true ts new ⟨column, column⟩ false q).valueMark? ':' rest =
      some (settled js false (ts ++ opened ++ .key :: (new ++ [.value])) (q.next ':'), rest) := by
    rw [valueMark?, hstart]
    simp only [confirmKey_afterTokens h]
    rw [show (afterTokens is true ts new ⟨column, column⟩ false q).position = q from rfl,
      if_pos hbytes]
    simp [settled, push, Pending.push, skip, allowKey]
  exact run?_of_token? (unindent_afterTokens h ts new hq) (by decide)
    ((token?_colon hrest).trans hvalue) (Nat.le_refl _) hrun

/-- The tokens of an entry's key, up to the one that announces its value. -/
def keyTokens (k : String) : List Token :=
  [.key, .scalar (staysPlain k.toList) k.toList, .value]

/-- A key with its colon. Behind an explicit key another key could start, behind
an implicit one none. -/
theorem run?_key {is js : List Nat} {column : Nat} {opened ts r : List Token}
    (h : Opens .blockMappingStart is column opened js) {k : String} (hk : KeyFits k)
    {rest : List Char} (hrest : atGap rest = true)
    (hrun : ∀ allowed q, column < q.column →
      (settled js allowed (ts ++ opened ++ keyTokens k) q).run? rest = some r) :
    (settled is true ts ⟨column, column⟩).run? (Layout.key column k ++ rest) = some r := by
  unfold Layout.key
  simp only
  split
  · next hlong =>
    have hparent : parentOf js = column + 1 := h.parent_eq
    have hline : Resumes js (ts ++ opened ++ [.key] ++
        [.scalar (staysPlain k.toList) k.toList]) ('\n' :: (spaces column ++ ':' :: rest)) r := by
      refine ⟨⟨column, column⟩, ':' :: rest,
        .next (by rw [hparent]; exact Nat.lt_succ_self _) (by decide) rest, ?_⟩
      have hjs : ∃ ks, js = column :: ks := by
        cases h <;> exact ⟨_, rfl⟩
      obtain ⟨ks, rfl⟩ := hjs
      apply run?_colonLine hrest
      have := hrun true ⟨column + 1, column + 1⟩ (Nat.lt_succ_self _)
      simpa [keyTokens] using this
    simp only [List.cons_append, List.append_assoc, List.nil_append]
    refine run?_questionMark h (run?_space (run?_text ?_ ?_ hline))
    · rw [hparent]
      simp
    · intro _
      rw [hparent]
      simp
  · next hshort =>
    have hbytes : byteCount (Quoted.text k.toList) ≤ keyByteLimit :=
      hk.resolve_right hshort
    have hcolon : (afterTokens is true ts [.scalar (staysPlain k.toList) k.toList]
        ⟨column, column⟩ false (Position.after ⟨column, column⟩ (Quoted.text k.toList))).run?
        (':' :: rest) = some r := by
      refine run?_colon h ?_ ?_ hrest (hrun false _ ?_)
      · simp
      · rw [Position.bytes_after]
        exact Nat.add_le_add_left hbytes column
      · simp only [Position.column_next, Position.column_after]
        omega
    rw [List.append_assoc, List.singleton_append]
    cases hs : staysPlain k.toList with
    | true =>
        obtain ⟨htext, hplain⟩ := isPlain_of_staysPlain hs
        rw [hs, htext] at hcolon
        rw [htext]
        exact run?_plain_colon h.parent_le hplain hrest hcolon
    | false =>
        rw [hs] at hcolon
        exact run?_text_quoted h.parent_le hs (by simp) hcolon

/-! ## Blocks and empty collections -/

/-- A block scalar whose header and lines are read up to the end of a line. -/
theorem run?_block {is : List Nat} {allowed : Bool} {ts r : List Token} {p q' : Position}
    (hp : parentOf is ≤ p.column + 1) {c : Char} (hc : c = '|' ∨ c = '>')
    {text cs tail rest s : List Char} {q : Position} (htext : text ++ tail = c :: cs)
    (hne : text ≠ []) (hend : LineEnd (parentOf is) tail q rest) (hq : tail ≠ [] → q' = q)
    (hread : blockScalar? (c == '>') (parentOf is) cs = some ⟨s, q', rest⟩)
    (hrun : (settled is true (ts ++ [.scalar false s]) q).run? rest = some r) :
    (settled is allowed ts p).run? (text ++ tail) = some r := by
  have hopens : opensToken c = true := by
    rcases hc with rfl | rfl <;> decide
  have htoken : (settled is allowed ts p).token? c cs =
      (settled is allowed ts p).blockScalarAt? c cs := by
    have hflow : (settled is allowed ts p).inFlow = false := rfl
    rcases hc with rfl | rfl
    · simp [token?, startsMarker_of_ne (show '|' ≠ '-' by decide),
        startsMarker_of_ne (show '|' ≠ '.' by decide), hflow]
    · simp [token?, startsMarker_of_ne (show '>' ≠ '-' by decide),
        startsMarker_of_ne (show '>' ≠ '.' by decide), hflow]
  have hscalar : (settled is allowed ts p).blockScalarAt? c cs =
      some (settled is true (ts ++ [.scalar false s]) q', rest) := by
    have hsettle : (settled is allowed ts p).settle? = some (settled is allowed ts p) := rfl
    simp only [blockScalarAt?, hsettle, parent_settled, hread, Option.map_some]
    simp [settled, push, Pending.push, allowKey]
  have hlen : rest.length ≤ cs.length := by
    have hle := hend.length_le
    have hpos := List.length_pos_iff.2 hne
    have htotal := congrArg List.length htext
    simp only [List.length_append, List.length_cons] at htotal
    omega
  rw [htext]
  exact run?_token hp hopens (htoken.trans hscalar) hlen (run?_lineEnd hend hq hrun)

/-- The state behind the bracket that opens a flow collection. -/
def insideFlow (is : List Nat) (marked : Bool) (ts : List Token) (p : Position) (start : Token)
    (c : Char) : Lexer :=
  ⟨is, true, .empty, [(afterTokens is marked ts [start] p true p).pending], p.next c⟩

theorem openFlow?_settled (is : List Nat) (allowed : Bool) (ts : List Token) (p : Position)
    (start : Token) (c : Char) (rest : List Char) :
    (settled is allowed ts p).openFlow? start c rest =
      some (insideFlow is allowed ts p start c, rest) := by
  rw [openFlow?, markKey?_settled]
  simp only [Option.map_some, push_afterTokens]
  rfl

theorem closeFlow?_insideFlow (is : List Nat) (marked : Bool) (ts : List Token) (p : Position)
    (start stop : Token) (c d : Char) (rest : List Char) :
    (insideFlow is marked ts p start c).closeFlow? stop d rest =
      some (afterTokens is marked ts [start, stop] p false ((p.next c).next d), rest) := by
  have hsettle : (insideFlow is marked ts p start c).settle? =
      some (insideFlow is marked ts p start c) := rfl
  rw [closeFlow?, hsettle]
  cases marked <;>
    simp [insideFlow, afterTokens, Pending.pushAll, Pending.all, Pending.empty, push, Pending.push,
      skip, allowKey]

/-- A sequence or a mapping without entries. -/
theorem run?_empty {is : List Nat} {allowed : Bool} {ts r : List Token} {p : Position}
    (hp : parentOf is ≤ p.column + 1) (hreq : allowed = true → parentOf is ≠ p.column + 1)
    {c d : Char} {start stop : Token}
    (hkind : (c, d, start, stop) = ('[', ']', .flowSequenceStart, .flowSequenceEnd) ∨
      (c, d, start, stop) = ('\x7b', '\x7d', .flowMappingStart, .flowMappingEnd))
    {tail : List Char} (h : Resumes is (ts ++ [start, stop]) tail r) :
    (settled is allowed ts p).run? (c :: d :: tail) = some r := by
  have hafter := run?_afterTokens hreq h false ((p.next c).next d)
  have hopen : (settled is allowed ts p).token? c (d :: tail) =
      some (insideFlow is allowed ts p start c, d :: tail) := by
    rw [← openFlow?_settled]
    rcases hkind with hkind | hkind
    all_goals
      obtain ⟨rfl, rfl, rfl, rfl⟩ := by simpa using hkind
      simp [token?, startsMarker_of_ne]
  have hclose : (insideFlow is allowed ts p start c).token? d tail =
      some (afterTokens is allowed ts [start, stop] p false ((p.next c).next d), tail) := by
    rw [← closeFlow?_insideFlow is allowed ts p start stop c d tail]
    rcases hkind with hkind | hkind
    all_goals
      obtain ⟨rfl, rfl, rfl, rfl⟩ := by simpa using hkind
      simp [token?, startsMarker_of_ne]
  have hc : opensToken c = true ∧ opensToken d = true := by
    rcases hkind with hkind | hkind
    all_goals
      obtain ⟨rfl, rfl, rfl, rfl⟩ := by simpa using hkind
      decide
  have hflow : (insideFlow is allowed ts p start c).unindent
      (fun n => (p.next c).column < n) = insideFlow is allowed ts p start c := rfl
  exact run?_token hp hc.1 hopen (Nat.le_refl _)
    (run?_of_token? hflow hc.2 hclose (Nat.le_refl _) hafter)

end PromptDoc.Yaml.Token.Lexer
