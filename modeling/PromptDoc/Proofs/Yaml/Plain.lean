import PromptDoc.Proofs.Yaml.Number
import PromptDoc.Proofs.Yaml.Quoted

/-!
# Plain scalars read back

`IsPlain s` says that the text can stand as a plain scalar on one line: what
`Quoted.plainSafe` asks for, leaving aside which value the text denotes. Null,
truth values and numbers are written in such text too. `plain?_append` takes
the text from the front of a line; where the scalar then ends is decided by
what follows it: the colon of a key (`plain?_colon`), the end of the text, or a
line that is indented too little to belong to it (`plain?_line`).
-/

namespace PromptDoc.Yaml

/-- Text that can stand as a plain scalar on one line. -/
structure IsPlain (s : List Char) : Prop where
  ne_nil : s ≠ []
  printable : ∀ c ∈ s, isPrintable c = true
  marker : Quoted.startsWithMarker s = false
  starts : Quoted.startsWithIndicator s = false
  inner : Quoted.hasInnerIndicator 'x' s = false
  head : s.head? ≠ some ' '
  last : s.getLast? ≠ some ' '

theorem isPlain_of_plainSafe {s : List Char} (hs : s.all isPrintable = true)
    (h : Quoted.plainSafe s = true) : IsPlain s := by
  simp only [Quoted.plainSafe, Bool.and_eq_true, Bool.not_eq_true', bne_iff_ne] at h
  obtain ⟨⟨⟨⟨⟨htext, hmarker⟩, hstarts⟩, hinner⟩, hhead⟩, hlast⟩ := h
  refine ⟨?_, List.all_eq_true.1 hs, hmarker, hstarts, hinner, hhead, hlast⟩
  rintro rfl
  exact absurd htext (by decide)

/-- Text without colons, number signs and spaces has no indicator in it. -/
theorem hasInnerIndicator_of_forall {s : List Char}
    (h : ∀ c ∈ s, c ≠ ':' ∧ c ≠ '#') (previous : Char) :
    Quoted.hasInnerIndicator previous s = false := by
  induction s generalizing previous with
  | nil => rfl
  | cons c s ih =>
      have hc := h c (by simp)
      rw [Quoted.hasInnerIndicator, ih (fun d hd => h d (by simp [hd]))]
      simp [hc.1, hc.2]

theorem isDecimalChar_ne {c : Char} (h : isDecimalChar c = true) :
    isPrintable c = true ∧ c ≠ ':' ∧ c ≠ '#' ∧ c ≠ ' ' := by
  refine ⟨?_, ?_, ?_, ?_⟩
  · simp only [isDecimalChar, Bool.or_eq_true, decide_eq_true_eq] at h
    rcases h with (((h | rfl) | rfl) | rfl) | rfl
    · have hc := Char.isDigit_iff_toNat.1 h
      have h₀ : '0'.toNat = 48 := rfl
      have h₉ : '9'.toNat = 57 := rfl
      simp only [isPrintable, Bool.or_eq_true, Bool.and_eq_true, decide_eq_true_eq]
      omega
    all_goals decide
  all_goals
    rintro rfl
    exact absurd h (by decide)

/-- Of the indicators only the hyphen is decimal, and a digit follows it. -/
theorem startsWithIndicator_of_startsNumeral {s : List Char}
    (hstart : Scalar.startsNumeral s = true) (hall : ∀ c ∈ s, isDecimalChar c = true) :
    Quoted.startsWithIndicator s = false := by
  cases s with
  | nil => rfl
  | cons c cs =>
      have hc := hall c (by simp)
      rw [Quoted.startsWithIndicator, Bool.or_eq_false_iff]
      constructor
      · apply Bool.eq_false_iff.2
        intro hopens
        simp only [Quoted.opensOther, List.mem_cons, List.not_mem_nil, or_false,
          decide_eq_true_eq] at hopens
        rcases hopens with rfl | rfl | rfl | rfl | rfl | rfl | rfl | rfl | rfl | rfl | rfl | rfl |
          rfl | rfl | rfl | rfl <;> exact absurd hc (by decide)
      · by_cases hdash : c = '-'
        · subst hdash
          cases cs with
          | nil => exact absurd hstart (by decide)
          | cons d ds =>
              have hd : d.isDigit = true := hstart
              obtain ⟨hprint, -, -, hspace⟩ := isDecimalChar_ne (isDecimalChar_of_isDigit hd)
              simp [isBlank_of_isPrintable hprint, isBreak_of_isPrintable hprint, hspace]
        · have hquestion : c ≠ '?' := by
            rintro rfl
            exact absurd hc (by decide)
          simp [hdash, hquestion, (isDecimalChar_ne hc).2.1]

/-- Decimal text that starts like a number can stand as a plain scalar. -/
theorem isPlain_of_startsNumeral {s : List Char} (hstart : Scalar.startsNumeral s = true)
    (hall : ∀ c ∈ s, isDecimalChar c = true) : IsPlain s := by
  have hne : s ≠ [] := by
    rintro rfl
    cases hstart
  have hlast : s.getLast? ≠ some ' ' := fun h =>
    (isDecimalChar_ne (hall ' ' (List.mem_of_getLast? h))).2.2.2 rfl
  have hhead : s.head? ≠ some ' ' := fun h =>
    (isDecimalChar_ne (hall ' ' (List.mem_of_head? h))).2.2.2 rfl
  have hinner : Quoted.hasInnerIndicator 'x' s = false :=
    hasInnerIndicator_of_forall (fun c hc => ⟨(isDecimalChar_ne (hall c hc)).2.1,
      (isDecimalChar_ne (hall c hc)).2.2.1⟩) 'x'
  have hmarker : Quoted.startsWithMarker s = false := by
    unfold Quoted.startsWithMarker
    split
    · exact absurd hstart (by simp [Scalar.startsNumeral])
    · exact absurd hstart (by simp [Scalar.startsNumeral])
    · rfl
  exact ⟨hne, fun c hc => (isDecimalChar_ne (hall c hc)).1, hmarker,
    startsWithIndicator_of_startsNumeral hstart hall, hinner, hhead, hlast⟩

theorem isDecimalChar_of_mem_intText {n : Int} {c : Char} (h : c ∈ Json.intText n) :
    isDecimalChar c = true := by
  have hdigit : c ∈ Nat.toDigits 10 n.natAbs → isDecimalChar c = true :=
    fun h => isDecimalChar_of_isDigit (Digits.isDigit_of_mem_toDigits h)
  unfold Json.intText at h
  split at h
  · rcases List.mem_cons.1 h with rfl | h
    · decide
    · exact hdigit h
  · exact hdigit h

theorem isDecimalChar_of_mem_text {x : Binary64} {c : Char} (h : c ∈ x.text) :
    isDecimalChar c = true := by
  obtain ⟨s, hs, d, ds, e, rfl, -, -, -, hall⟩ := x.exists_textWith true
  rw [Binary64.text, hs, Binary64.signText] at h
  rcases List.mem_append.1 h with h | h
  · split at h
    · rw [List.mem_singleton.1 h]
      decide
    · cases h
  · exact hall c h

theorem isPlain_intText (n : Int) : IsPlain (Json.intText n) :=
  isPlain_of_startsNumeral (Scalar.startsNumeral_intText n) fun _ => isDecimalChar_of_mem_intText

theorem isPlain_text (x : Binary64) : IsPlain x.text :=
  isPlain_of_startsNumeral (Scalar.startsNumeral_text x) fun _ => isDecimalChar_of_mem_text

theorem isPlain_null : IsPlain "null".toList := by
  refine ⟨?_, List.all_eq_true.1 ?_, ?_, ?_, ?_, ?_, ?_⟩ <;> decide

theorem isPlain_true : IsPlain "true".toList := by
  refine ⟨?_, List.all_eq_true.1 ?_, ?_, ?_, ?_, ?_, ?_⟩ <;> decide

theorem isPlain_false : IsPlain "false".toList := by
  refine ⟨?_, List.all_eq_true.1 ?_, ?_, ?_, ?_, ?_, ?_⟩ <;> decide

/-! ## Reading -/

namespace Token

theorem PlainResult.prepend_nil (r : PlainResult) : r.prepend [] = r := rfl

theorem PlainResult.prepend_prepend (cs ds : List Char) (r : PlainResult) :
    (r.prepend ds).prepend cs = r.prepend (cs ++ ds) := by
  simp only [prepend, ScalarResult.prepend_prepend]

/-- Reading one character that is no space. A colon goes on only before text,
and a number sign only behind text; inside a flow collection neither a colon nor
the collection's punctuation goes on. -/
theorem plain?_cons {flow : Bool} {indent : Nat} {c : Char} (hc : isPrintable c = true)
    (hspace : c ≠ ' ') (hflow : flow = true → c ≠ ':' ∧ isFlowPunctuation c = false)
    {seen cs : List Char} (hhash : seen ≠ [] → c ≠ '#') (hcolon : c = ':' → atGap cs = false)
    {p : Position} (hpos : seen ≠ [] → 0 < p.column ∧ indent ≤ p.column) :
    plain? flow indent (Gap.within seen) p (c :: cs) =
      (plain? flow indent .none (p.next c) cs).map (·.prepend (seen ++ [c])) := by
  have hstop : ¬ ((Gap.within seen != .none &&
      (!flow && decide (p.column < indent) || isMarkerAt p (c :: cs) ||
        decide (c = '#'))) = true) := by
    cases seen with
    | nil => simp [Gap.within]
    | cons b seen =>
        obtain ⟨hcolumn, hindent⟩ := hpos (by simp)
        rw [isMarkerAt_of_pos hcolumn]
        simp [hhash (by simp), hindent]
  have hclash : ¬ ((flow && decide (c = ':') && clashesWithColon cs) = true) := by
    cases flow with
    | false => simp
    | true => simp [(hflow rfl).1]
  have hend : ¬ ((decide (c = ':') && atGap cs || flow && isFlowPunctuation c) = true) := by
    have hpunctuation : (flow && isFlowPunctuation c) = false := by
      cases flow with
      | false => rfl
      | true => exact (hflow rfl).2
    by_cases h : c = ':'
    · simp [hcolon h, hpunctuation]
    · simp [h, hpunctuation]
  rw [plain?, isBlank_of_isPrintable hc, isBreak_of_isPrintable hc, if_neg (by simpa using hspace),
    if_neg Bool.false_ne_true, if_neg hstop, if_neg hclash, if_neg hend, Gap.text_within]

/-- Reading text without indicators to its last character. The character before
it decides whether a number sign may follow. -/
theorem plain?_append {flow : Bool} {indent : Nat} {s : List Char}
    (hs : ∀ c ∈ s, isPrintable c = true)
    (hflow : ∀ c ∈ s, flow = true → c ≠ ':' ∧ isFlowPunctuation c = false)
    (hlast : s.getLast? ≠ some ' ') (seen : List Char) (hne : seen ≠ [] → s ≠ [])
    {previous : Char} (hprev : isBlank previous = !seen.isEmpty)
    (hinner : Quoted.hasInnerIndicator previous s = false) {p : Position}
    (hp : indent ≤ p.column + 1) (hpos : seen ≠ [] → 0 < p.column ∧ indent ≤ p.column)
    (tail : List Char) :
    plain? flow indent (Gap.within seen) p (s ++ tail) =
      (plain? flow indent .none (p.after s) tail).map (·.prepend (seen ++ s)) := by
  induction s generalizing seen previous p with
  | nil =>
      have hseen : seen = [] := Decidable.byContradiction fun h => hne h rfl
      subst hseen
      simp [Gap.within, PlainResult.prepend_nil]
  | cons c s ih =>
      have hc := hs c (by simp)
      have hs' : ∀ d ∈ s, isPrintable d = true := fun d hd => hs d (by simp [hd])
      have hflow' : ∀ d ∈ s, flow = true → d ≠ ':' ∧ isFlowPunctuation d = false :=
        fun d hd => hflow d (by simp [hd])
      have hlast' : s.getLast? ≠ some ' ' := by
        intro h
        apply hlast
        rw [List.getLast?_cons, h]
        rfl
      rw [Quoted.hasInnerIndicator, Bool.or_eq_false_iff, Bool.or_eq_false_iff] at hinner
      obtain ⟨⟨hcolon, hhash⟩, hrest⟩ := hinner
      rw [List.cons_append]
      by_cases hspace : c = ' '
      · subst hspace
        have hs_ne : s ≠ [] := by
          rintro rfl
          exact hlast rfl
        rw [plain?, isBlank_of_isPrintable hc, isBreak_of_isPrintable hc, if_pos (by decide),
          Gap.hasBreak_within, if_neg (by simp), Gap.addBlank_within,
          ih hs' hflow' hlast' (seen ++ [' ']) (fun _ => hs_ne) (by simp) hrest (by simp; omega)
            (fun _ => ⟨Nat.succ_pos _, hp⟩)]
        simp
      · have hnumber : seen ≠ [] → c ≠ '#' := by
          rintro hseen rfl
          have hblank : isBlank previous = true := by simpa [hprev] using hseen
          simp [hblank] at hhash
        have hgap : c = ':' → atGap (s ++ tail) = false := by
          rintro rfl
          cases s with
          | nil => exact absurd hcolon (by decide)
          | cons d s => simpa using hcolon
        have hblank : isBlank c = false := by
          rw [isBlank_of_isPrintable hc]
          simpa using hspace
        have hmore := ih hs' hflow' hlast' [] (by simp) (by simpa using hblank) hrest
          (p := p.next c) (by simp; omega) (by simp)
        rw [plain?_cons hc hspace (hflow c (by simp)) hnumber hgap hpos]
        simp only [Gap.within] at hmore
        rw [hmore, Option.map_map]
        simp [Function.comp_def, PlainResult.prepend_prepend]

theorem plain?_isPlain {flow : Bool} {indent : Nat} {s : List Char} (hs : IsPlain s)
    (hflow : ∀ c ∈ s, flow = true → c ≠ ':' ∧ isFlowPunctuation c = false) {p : Position}
    (hp : indent ≤ p.column + 1) (tail : List Char) :
    plain? flow indent .none p (s ++ tail) =
      (plain? flow indent .none (p.after s) tail).map (·.prepend s) :=
  plain?_append hs.printable hflow hs.last [] (by simp) (by decide) hs.inner hp (by simp) tail

/-- In block context there is no punctuation to stop at. -/
theorem plain?_block {indent : Nat} {s : List Char} (hs : IsPlain s) {p : Position}
    (hp : indent ≤ p.column + 1) (tail : List Char) :
    plain? false indent .none p (s ++ tail) =
      (plain? false indent .none (p.after s) tail).map (·.prepend s) :=
  plain?_isPlain hs (fun _ _ h => absurd h Bool.false_ne_true) hp tail

theorem plain?_colon (indent : Nat) (p : Position) {rest : List Char} (h : atGap rest = true) :
    plain? false indent .none p (':' :: rest) = some ⟨⟨[], p, ':' :: rest⟩, .none⟩ := by
  rw [plain?, if_neg (by decide), if_neg (by decide), if_neg (by simp), if_neg (by simp),
    if_pos (by simp [h])]

end Token

end PromptDoc.Yaml
