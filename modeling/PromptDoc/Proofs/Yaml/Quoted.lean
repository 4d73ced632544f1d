import PromptDoc.Proofs.Yaml.Character
import PromptDoc.Yaml.Quoted
import PromptDoc.Yaml.Token.Plain

/-!
# Strings on one line read back

What `Quoted.text` writes is read as the string it was written for. Between
quotes that is one chunk lemma for each kind of quote: the reader takes the
written characters from the front of any text and goes on behind the closing
quote. A plain scalar has no closing mark, so `plain?_append` says that the
reader takes the whole of it and then decides by what follows.

Spaces within a line are held back by the readers until the next character
settles whether they belong to the scalar, so each chunk lemma is stated with
the spaces `seen` so far.
-/

namespace PromptDoc.Yaml

namespace Gap

/-- The gap of the blanks seen so far within a line. -/
def within : List Char → Gap
  | [] => .none
  | c :: cs => .blanks (c :: cs)

@[simp] theorem text_within (seen : List Char) : (within seen).text = seen := by
  cases seen <;> rfl

@[simp] theorem hasBreak_within (seen : List Char) : (within seen).hasBreak = false := by
  cases seen <;> rfl

theorem addBlank_within (c : Char) (seen : List Char) :
    (within seen).addBlank c = within (seen ++ [c]) := by
  cases seen <;> rfl

end Gap

namespace Token

theorem isMarkerAt_of_pos {p : Position} (h : 0 < p.column) (cs : List Char) :
    isMarkerAt p cs = false := by
  rw [isMarkerAt, beq_eq_false_iff_ne.2 (by omega), Bool.false_and]

/-! ## Single quotes -/

/-- A character between single quotes. -/
def doubleQuote (c : Char) : List Char :=
  if c = '\'' then ['\'', '\''] else [c]

theorem singleQuoted?_append {s : List Char} (hs : ∀ c ∈ s, isPrintable c = true)
    (seen : List Char) {p : Position} (hp : 0 < p.column) {rest : List Char}
    (hrest : rest.head? ≠ some '\'') :
    singleQuoted? (Gap.within seen) p (s.flatMap doubleQuote ++ '\'' :: rest) =
      some ⟨seen ++ s, (p.after (s.flatMap doubleQuote)).next '\'', rest⟩ := by
  induction s generalizing seen p with
  | nil =>
      rw [List.flatMap_nil, List.nil_append, singleQuoted?, if_neg (by decide), if_neg (by decide),
        isMarkerAt_of_pos hp, if_neg Bool.false_ne_true, if_pos rfl]
      · simp
      · intro cs heq
        exact absurd (congrArg List.head? heq) hrest
  | cons c s ih =>
      have hc := hs c (by simp)
      have hs' : ∀ d ∈ s, isPrintable d = true := fun d hd => hs d (by simp [hd])
      have hbreak := isBreak_of_isPrintable hc
      have hblank := isBlank_of_isPrintable hc
      by_cases hq : c = '\''
      · subst hq
        rw [List.flatMap_cons, doubleQuote, if_pos rfl, List.cons_append, List.cons_append,
          List.cons_append, List.cons_append, List.nil_append, singleQuoted?,
          if_neg (by decide), if_neg (by decide), isMarkerAt_of_pos hp,
          if_neg Bool.false_ne_true, if_pos rfl]
        have := ih hs' [] (p := (p.next '\'').next '\'') (Nat.succ_pos _)
        simp only [Gap.within] at this
        simp [this, ScalarResult.prepend]
      · rw [List.flatMap_cons, doubleQuote, if_neg hq, List.cons_append, List.nil_append,
          List.cons_append, singleQuoted?.eq_def]
        simp only
        rw [hbreak, if_neg Bool.false_ne_true]
        by_cases hsp : c = ' '
        · subst hsp
          rw [if_pos isBlank_space, Gap.addBlank_within, ih hs' (seen ++ [' ']) (Nat.succ_pos _)]
          simp
        · rw [hblank, if_neg (by simpa using hsp), isMarkerAt_of_pos hp,
            if_neg Bool.false_ne_true, if_neg hq]
          have := ih hs' [] (p := p.next c) (Nat.succ_pos _)
          simp only [Gap.within] at this
          simp [this, ScalarResult.prepend]

/-! ## Double quotes -/

/-- Within a line the reader does not look for markers, and a space is held back. -/
theorem doubleQuoted?_within {c : Char} (hbreak : isBreak c = false) (seen : List Char)
    {p : Position} (hp : 0 < p.column) (rest : List Char) :
    doubleQuoted? (.text (Gap.within seen)) p (c :: rest) =
      if isBlank c then doubleQuoted? (.text (Gap.within (seen ++ [c]))) (p.next c) rest
      else if c = '"' then some ⟨seen, p.next c, rest⟩
      else if c = '\\' then (doubleQuoted? .escape (p.next c) rest).map (·.prepend seen)
      else (doubleQuoted? (.text .none) (p.next c) rest).map (·.prepend (seen ++ [c])) := by
  rw [doubleQuoted?, hbreak, if_neg Bool.false_ne_true, isMarkerAt_of_pos hp,
    if_neg Bool.false_ne_true, Gap.addBlank_within, Gap.text_within]

theorem value?_hexDigit : ∀ d < 16, Digits.value? 16 (Quoted.hexDigit d) = some d := by decide

/-- Reading all but the last `k` digits of an escape. -/
theorem doubleQuoted?_hex (w k n acc : Nat) (p : Position) (rest : List Char) :
    doubleQuoted? (.code (w + (k + 1)) acc) p (Quoted.hex w n ++ rest) =
      doubleQuoted? (.code (k + 1) (acc * Nat.pow 16 w + n % Nat.pow 16 w))
        (p.after (Quoted.hex w n)) rest := by
  induction w generalizing n k p rest with
  | zero => simp [Quoted.hex, Nat.mod_one]
  | succ w ih =>
      have hd : n % 16 < 16 := Nat.mod_lt n (by decide)
      have hk : w + 1 + (k + 1) = w + (k + 1 + 1) := by omega
      have hpow : Nat.pow 16 (w + 1) = 16 * Nat.pow 16 w := Nat.mul_comm _ 16
      have hcode : (acc * Nat.pow 16 w + n / 16 % Nat.pow 16 w) * 16 + n % 16 =
          acc * Nat.pow 16 (w + 1) + n % Nat.pow 16 (w + 1) := by
        rw [hpow, Nat.mod_mul, Nat.add_mul, Nat.mul_left_comm]
        omega
      rw [Quoted.hex, List.append_assoc, List.singleton_append, hk, ih, doubleQuoted?,
        value?_hexDigit _ hd]
      simp only
      rw [if_neg (by omega), Position.after_append, hcode]
      rfl

/-- Reading the digits of a character's code. -/
theorem doubleQuoted?_code {w : Nat} {c : Char} (h : c.toNat < Nat.pow 16 (w + 1)) (p : Position)
    (rest : List Char) :
    doubleQuoted? (.code (w + 1) 0) p (Quoted.hex (w + 1) c.toNat ++ rest) =
      (doubleQuoted? (.text .none) (p.after (Quoted.hex (w + 1) c.toNat)) rest).map
        (·.prepend [c]) := by
  have hd : c.toNat % 16 < 16 := Nat.mod_lt _ (by decide)
  have hcode : c.toNat / 16 % Nat.pow 16 w * 16 + c.toNat % 16 = c.toNat := by
    have hlt : c.toNat / 16 < Nat.pow 16 w :=
      Nat.div_lt_of_lt_mul (Nat.lt_of_lt_of_eq h (Nat.mul_comm _ 16))
    rw [Nat.mod_eq_of_lt hlt]
    omega
  have hchar : charOfCode? c.toNat = some c := by
    rw [charOfCode?, if_pos (show c.toNat.isValidChar from c.valid), Char.ofNat_toNat]
  rw [Quoted.hex, List.append_assoc, List.singleton_append, doubleQuoted?_hex w 0, doubleQuoted?,
    value?_hexDigit _ hd, Nat.zero_mul, Position.after_append]
  simp only [Nat.zero_add, hcode, hchar, Nat.le_refl, if_true]
  rfl

theorem escaped?_of_namedEscape? {c l : Char} (h : Quoted.namedEscape? c = some l) :
    isBreak l = false ∧ codeWidth? l = none ∧ escaped? l = some c := by
  revert h
  fun_cases Quoted.namedEscape? c <;> intro h
  case case15 => cases h
  all_goals
    subst_vars
    obtain rfl := Option.some.inj h
    decide

theorem ne_of_namedEscape? {c : Char} (h : Quoted.namedEscape? c = none) :
    c ≠ '"' ∧ c ≠ '\\' := by
  constructor <;> rintro rfl <;> exact absurd h (by decide)

/-- A backslash gives the spaces before it and hands over to the reader of
escapes. -/
theorem doubleQuoted?_backslash (seen : List Char) {p : Position} (hp : 0 < p.column)
    (cs : List Char) :
    doubleQuoted? (.text (Gap.within seen)) p ('\\' :: cs) =
      (doubleQuoted? .escape (p.next '\\') cs).map (·.prepend seen) := by
  rw [doubleQuoted?_within (by decide) seen hp, if_neg (by decide), if_neg (by decide), if_pos rfl]

theorem doubleQuoted?_number {c l : Char} {w : Nat} (hbreak : isBreak l = false)
    (hwidth : codeWidth? l = some (w + 1)) (hlt : c.toNat < Nat.pow 16 (w + 1)) (seen : List Char)
    {p : Position} (hp : 0 < p.column) (rest : List Char) :
    doubleQuoted? (.text (Gap.within seen)) p
        ('\\' :: l :: (Quoted.hex (w + 1) c.toNat ++ rest)) =
      (doubleQuoted? (.text .none) (p.after ('\\' :: l :: Quoted.hex (w + 1) c.toNat)) rest).map
        (·.prepend (seen ++ [c])) := by
  rw [doubleQuoted?_backslash seen hp, doubleQuoted?, hbreak, if_neg Bool.false_ne_true, hwidth]
  simp only
  rw [doubleQuoted?_code hlt]
  simp [Option.map_map, Function.comp_def, ScalarResult.prepend_prepend]

/-- An escape by a letter of its own. -/
theorem doubleQuoted?_letter {c l : Char} (hbreak : isBreak l = false)
    (hwidth : codeWidth? l = none) (hescaped : escaped? l = some c) (seen : List Char)
    {p : Position} (hp : 0 < p.column) (rest : List Char) :
    doubleQuoted? (.text (Gap.within seen)) p ('\\' :: l :: rest) =
      (doubleQuoted? (.text .none) ((p.next '\\').next l) rest).map (·.prepend (seen ++ [c])) := by
  rw [doubleQuoted?_backslash seen hp, doubleQuoted?, hbreak, if_neg Bool.false_ne_true, hwidth]
  simp only
  rw [hescaped]
  simp [Option.map_map, Function.comp_def, ScalarResult.prepend_prepend]

/-- A character that stands for itself. -/
theorem doubleQuoted?_self {c : Char} (hprint : isPrintable c = true) (hspace : c ≠ ' ')
    (hquote : c ≠ '"') (hslash : c ≠ '\\') (seen : List Char) {p : Position} (hp : 0 < p.column)
    (rest : List Char) :
    doubleQuoted? (.text (Gap.within seen)) p (c :: rest) =
      (doubleQuoted? (.text .none) (p.next c) rest).map (·.prepend (seen ++ [c])) := by
  rw [doubleQuoted?_within (isBreak_of_isPrintable hprint) seen hp, isBlank_of_isPrintable hprint,
    if_neg (by simpa using hspace), if_neg hquote, if_neg hslash]

/-- Whether the reader takes what is written for a character for that character,
whatever spaces came before it. -/
def Unescapes (escape : Char → List Char) (c : Char) : Prop :=
  ∀ (seen : List Char) {p : Position}, 0 < p.column → ∀ rest : List Char,
    doubleQuoted? (.text (Gap.within seen)) p (escape c ++ rest) =
      (doubleQuoted? (.text .none) (p.after (escape c)) rest).map (·.prepend (seen ++ [c]))

/-- Text between double quotes is read as the string whose characters it was
written for. -/
theorem doubleQuoted?_flatMap {escape : Char → List Char} (hspace : escape ' ' = [' '])
    {s : List Char} (hs : ∀ c ∈ s, c ≠ ' ' → Unescapes escape c) (seen : List Char) {p : Position}
    (hp : 0 < p.column) (rest : List Char) :
    doubleQuoted? (.text (Gap.within seen)) p (s.flatMap escape ++ '"' :: rest) =
      some ⟨seen ++ s, (p.after (s.flatMap escape)).next '"', rest⟩ := by
  induction s generalizing seen p with
  | nil =>
      rw [List.flatMap_nil, List.nil_append, doubleQuoted?_within (by decide) seen hp,
        if_neg (by decide), if_pos rfl]
      simp
  | cons c s ih =>
      have hs' : ∀ d ∈ s, d ≠ ' ' → Unescapes escape d := fun d hd => hs d (by simp [hd])
      have hcol : 0 < (p.after (escape c)).column := by
        rw [Position.column_after]
        omega
      rw [List.flatMap_cons, List.append_assoc, Position.after_append]
      by_cases hsp : c = ' '
      · subst hsp
        rw [hspace, List.singleton_append, doubleQuoted?_within isBreak_space seen hp,
          if_pos isBlank_space, ih hs' _ (Nat.succ_pos _)]
        simp
      · rw [hs c (by simp) hsp seen hp]
        have := ih hs' [] hcol
        simp only [Gap.within] at this
        simp [this, ScalarResult.prepend]

theorem unescapes_escape {c : Char} (hsp : c ≠ ' ') : Unescapes Quoted.escape c := by
  intro seen p hp rest
  unfold Quoted.escape
  cases hn : Quoted.namedEscape? c with
  | some l =>
      obtain ⟨hbr, hw, he⟩ := escaped?_of_namedEscape? hn
      exact doubleQuoted?_letter hbr hw he seen hp rest
  | none =>
      simp only
      by_cases hpr : isPrintable c = true
      · obtain ⟨hquote, hslash⟩ := ne_of_namedEscape? hn
        rw [if_pos hpr, List.singleton_append, doubleQuoted?_self hpr hsp hquote hslash seen hp]
        rfl
      · have hmax : c.toNat < 0x110000 := by
          rcases c.valid with h | h
          · exact Nat.lt_trans h (by decide)
          · exact h.2
        rw [if_neg hpr]
        split
        · next hle =>
          have hlt : c.toNat < Nat.pow 16 2 := Nat.lt_of_le_of_lt hle (by decide)
          exact doubleQuoted?_number (by decide) (by decide) hlt seen hp rest
        split
        · next hle =>
          have hlt : c.toNat < Nat.pow 16 4 := Nat.lt_of_le_of_lt hle (by decide)
          exact doubleQuoted?_number (by decide) (by decide) hlt seen hp rest
        · have hlt : c.toNat < Nat.pow 16 8 := Nat.lt_trans hmax (by decide)
          exact doubleQuoted?_number (by decide) (by decide) hlt seen hp rest

theorem doubleQuoted?_append (s seen : List Char) {p : Position} (hp : 0 < p.column)
    (rest : List Char) :
    doubleQuoted? (.text (Gap.within seen)) p (s.flatMap Quoted.escape ++ '"' :: rest) =
      some ⟨seen ++ s, (p.after (s.flatMap Quoted.escape)).next '"', rest⟩ :=
  doubleQuoted?_flatMap (by decide) (fun _ _ hsp => unescapes_escape hsp) seen hp rest

end Token

/-! ## The characters of a string on one line -/

namespace Quoted

theorem isPrintable_hexDigit : ∀ d < 16, isPrintable (hexDigit d) = true := by decide

theorem isPrintable_of_mem_hex {w n : Nat} {c : Char} (h : c ∈ hex w n) :
    isPrintable c = true := by
  induction w generalizing n with
  | zero => cases h
  | succ w ih =>
      rcases List.mem_append.1 h with h | h
      · exact ih h
      · rw [List.mem_singleton.1 h]
        exact isPrintable_hexDigit _ (Nat.mod_lt n (by decide))

theorem isPrintable_of_namedEscape? {c l : Char} (h : namedEscape? c = some l) :
    isPrintable l = true := by
  revert h
  fun_cases namedEscape? c <;> intro h
  case case15 => cases h
  all_goals
    obtain rfl := Option.some.inj h
    decide

theorem isPrintable_of_mem_escape {c d : Char} (h : d ∈ escape c) : isPrintable d = true := by
  have hcode : ∀ l w, isPrintable l = true → d ∈ '\\' :: l :: hex w c.toNat →
      isPrintable d = true := by
    intro l w hl hd
    rcases List.mem_cons.1 hd with rfl | hd
    · decide
    rcases List.mem_cons.1 hd with rfl | hd
    · exact hl
    · exact isPrintable_of_mem_hex hd
  unfold escape at h
  cases hn : namedEscape? c with
  | some l =>
      rw [hn] at h
      simp only [List.mem_cons, List.not_mem_nil, or_false] at h
      rcases h with rfl | rfl
      · decide
      · exact isPrintable_of_namedEscape? hn
  | none =>
      rw [hn] at h
      by_cases hpr : isPrintable c = true
      · simp only [hpr, if_true] at h
        rw [List.mem_singleton.1 h]
        exact hpr
      · simp only [if_neg hpr] at h
        split at h
        · exact hcode 'x' 2 (by decide) h
        split at h
        · exact hcode 'u' 4 (by decide) h
        · exact hcode 'U' 8 (by decide) h

/-- A string on one line consists of printable characters. -/
theorem isPrintable_of_mem_text {s : List Char} {c : Char} (h : c ∈ text s) :
    isPrintable c = true := by
  have hquote : isPrintable '\'' = true := by decide
  have hdouble : isPrintable '"' = true := by decide
  unfold text at h
  split at h
  · simp only [double, List.mem_cons, List.mem_append, List.mem_flatMap, List.not_mem_nil,
      or_false] at h
    rcases h with rfl | ⟨d, -, hd⟩ | rfl
    · exact hdouble
    · exact isPrintable_of_mem_escape hd
    · exact hdouble
  · next hall =>
    have hall' : ∀ d ∈ s, isPrintable d = true := by simpa using hall
    split at h
    · exact hall' c h
    · simp only [single, List.mem_cons, List.mem_append, List.mem_flatMap, List.not_mem_nil,
        or_false] at h
      rcases h with rfl | ⟨d, hd, hc⟩ | rfl
      · exact hquote
      · split at hc
        · simp only [List.mem_cons, List.not_mem_nil, or_false, or_self] at hc
          rw [hc]
          exact hquote
        · rw [List.mem_singleton.1 hc]
          exact hall' d hd
      · exact hquote

end Quoted

end PromptDoc.Yaml
