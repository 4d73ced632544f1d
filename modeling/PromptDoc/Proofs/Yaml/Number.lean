import PromptDoc.Yaml.Scalar

/-!
# Written numbers read back

The decimal text of an integer is read as that integer by `Scalar.ofPlain?`,
and the text of a double as that double once `Binary64.read?` gives it back.
What keeps a number apart from every other plain scalar is its first digit
(`StartsNumeral`); what keeps a double apart from an integer is the point or
the exponent mark in its text.
-/

namespace PromptDoc

namespace Digits

theorem value?_of_isDigit {c : Char} (h : c.isDigit = true) :
    value? 10 c = some (c.toNat - '0'.toNat) := by
  have hc := Char.isDigit_iff_toNat.1 h
  have hle : '0' ≤ c ∧ c ≤ '9' := hc
  simp only [value?, if_pos hle]
  have hlt : c.toNat - '0'.toNat < 10 := by
    have h₀ : '0'.toNat = 48 := rfl
    have h₉ : '9'.toNat = 57 := rfl
    omega
  rw [if_pos hlt]

theorem value?_of_not_isDigit {c : Char} (h : c.isDigit = false) : value? 10 c = none := by
  have hle : ¬ ('0' ≤ c ∧ c ≤ '9') := by
    intro hc
    have hd : c.isDigit = true := Char.isDigit_iff_toNat.2 hc
    exact absurd hd (by simp [h])
  simp only [value?, if_neg hle]
  split
  · rw [if_neg (by omega)]
  split
  · rw [if_neg (by omega)]
  · rw [if_neg (by omega)]

theorem readFrom?_of_digits {cs : List Char} (h : ∀ c ∈ cs, c.isDigit = true) (n : Nat) :
    readFrom? 10 n cs = some (Nat.ofDigitChars 10 cs n) := by
  induction cs generalizing n with
  | nil => rfl
  | cons c cs ih =>
      rw [readFrom?, value?_of_isDigit (h c (by simp)), Nat.ofDigitChars_cons, Nat.mul_comm 10 n]
      exact ih (fun d hd => h d (by simp [hd])) _

theorem readFrom?_of_mem {cs : List Char} {c : Char} (hc : c ∈ cs) (h : c.isDigit = false)
    (n : Nat) : readFrom? 10 n cs = none := by
  induction cs generalizing n with
  | nil => cases hc
  | cons d cs ih =>
      rw [readFrom?]
      rcases List.mem_cons.1 hc with rfl | hc
      · rw [value?_of_not_isDigit h]
      · cases value? 10 d with
        | none => rfl
        | some v => exact ih hc _

theorem isDigit_of_mem_toDigits {n : Nat} {c : Char} (h : c ∈ Nat.toDigits 10 n) :
    c.isDigit = true :=
  Nat.isDigit_of_mem_toDigits (by decide) (by decide) h

/-- Decimal digits are read as the number that they were written for. -/
theorem read?_toDigits (n : Nat) : read? 10 (Nat.toDigits 10 n) = some n := by
  have h := readFrom?_of_digits (fun c => isDigit_of_mem_toDigits (n := n) (c := c)) 0
  rw [Nat.ofDigitChars_ten_toDigits] at h
  cases hd : Nat.toDigits 10 n with
  | nil => exact absurd hd (by simp)
  | cons d ds =>
      rw [hd] at h
      exact h

/-- A positive number is written without zeros in front. -/
theorem head_toDigits_ne {n : Nat} (h : 0 < n) : (Nat.toDigits 10 n).head? ≠ some '0' := by
  induction n using Nat.strongRecOn with
  | _ n ih =>
      rw [Nat.toDigits_eq_if (by decide)]
      by_cases hn : n < 10
      · rw [if_pos hn, List.head?_cons]
        intro e
        have hz := congrArg (fun c => c.toNat - 48) (Option.some.inj e)
        simp only [Nat.toNat_digitChar_sub_48_of_lt_ten hn] at hz
        exact absurd hz (by simp; omega)
      · have hlt := ih (n / 10) (by omega) (by omega)
        rw [if_neg hn, List.head?_append]
        cases hd : (Nat.toDigits 10 (n / 10)).head? with
        | none => exact absurd (List.head?_eq_none_iff.1 hd) (by simp)
        | some c =>
            rw [hd] at hlt
            simpa using hlt

end Digits

namespace Yaml.Scalar

/-- Whether the text starts with a digit, a hyphen in front of it or not. -/
def startsNumeral : List Char → Bool
  | '-' :: c :: _ => c.isDigit
  | c :: _ => c.isDigit
  | [] => false

theorem startsNumeral_of_isDigit {c : Char} (cs : List Char) (h : c.isDigit = true) :
    startsNumeral (c :: cs) = true := by
  unfold startsNumeral
  split
  · next heq =>
    obtain ⟨rfl, -⟩ := List.cons.inj heq
    exact absurd h (by decide)
  · next heq =>
    obtain ⟨rfl, -⟩ := List.cons.inj heq
    exact h
  · next heq => cases heq

theorem startsNumeral_neg {c : Char} (cs : List Char) (h : c.isDigit = true) :
    startsNumeral ('-' :: c :: cs) = true := h

theorem isNullWord_of_startsNumeral {s : List Char} (h : startsNumeral s = true) :
    isNullWord s = false := by
  apply Bool.eq_false_iff.2
  intro hs
  simp only [isNullWord, List.mem_cons, List.not_mem_nil, or_false, decide_eq_true_eq] at hs
  rcases hs with rfl | rfl | rfl | rfl <;> exact absurd h (by decide)

theorem boolWord?_of_startsNumeral {s : List Char} (h : startsNumeral s = true) :
    boolWord? s = none := by
  rw [boolWord?, if_neg, if_neg]
  · intro hs
    simp only [List.mem_cons, List.not_mem_nil, or_false] at hs
    rcases hs with rfl | rfl | rfl <;> exact absurd h (by decide)
  · intro hs
    simp only [List.mem_cons, List.not_mem_nil, or_false] at hs
    rcases hs with rfl | rfl | rfl <;> exact absurd h (by decide)

/-- Text that starts like a number is neither null nor a truth value. -/
theorem ofPlain?_of_startsNumeral {s : List Char} (h : startsNumeral s = true) :
    ofPlain? s =
      match integerReading s with
      | .value n => some (.number (.int n))
      | .tooWide => none
      | .other =>
        if isZeroPadded s then some (.text s)
        else match float? s with
          | some n => some (.number n)
          | none => some (.text s) := by
  have hs : s.isEmpty = false := by
    cases s with
    | nil => cases h
    | cons c cs => rfl
  rw [ofPlain?, isNullWord_of_startsNumeral h, hs, boolWord?_of_startsNumeral h]
  rfl

/-! ## Integers -/

theorem markedBase?_of_digits {ds : List Char} (h : ∀ c ∈ ds, c.isDigit = true) :
    markedBase? ds = none := by
  unfold markedBase?
  split
  · exact absurd (h 'x' (by simp)) (by decide)
  · exact absurd (h 'o' (by simp)) (by decide)
  · exact absurd (h 'b' (by simp)) (by decide)
  · rfl

theorem natural?_toDigits (n : Nat) : natural? (Nat.toDigits 10 n) = some n := by
  rw [natural?, markedBase?_of_digits (fun c => Digits.isDigit_of_mem_toDigits)]
  exact Digits.read?_toDigits n

theorem isZeroPadded_neg (s : List Char) (h : ∀ c cs, s = c :: cs → c.isDigit = true) :
    isZeroPadded ('-' :: s) = isZeroPadded s := by
  cases s with
  | nil => rfl
  | cons c cs =>
      have hc := h c cs rfl
      have hdrop : dropSign (c :: cs) = c :: cs := by
        unfold dropSign
        split
        · next heq => rw [(List.cons.inj heq).1] at hc; exact absurd hc (by decide)
        · next heq => rw [(List.cons.inj heq).1] at hc; exact absurd hc (by decide)
        · rfl
      rw [isZeroPadded, isZeroPadded, hdrop]
      rfl

theorem isZeroPadded_toDigits (n : Nat) : isZeroPadded (Nat.toDigits 10 n) = false := by
  have hds := fun c => Digits.isDigit_of_mem_toDigits (n := n) (c := c)
  rcases Nat.eq_zero_or_pos n with rfl | hn
  · rfl
  · have hhead := Digits.head_toDigits_ne hn
    unfold isZeroPadded
    split
    · next heq =>
      have hmem : Nat.toDigits 10 n = dropSign (Nat.toDigits 10 n) := by
        unfold dropSign
        split
        · next h => exact absurd (hds '-' (by simp [h])) (by decide)
        · next h => exact absurd (hds '+' (by simp [h])) (by decide)
        · rfl
      rw [hmem, heq] at hhead
      exact absurd rfl hhead
    · rfl

theorem integer?_of_isDigit {c : Char} (cs : List Char) (h : c.isDigit = true) :
    integer? (c :: cs) =
      if isZeroPadded (c :: cs) then none else (natural? (c :: cs)).map Int.ofNat := by
  unfold integer?
  split
  · rfl
  split
  · next heq =>
    rw [(List.cons.inj heq).1] at h
    exact absurd h (by decide)
  · next heq =>
    rw [(List.cons.inj heq).1] at h
    exact absurd h (by decide)
  · rfl

theorem integer?_neg (cs : List Char) :
    integer? ('-' :: cs) =
      if isZeroPadded ('-' :: cs) then none else (natural? cs).map fun n : Nat => -(n : Int) := by
  rw [integer?]
  split
  · rfl
  · cases natural? cs <;> rfl

/-- The decimal text of an integer starts like a number and denotes it. -/
theorem startsNumeral_intText (n : Int) : startsNumeral (Json.intText n) = true := by
  unfold Json.intText
  have hds := fun c => Digits.isDigit_of_mem_toDigits (n := n.natAbs) (c := c)
  cases hd : Nat.toDigits 10 n.natAbs with
  | nil => exact absurd hd (by simp)
  | cons d ds =>
      have hdigit := hds d (by simp [hd])
      split
      · exact startsNumeral_neg ds hdigit
      · exact startsNumeral_of_isDigit ds hdigit

theorem integer?_intText (n : Int) : integer? (Json.intText n) = some n := by
  unfold Json.intText
  have hds := fun c => Digits.isDigit_of_mem_toDigits (n := n.natAbs) (c := c)
  have hpad := isZeroPadded_toDigits n.natAbs
  have hnat := natural?_toDigits n.natAbs
  cases hd : Nat.toDigits 10 n.natAbs with
  | nil => exact absurd hd (by simp)
  | cons d ds =>
      have hdigit := hds d (by simp [hd])
      rw [hd] at hpad hnat
      split
      · next hneg =>
        rw [integer?_neg, isZeroPadded_neg _ (by rintro c cs ⟨rfl, -⟩; exact hdigit), hpad, hnat]
        simp only [Bool.false_eq_true, if_false, Option.map_some, Option.some.injEq]
        omega
      · next hpos =>
        rw [integer?_of_isDigit ds hdigit, hpad, hnat]
        simp only [Bool.false_eq_true, if_false, Option.map_some, Option.some.injEq,
          Int.ofNat_eq_natCast]
        omega

/-- An integer of at most 64 bits is read from its decimal text. -/
theorem ofPlain?_intText {n : Int} (h : Width.fitsWord n = true) :
    ofPlain? (Json.intText n) = some (.number (.int n)) := by
  have hread : integerReading (Json.intText n) = .value n := by
    simp [integerReading, integer?_intText, width, h]
  rw [ofPlain?_of_startsNumeral (startsNumeral_intText n), hread]

end Yaml.Scalar

/-! ## Doubles -/

/-- The characters of decimal text. -/
def isDecimalChar (c : Char) : Bool :=
  c.isDigit || c = '.' || c = 'e' || c = '+' || c = '-'

/-- Text that starts with a digit and has a point or an exponent mark in it. -/
def IsFractional (s : List Char) : Prop :=
  ∃ d ds c, s = d :: ds ∧ d.isDigit = true ∧ c ∈ ds ∧ c.isDigit = false ∧
    ∀ x ∈ s, isDecimalChar x = true

theorem isDecimalChar_of_isDigit {c : Char} (h : c.isDigit = true) : isDecimalChar c = true := by
  simp [isDecimalChar, h]

namespace Decimal

theorem exists_digits (d : Decimal) :
    ∃ c cs, d.digits = c :: cs ∧ ∀ x ∈ d.digits, x.isDigit = true := by
  have hds : ∀ x ∈ d.digits, x.isDigit = true := fun x => Digits.isDigit_of_mem_toDigits
  cases hd : d.digits with
  | nil => exact absurd hd (by simp [digits])
  | cons c cs => exact ⟨c, cs, rfl, hd ▸ hds⟩

theorem isFractional_positional (d : Decimal) : IsFractional d.positional := by
  obtain ⟨c, cs, hd, hds⟩ := d.exists_digits
  have hc : c.isDigit = true := hds c (by simp [hd])
  have hdec : ∀ x ∈ d.digits, isDecimalChar x = true :=
    fun x hx => isDecimalChar_of_isDigit (hds x hx)
  unfold positional
  simp only
  split
  · refine ⟨c, cs ++ List.replicate d.exponent.toNat '0' ++ ['.', '0'], '.', by simp [hd], hc,
      by simp, by decide, ?_⟩
    intro x hx
    simp only [List.mem_append, List.mem_replicate, List.mem_cons, List.not_mem_nil,
      or_false] at hx
    rcases hx with (hx | ⟨-, rfl⟩) | rfl | rfl
    · exact hdec x hx
    · decide
    · decide
    · decide
  split
  · next hlt =>
    have hpos : 0 < d.digits.length - (-d.exponent).toNat := by omega
    obtain ⟨k, hk⟩ := Nat.exists_eq_succ_of_ne_zero (Nat.pos_iff_ne_zero.1 hpos)
    refine ⟨c, cs.take k ++ '.' :: d.digits.drop (d.digits.length - (-d.exponent).toNat), '.',
      by rw [hk, hd]; rfl, hc, by simp, by decide, ?_⟩
    intro x hx
    simp only [List.mem_append, List.mem_cons] at hx
    rcases hx with hx | rfl | hx
    · exact hdec x (List.mem_of_mem_take hx)
    · decide
    · exact hdec x (List.mem_of_mem_drop hx)
  · refine ⟨'0', '.' :: (List.replicate ((-d.exponent).toNat - d.digits.length) '0' ++ d.digits),
      '.', rfl, by decide, by simp, by decide, ?_⟩
    intro x hx
    simp only [List.mem_cons, List.mem_append, List.mem_replicate] at hx
    rcases hx with rfl | rfl | ⟨-, rfl⟩ | hx
    · decide
    · decide
    · decide
    · exact hdec x hx

theorem isFractional_scientific (plus : Bool) (d : Decimal) :
    IsFractional (d.scientific plus) := by
  obtain ⟨c, cs, hd, hds⟩ := d.exists_digits
  have hc : c.isDigit = true := hds c (by simp [hd])
  -- The sign and the digits of the exponent.
  have htail : ∀ x ∈ (if d.leading < 0 then ['-'] else if plus then ['+'] else []) ++
      Nat.toDigits 10 d.leading.natAbs, isDecimalChar x = true := by
    intro x hx
    rcases List.mem_append.1 hx with hx | hx
    · split at hx
      · rw [List.mem_singleton.1 hx]; decide
      split at hx
      · rw [List.mem_singleton.1 hx]; decide
      · cases hx
    · exact isDecimalChar_of_isDigit (Digits.isDigit_of_mem_toDigits hx)
  unfold scientific
  cases cs with
  | nil =>
      simp only [hd]
      refine ⟨c, _, 'e', rfl, hc, by simp, by decide, ?_⟩
      intro x hx
      simp only [List.singleton_append, List.mem_cons] at hx
      rcases hx with rfl | rfl | hx
      · exact isDecimalChar_of_isDigit hc
      · decide
      · exact htail x hx
  | cons e es =>
      simp only [hd]
      refine ⟨c, _, '.', rfl, hc, by simp, by decide, ?_⟩
      intro x hx
      simp only [List.cons_append, List.mem_cons, List.mem_append] at hx
      rcases hx with rfl | rfl | rfl | hx | rfl | hx
      · exact isDecimalChar_of_isDigit hc
      · decide
      · exact isDecimalChar_of_isDigit (hds x (by simp [hd]))
      · exact isDecimalChar_of_isDigit (hds x (by simp [hd, hx]))
      · decide
      · exact htail x (List.mem_append.2 hx)

end Decimal

namespace Binary64

/-- The text of a double is its sign and fractional text. -/
theorem exists_textWith (plus : Bool) (x : Binary64) :
    ∃ s, x.textWith plus = x.signText ++ s ∧ IsFractional s := by
  unfold textWith
  simp only
  split
  · exact ⟨_, rfl, Decimal.isFractional_positional _⟩
  · exact ⟨_, rfl, Decimal.isFractional_scientific plus _⟩

/-- Whether the written form of the number is read as the number again. -/
def ReadsBack (x : Binary64) : Prop :=
  read? x.text = some x

instance (x : Binary64) : Decidable x.ReadsBack :=
  inferInstanceAs (Decidable (read? x.text = some x))

end Binary64

namespace Yaml.Scalar

theorem natural?_of_isFractional {s : List Char} (h : IsFractional s) : natural? s = none := by
  obtain ⟨d, ds, c, rfl, hd, hc, hcd, hall⟩ := h
  have hmark : markedBase? (d :: ds) = none := by
    unfold markedBase?
    split
    · exact absurd (hall 'x' (by simp_all)) (by decide)
    · exact absurd (hall 'o' (by simp_all)) (by decide)
    · exact absurd (hall 'b' (by simp_all)) (by decide)
    · rfl
  rw [natural?, hmark]
  exact Digits.readFrom?_of_mem (List.mem_cons_of_mem d hc) hcd 0

theorem isZeroPadded_of_isFractional {s : List Char} (h : IsFractional s) :
    isZeroPadded s = false := by
  obtain ⟨d, ds, c, rfl, hd, hc, hcd, -⟩ := h
  have hdrop : dropSign (d :: ds) = d :: ds := by
    unfold dropSign
    split
    · next heq => rw [(List.cons.inj heq).1] at hd; exact absurd hd (by decide)
    · next heq => rw [(List.cons.inj heq).1] at hd; exact absurd hd (by decide)
    · rfl
  rw [isZeroPadded, hdrop]
  split
  · next heq =>
    rw [← (List.cons.inj heq).2]
    exact Bool.eq_false_iff.2 fun hall => absurd (List.all_eq_true.1 hall c hc) (by simp [hcd])
  · rfl

/-- Fractional text, a hyphen in front of it or not, is no integer. -/
theorem integer?_of_isFractional {s : List Char} (h : IsFractional s) (neg : Bool) :
    integer? ((if neg then ['-'] else []) ++ s) = none := by
  have hnat := natural?_of_isFractional h
  obtain ⟨d, ds, -, rfl, hd, -⟩ := h
  cases neg with
  | true =>
      simp only [if_true, List.singleton_append, integer?_neg, hnat]
      split <;> rfl
  | false =>
      simp only [Bool.false_eq_true, if_false, List.nil_append, integer?_of_isDigit ds hd, hnat]
      split <;> rfl

/-- Text that starts like a number is no word for an infinity or for no number. -/
theorem float?_of_startsNumeral {s : List Char} (h : startsNumeral s = true) :
    float? s = (Binary64.read? s).map .float := by
  have hplus : withoutPlus? s = some s := by
    unfold withoutPlus?
    split
    · exact absurd h (by simp [startsNumeral])
    · exact absurd h (by simp [startsNumeral])
    · exact absurd h (by simp [startsNumeral])
    · rfl
  have hpos : ∀ w ∈ [".inf".toList, ".Inf".toList, ".INF".toList], startsNumeral w = false := by
    decide
  have hneg : ∀ w ∈ ["-.inf".toList, "-.Inf".toList, "-.INF".toList],
      startsNumeral w = false := by decide
  have hnan : ∀ w ∈ [".nan".toList, ".NaN".toList, ".NAN".toList], startsNumeral w = false := by
    decide
  simp only [float?, hplus]
  rw [if_neg (fun hm => absurd (hpos s hm) (by simp [h])),
    if_neg (fun hm => absurd (hneg s hm) (by simp [h])),
    if_neg (fun hm => absurd (hnan s hm) (by simp [h]))]

theorem startsNumeral_text (x : Binary64) : startsNumeral x.text = true := by
  obtain ⟨s, hs, d, ds, -, rfl, hd, -⟩ := x.exists_textWith true
  rw [Binary64.text, hs, Binary64.signText]
  cases x.negative with
  | true => exact startsNumeral_neg ds hd
  | false => exact startsNumeral_of_isDigit ds hd

/-- A double whose text reads back is read from its text as a plain scalar. -/
theorem ofPlain?_text {x : Binary64} (h : x.ReadsBack) :
    ofPlain? x.text = some (.number (.float x)) := by
  obtain ⟨s, hs, hfrac⟩ := x.exists_textWith true
  have hstart := startsNumeral_text x
  have hint : integer? x.text = none := by
    rw [Binary64.text, hs, Binary64.signText]
    exact integer?_of_isFractional hfrac x.negative
  have hpad : isZeroPadded x.text = false := by
    obtain ⟨d, ds, c, rfl, hd, -⟩ := id hfrac
    rw [Binary64.text, hs, Binary64.signText]
    cases x.negative with
    | true =>
        exact (isZeroPadded_neg _ (by rintro c cs ⟨rfl, -⟩; exact hd)).trans
          (isZeroPadded_of_isFractional hfrac)
    | false => exact isZeroPadded_of_isFractional hfrac
  rw [ofPlain?_of_startsNumeral hstart]
  simp [integerReading, hint, hpad, float?_of_startsNumeral hstart, show _ = _ from h]

end Yaml.Scalar

end PromptDoc
