import Mathlib.Algebra.Order.Field.Rat
import Mathlib.Tactic.FieldSimp
import PromptDoc.Json.Value

/-!
# Doubles as rational numbers

`Binary64.toRat` is the number that a double denotes. Up to the sign it is the
quotient `Binary64.ratio`, so a double denotes an integer exactly when its
denominator divides its numerator (`toInt?_eq_some_iff`). `Json.asRat?` is the
number that a value of a document denotes, written either way.
-/

namespace PromptDoc

namespace Binary64

/-- The number that a double denotes. -/
def toRat (x : Binary64) : ℚ :=
  let magnitude : ℚ := x.significand * 2 ^ x.exponent
  if x.negative then -magnitude else magnitude

variable {x : Binary64}

theorem ratio_snd_pos (x : Binary64) : 0 < x.ratio.2 := by
  unfold ratio
  split
  · exact Nat.one_pos
  · exact Nat.pow_pos (by decide)

/-- The magnitude of a double is its quotient. -/
theorem significand_mul_pow (x : Binary64) :
    (x.significand * 2 ^ x.exponent : ℚ) = x.ratio.1 / x.ratio.2 := by
  unfold ratio
  split
  · next h =>
    obtain ⟨k, hk⟩ := Int.eq_ofNat_of_zero_le h
    simp [hk]
  · next h =>
    obtain ⟨k, hk⟩ := Int.eq_ofNat_of_zero_le (show 0 ≤ -x.exponent by omega)
    rw [show x.exponent = -(k : Int) by omega]
    simp [div_eq_mul_inv]

/-- The integer of a double, from its quotient. -/
theorem toInt?_eq_some {n : Int} : x.toInt? = some n ↔
    ∃ m : Nat, x.ratio.1 = m * x.ratio.2 ∧ n = if x.negative then -(m : Int) else m := by
  rw [toInt?, Option.map_eq_some_iff]
  refine exists_congr fun m => and_congr ?_ eq_comm
  unfold ratio
  split
  · rw [Option.some.injEq, Nat.mul_one]
  · have hpos : 0 < Nat.pow 2 (-x.exponent).toNat := Nat.pow_pos (by decide)
    generalize Nat.pow 2 (-x.exponent).toNat = d at hpos
    show (if x.significand % d = 0 then some (x.significand / d) else none) = some m ↔
      x.significand = m * d
    constructor
    · intro h
      split at h
      · next hdvd =>
        rw [← Option.some.inj h, Nat.div_mul_cancel (Nat.dvd_of_mod_eq_zero hdvd)]
      · cases h
    · intro h
      rw [h, if_pos (Nat.mul_mod_left m d), Nat.mul_div_cancel m hpos]

/-- A double has an integer exactly when it denotes it. -/
theorem toInt?_eq_some_iff {n : Int} : x.toInt? = some n ↔ x.toRat = n := by
  have hpos := x.ratio_snd_pos
  have hden : (x.ratio.2 : ℚ) ≠ 0 := Nat.cast_ne_zero.2 hpos.ne'
  rw [toInt?_eq_some, toRat, significand_mul_pow]
  constructor
  · rintro ⟨m, hm, rfl⟩
    have hquotient : (x.ratio.1 / x.ratio.2 : ℚ) = m := by
      rw [hm, Nat.cast_mul, mul_div_cancel_right₀ _ hden]
    simp only [hquotient]
    split <;> simp
  · intro h
    -- The magnitude of the integer, with the sign of the double taken off.
    obtain ⟨k, hk, hsign⟩ : ∃ k : Int, (x.ratio.1 / x.ratio.2 : ℚ) = k ∧
        n = if x.negative then -k else k := by
      split at h
      · exact ⟨-n, by rw [Int.cast_neg, ← h, neg_neg], by simp [*]⟩
      · exact ⟨n, h, by simp [*]⟩
    have hmul : (x.ratio.1 : Int) = k * x.ratio.2 := by
      rw [div_eq_iff hden] at hk
      exact_mod_cast hk
    have hk : 0 ≤ k := by
      refine nonneg_of_mul_nonneg_left (b := (x.ratio.2 : Int)) ?_ (by exact_mod_cast hpos)
      rw [← hmul]
      exact Int.natCast_nonneg _
    obtain ⟨m, rfl⟩ := Int.eq_ofNat_of_zero_le hk
    exact ⟨m, by exact_mod_cast hmul, hsign⟩

/-- The sign of a double is the sign of its number. -/
theorem toRat_pos_iff : 0 < x.toRat ↔ x.isZero = false ∧ x.negative = false := by
  have hpow : (0 : ℚ) < 2 ^ x.exponent := zpow_pos (by norm_num) x.exponent
  have hmagnitude : (0 : ℚ) ≤ x.significand * 2 ^ x.exponent :=
    mul_nonneg (Nat.cast_nonneg _) hpow.le
  rw [toRat, isZero]
  cases x.negative with
  | true =>
      rw [if_pos rfl]
      exact iff_of_false (not_lt.2 (neg_nonpos.2 hmagnitude)) (by simp)
  | false => simp [hpow, mul_pos_iff_of_pos_right, Nat.pos_iff_ne_zero]

end Binary64

namespace Json

/-- The number that a value denotes, if it is a number. -/
def asRat? : Json → Option ℚ
  | .int n => some n
  | .float x => some x.toRat
  | _ => none

end Json

end PromptDoc
