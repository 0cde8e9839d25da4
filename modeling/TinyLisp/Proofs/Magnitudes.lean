import TinyLisp.Proofs.Rounding

/-!
# Exact values

The value of a finite number is its significand times a power of two, up to sign (`value?`).
Both are fields of the place: the low 52 bits, with a hidden bit before them where the other
bits are not zero, and these other bits as an exponent. Counted in units the values are those
of `units` (`magnitude_mul_unitsInOne`), so they increase with the place
(`magnitude_strictMono`).
-/

namespace TinyLisp.Double

def significand (place : Nat) : Nat :=
  if place < 2 ^ 52 then place else 2 ^ 52 + place % 2 ^ 52

/-- The exponent of the last bit of the significand. The first two blocks share one. -/
def exponent (place : Nat) : Int := (place / 2 ^ 52 - 1 : Nat) - 1074

/-- The value of the magnitude at a place. -/
def magnitude (place : Nat) : ℚ := significand place * 2 ^ exponent place

/-- The exact value of a number, none for infinities and NaN. -/
def value? : Double → Option ℚ
  | .finite s k => some ((-1) ^ s.toNat * magnitude k)
  | _ => none

theorem units_eq (place : Nat) :
    units place = significand place * 2 ^ (place / 2 ^ 52 - 1) := by
  by_cases h : place < 2 ^ 52
  · have hblock : place / 2 ^ 52 = 0 := Nat.div_eq_of_lt h
    rw [units_of_lt h, significand, if_pos h, hblock, pow_zero, Nat.mul_one]
  · rw [units_of_le (Nat.not_lt.mp h), significand, if_neg h]

theorem magnitude_mul_unitsInOne (place : Nat) :
    magnitude place * unitsInOne = units place := by
  obtain ⟨p, hp, hunits⟩ := exists_unitsInOne_eq_pow
  have hexponent : exponent place = (place / 2 ^ 52 - 1 : Nat) - (p : Int) := by
    rw [exponent, hp]
    rfl
  rw [magnitude, hexponent, hunits, units_eq, zpow_sub₀ two_ne_zero, zpow_natCast, zpow_natCast]
  push_cast
  rw [mul_assoc, div_mul_cancel₀]
  exact pow_ne_zero _ two_ne_zero

theorem unitsInOne_pos : (0 : ℚ) < unitsInOne := by
  obtain ⟨p, -, hunits⟩ := exists_unitsInOne_eq_pow
  rw [hunits]
  positivity

theorem magnitude_eq_div (place : Nat) : magnitude place = units place / unitsInOne :=
  eq_div_of_mul_eq unitsInOne_pos.ne' (magnitude_mul_unitsInOne place)

theorem magnitude_nonneg (place : Nat) : 0 ≤ magnitude place := by
  unfold magnitude
  positivity

/-! ## The order of magnitudes -/

/-- The places of a block, and the first of the next one, are evenly spaced. -/
theorem units_grid {shift r : Nat} (hlow : shift = 0 ∨ 2 ^ 52 ≤ r) (hhigh : r ≤ 2 ^ 53) :
    units (shift * 2 ^ 52 + r) = r * 2 ^ shift := by
  rcases Nat.lt_or_ge r (2 ^ 52) with hr | hr
  · obtain rfl : shift = 0 := by omega
    rw [Nat.zero_mul, Nat.zero_add, units_of_lt hr, pow_zero, Nat.mul_one]
  · rw [units_of_le (by omega)]
    rcases Nat.lt_or_ge r (2 ^ 53) with hnext | hnext
    · have hblock : (shift * 2 ^ 52 + r) / 2 ^ 52 - 1 = shift := by omega
      have hmod : 2 ^ 52 + (shift * 2 ^ 52 + r) % 2 ^ 52 = r := by omega
      rw [hblock, hmod]
    · have hblock : (shift * 2 ^ 52 + r) / 2 ^ 52 - 1 = shift + 1 := by omega
      have hmod : (shift * 2 ^ 52 + r) % 2 ^ 52 = 0 := by omega
      obtain rfl : r = 2 ^ 53 := by omega
      rw [hblock, hmod]
      ring

/-- Every place is on a grid, and the next place is the next point of it. -/
theorem exists_grid (place : Nat) :
    ∃ shift r, place = shift * 2 ^ 52 + r ∧ (shift = 0 ∨ 2 ^ 52 ≤ r) ∧ r < 2 ^ 53 := by
  refine ⟨place / 2 ^ 52 - 1, place - (place / 2 ^ 52 - 1) * 2 ^ 52, ?_, ?_, ?_⟩ <;> omega

theorem units_strictMono : StrictMono units := by
  refine strictMono_nat_of_lt_succ fun place => ?_
  obtain ⟨shift, r, rfl, hlow, hhigh⟩ := exists_grid place
  rw [Nat.add_assoc, units_grid hlow hhigh.le, units_grid (by omega) hhigh]
  exact Nat.mul_lt_mul_of_pos_right (Nat.lt_succ_self r) (Nat.two_pow_pos shift)

theorem magnitude_strictMono : StrictMono magnitude := by
  intro j k hjk
  rw [magnitude_eq_div, magnitude_eq_div]
  exact div_lt_div_of_pos_right (by exact_mod_cast units_strictMono hjk) unitsInOne_pos

/-- The parity of a significand is that of its place. -/
theorem even_significand_iff {place : Nat} : Even (significand place) ↔ place % 2 = 0 := by
  rw [Nat.even_iff, significand]
  split <;> omega

end TinyLisp.Double
