import Mathlib
import TinyLisp.Number.Shortest

/-!
# Rounding to a place

`Double.nearest` sees a ratio and not its terms (`nearest_scale`), and it leaves a magnitude
where it is (`nearest_units`). The same then holds of decimals: the exponents that
`Decimal.toDouble` tells apart do not matter (`toDouble_eq`), so two decimals of the same value
become the same double (`toDouble_congr`).

Every magnitude has a decimal that becomes it, and `Double.shortest` is one
(`toDouble_shortest`).
-/

namespace TinyLisp

namespace Double

theorem divRound_scale (num den : Nat) {m : Nat} (hm : 0 < m) :
    divRound (num * m) (den * m) = divRound num den := by
  have hrest : 2 * (num % den * m) = 2 * (num % den) * m := (Nat.mul_assoc ..).symm
  simp only [divRound, Nat.mul_div_mul_right _ _ hm, Nat.mul_mod_mul_right, hrest,
    Nat.mul_lt_mul_right hm, Nat.mul_left_inj (Nat.ne_of_gt hm)]

theorem divRound_mul (n : Nat) {den : Nat} (hden : 0 < den) : divRound (n * den) den = n := by
  simp [divRound, Nat.mul_div_cancel _ hden, hden]

theorem nearest_scale (num den : Nat) {m : Nat} (hm : 0 < m) :
    nearest (num * m) (den * m) = nearest num den := by
  simp only [nearest, Nat.mul_div_mul_right _ _ hm, Nat.mul_right_comm den m,
    divRound_scale _ _ hm]

/-- Two ratios that are equal by cross-multiplication have one nearest place. -/
theorem nearest_congr {a b c d : Nat} (hb : 0 < b) (hd : 0 < d) (h : a * d = c * b) :
    nearest a b = nearest c d := by
  rw [← nearest_scale a b hd, ← nearest_scale c d hb, h, Nat.mul_comm b d]

theorem nearest_of_small {num den : Nat} (h : 2 * num < den) : nearest num den = 0 := by
  have hquot : num / den = 0 := Nat.div_eq_of_lt (by omega)
  have hrest : num % den = num := Nat.mod_eq_of_lt (by omega)
  have hshift : (0 : Nat).log2 - 52 = 0 := rfl
  simp only [nearest, hquot, hshift, divRound, Nat.pow_eq, pow_zero, Nat.mul_one, hrest]
  simp [h]

theorem le_nearest_of_large {num den shift : Nat} (h : 2 ^ (shift + 52) ≤ num / den) :
    shift * 2 ^ 52 ≤ nearest num den := by
  have hne : num / den ≠ 0 := Nat.ne_of_gt (Nat.lt_of_lt_of_le (Nat.two_pow_pos _) h)
  have hlog : shift + 52 ≤ (num / den).log2 := (Nat.le_log2 hne).mpr h
  have hshift : shift ≤ (num / den).log2 - 52 := by omega
  exact Nat.le_trans (Nat.mul_le_mul_right _ hshift) (Nat.le_add_right _ _)

theorem units_of_lt {place : Nat} (h : place < 2 ^ 52) : units place = place := if_pos h

/-- A place past the first block lies in a binade: its units are a 53-bit number, scaled. -/
theorem units_of_le {place : Nat} (h : 2 ^ 52 ≤ place) :
    units place = (2 ^ 52 + place % 2 ^ 52) * 2 ^ (place / 2 ^ 52 - 1) :=
  if_neg (Nat.not_lt.mpr h)

theorem log2_significand {f : Nat} (hf : f < 2 ^ 52) (s : Nat) :
    ((2 ^ 52 + f) * 2 ^ s).log2 = s + 52 := by
  have hpos : 0 < 2 ^ s := Nat.two_pow_pos s
  refine (Nat.log2_eq_iff (by positivity)).mpr ⟨?_, ?_⟩
  · rw [pow_add, Nat.mul_comm]
    exact Nat.mul_le_mul_right _ (Nat.le_add_right _ _)
  · have hnext : 2 ^ (s + 52 + 1) = 2 ^ 53 * 2 ^ s := by ring
    rw [hnext]
    exact Nat.mul_lt_mul_of_pos_right (by omega) hpos

/-- A magnitude is nearest to itself. -/
theorem nearest_units (place : Nat) : nearest (units place) 1 = place := by
  by_cases hfirst : place < 2 ^ 52
  · have hshift : place.log2 - 52 = 0 := by
      by_cases hzero : place = 0
      · rw [hzero]; rfl
      · have := (Nat.log2_lt hzero).mpr hfirst
        omega
    have hround := divRound_mul place Nat.one_pos
    simp only [nearest, units_of_lt hfirst, Nat.div_one, hshift, Nat.pow_eq, pow_zero,
      Nat.mul_one] at hround ⊢
    rw [hround, Nat.zero_mul, Nat.zero_add]
  · have hle : 2 ^ 52 ≤ place := Nat.not_lt.mp hfirst
    have hblock : 1 ≤ place / 2 ^ 52 := (Nat.one_le_div_iff (Nat.two_pow_pos _)).mpr hle
    have hmod : place % 2 ^ 52 < 2 ^ 52 := Nat.mod_lt _ (Nat.two_pow_pos _)
    have hsplit := Nat.div_add_mod place (2 ^ 52)
    rw [units_of_le hle]
    generalize hs : place / 2 ^ 52 - 1 = s
    generalize hf : place % 2 ^ 52 = f at hmod hsplit ⊢
    have hlog := log2_significand hmod s
    have hround := divRound_mul (2 ^ 52 + f) (Nat.two_pow_pos s)
    simp only [nearest, Nat.div_one, hlog, Nat.add_sub_cancel, Nat.pow_eq, Nat.one_mul, hround]
    have hs' : place / 2 ^ 52 = s + 1 := by omega
    rw [hs'] at hsplit
    omega

theorem ofUnits_of_lt {num den : Nat} {negative : Bool} {place : Place}
    (h : nearest num den = place.val) : ofUnits negative num den = .finite negative place := by
  simp only [ofUnits, h, place.isLt, dif_pos, Fin.eta]

theorem ofUnits_of_small {num den : Nat} (h : 2 * num < den) : ofUnits false num den = zero :=
  ofUnits_of_lt (nearest_of_small h)

theorem ofUnits_of_le {num den : Nat} {negative : Bool} (h : 2047 * 2 ^ 52 ≤ nearest num den) :
    ofUnits negative num den = .infinite negative :=
  dif_neg (Nat.not_lt.mpr h)

theorem ofUnits_of_large {num den : Nat} {negative : Bool} (h : 2 ^ (2047 + 52) ≤ num / den) :
    ofUnits negative num den = .infinite negative :=
  ofUnits_of_le (le_nearest_of_large h)

/-- The exponent is kept as a variable, so that no power is ever worked out. -/
theorem exists_unitsInOne_eq_pow : ∃ p, p = 1074 ∧ unitsInOne = 2 ^ p := by
  obtain ⟨p, hp⟩ : ∃ p, p = 1074 := ⟨_, rfl⟩
  exact ⟨p, hp, (congrArg (Nat.pow 2) hp.symm).trans Nat.pow_eq⟩

end Double

namespace Decimal

open Double

/-- The value of a decimal as a ratio of two naturals. -/
def num (d : Decimal) : Nat := d.coefficient * 10 ^ d.exponent.toNat

def den (d : Decimal) : Nat := 10 ^ (-d.exponent).toNat

theorem den_pos (d : Decimal) : 0 < d.den := Nat.pow_pos (by decide)

theorem pow_two_le_pow_ten (a : Nat) : 2 ^ (93 * a + 2) ≤ 10 ^ (28 * a + 1) := by
  have hpow : (2 ^ 93) ^ a ≤ (10 ^ 28) ^ a := Nat.pow_le_pow_left (by decide) a
  rw [← pow_mul, ← pow_mul] at hpow
  rw [pow_add, pow_succ 10]
  exact Nat.mul_le_mul hpow (by decide)

theorem le_mul_pow_of_exponent {c n : Nat} (hc : c ≠ 0) (hn : 308 < n) :
    2 ^ (2047 + 52) ≤ c * 10 ^ n * unitsInOne := by
  obtain ⟨p, hp, hunits⟩ := exists_unitsInOne_eq_pow
  obtain ⟨a, ha⟩ : ∃ a, a = 11 := ⟨_, rfl⟩
  have hexp : 2047 + 52 = 93 * a + 2 + p := by omega
  have hten : 10 ^ (28 * a + 1) ≤ 10 ^ n := Nat.pow_le_pow_right (by decide) (by omega)
  rw [hexp, hunits, pow_add]
  refine Nat.mul_le_mul_right _ (((pow_two_le_pow_ten a).trans hten).trans ?_)
  exact Nat.le_mul_of_pos_left _ (Nat.pos_of_ne_zero hc)

theorem mul_lt_pow_of_exponent {c n : Nat} (h : c.log2 + 1080 < 3 * n) :
    2 * (c * unitsInOne) < 10 ^ n := by
  obtain ⟨p, hp, hunits⟩ := exists_unitsInOne_eq_pow
  have hc : c * 2 ^ p < 2 ^ (c.log2 + 1) * 2 ^ p :=
    Nat.mul_lt_mul_of_pos_right c.lt_log2_self (Nat.two_pow_pos p)
  rw [← pow_add] at hc
  calc 2 * (c * unitsInOne) < 2 ^ (c.log2 + 1 + p + 1) := by rw [hunits, pow_succ]; omega
    _ ≤ 2 ^ (3 * n) := Nat.pow_le_pow_right (by decide) (by omega)
    _ = 8 ^ n := pow_mul 2 3 n
    _ ≤ 10 ^ n := Nat.pow_le_pow_left (by decide) n

/-- The nearest double is the rounded ratio, whatever the exponent. -/
theorem toDouble_eq (d : Decimal) : d.toDouble = ofUnits false (d.num * unitsInOne) d.den := by
  obtain ⟨c, e⟩ := d
  cases e with
  | ofNat n =>
      have hden : den ⟨c, .ofNat n⟩ = 1 := by cases n <;> rfl
      have hnum : num ⟨c, .ofNat n⟩ = c * 10 ^ n := rfl
      rw [hden, hnum, toDouble]
      dsimp only
      split
      · rename_i hc
        rw [hc, Nat.zero_mul, Nat.zero_mul, ofUnits_of_small (by decide)]
      · rename_i hc
        split
        · rename_i hn
          have hlarge := le_mul_pow_of_exponent hc hn
          rw [ofUnits_of_large (by rwa [Nat.div_one])]
        · rfl
  | negSucc n =>
      have hden : den ⟨c, .negSucc n⟩ = 10 ^ (n + 1) := rfl
      have hnum : num ⟨c, .negSucc n⟩ = c := Nat.mul_one c
      rw [hden, hnum, toDouble]
      dsimp only
      split
      · rename_i hsmall
        rw [ofUnits_of_small (mul_lt_pow_of_exponent hsmall)]
      · rfl

/-- Decimals with one value become one double. -/
theorem toDouble_congr {d d' : Decimal} (h : d.num * d'.den = d'.num * d.den) :
    d.toDouble = d'.toDouble := by
  have hcross : d.num * unitsInOne * d'.den = d'.num * unitsInOne * d.den := by
    rw [Nat.mul_right_comm, h, Nat.mul_right_comm]
  rw [toDouble_eq, toDouble_eq, ofUnits, ofUnits, nearest_congr d.den_pos d'.den_pos hcross]

/-- A decimal whose value is a magnitude becomes it. -/
theorem toDouble_of_units {d : Decimal} {place : Place}
    (h : d.num * unitsInOne = units place * d.den) : d.toDouble = .finite false place := by
  have hcross : d.num * unitsInOne * 1 = units place * d.den := by rw [Nat.mul_one, h]
  rw [toDouble_eq]
  exact ofUnits_of_lt ((nearest_congr d.den_pos Nat.one_pos hcross).trans (nearest_units _))

end Decimal

namespace Double

theorem toDouble_of_gridNeighbour? {place : Place} {exponent : Int} {d : Decimal}
    (h : gridNeighbour? place exponent = some d) : d.toDouble = .finite false place := by
  simp only [gridNeighbour?] at h
  split at h
  · rename_i hbelow habove
    have hbelow := of_decide_eq_true hbelow
    have habove := of_decide_eq_true habove
    split at h
    · cases h; exact hbelow
    · cases h; exact habove
  · rename_i hbelow _
    cases h; exact of_decide_eq_true hbelow
  · rename_i _ habove
    cases h; exact of_decide_eq_true habove
  · cases h

/-- The exact expansion: a unit is a power of five of the last decimals. -/
theorem toDouble_expansion {p : Nat} (hp : unitsInOne = 2 ^ p) (place : Place) :
    (Decimal.mk (units place * Nat.pow 5 p) (-(p : Int))).toDouble = .finite false place := by
  refine Decimal.toDouble_of_units ?_
  have hnum : (-(p : Int)).toNat = 0 := by omega
  have hden : (-(-(p : Int))).toNat = p := by omega
  have hten : Nat.pow 5 p * 2 ^ p = 10 ^ p := (mul_pow 5 2 p).symm
  rw [Decimal.num, Decimal.den, hnum, hden, hp, pow_zero, Nat.mul_one, Nat.mul_assoc, hten]

theorem toDouble_firstHit (place : Place) (grids : Nat) (exponent : Int) :
    (firstHit place grids exponent).toDouble = .finite false place := by
  induction grids generalizing exponent with
  | zero =>
      obtain ⟨p, hp, hunits⟩ := exists_unitsInOne_eq_pow
      have hexpansion := toDouble_expansion hunits place
      rwa [hp] at hexpansion
  | succ grids ih =>
      rw [firstHit]
      split
      · rename_i d hd
        exact toDouble_of_gridNeighbour? hd
      · exact ih _

/-- The shortest decimal reads back. -/
theorem toDouble_shortest (place : Place) : (shortest place).toDouble = .finite false place :=
  toDouble_firstHit place 17 _

end Double

end TinyLisp
