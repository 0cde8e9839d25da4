import TinyLisp.Proofs.Magnitudes

/-!
# The nearest place

`Double.nearest` compares a ratio with the middle between two neighbouring magnitudes, and with
nothing else (`lt_nearest_iff`). All that is said about rounding follows from that: no finite
number is nearer to the ratio than the rounded one, and if another one is as near, then the
rounded one is even (`isRounded_ofUnits`). Past the middle between the last finite magnitude and
the next one the result is infinite, up to the middle between zero and the first magnitude it is
zero.

`Double.IsRounded` says this without places, of rationals. It determines the number
(`IsRounded.unique`), and larger rationals do not have smaller roundings (`IsRounded.atMost`).
-/

namespace TinyLisp.Double

/-! ## The two magnitudes around a ratio -/

/-- The rounded ratio is on the grid that the ratio belongs to. -/
theorem exists_nearest_eq (num den : Nat) :
    ∃ shift, nearest num den = shift * 2 ^ 52 + divRound num (den * 2 ^ shift)
      ∧ (shift = 0 ∨ 2 ^ 52 ≤ num / (den * 2 ^ shift)) ∧ num / (den * 2 ^ shift) < 2 ^ 53 := by
  refine ⟨(num / den).log2 - 52, rfl, ?_, ?_⟩
  · rw [← Nat.div_div_eq_div_mul, Nat.le_div_iff_mul_le (Nat.two_pow_pos _), ← pow_add]
    by_cases hlog : (num / den).log2 ≤ 52
    · exact Or.inl (Nat.sub_eq_zero_of_le hlog)
    · have hne : num / den ≠ 0 := by
        intro hzero
        rw [hzero] at hlog
        exact hlog (Nat.zero_le _)
      exact Or.inr ((Nat.le_log2 hne).mp (by omega))
  · rw [← Nat.div_div_eq_div_mul, Nat.div_lt_iff_lt_mul (Nat.two_pow_pos _), ← pow_add]
    exact Nat.lt_of_lt_of_le Nat.lt_log2_self (Nat.pow_le_pow_right (by decide) (by omega))

/-- The ratio lies between two neighbours, and the nearest place is that of one of them: the
first up to the middle, the even one in the middle. -/
theorem exists_neighbours (num : Nat) {den : Nat} (hden : 0 < den) :
    ∃ place, units place * den ≤ num ∧ num < units (place + 1) * den
      ∧ nearest num den
        = if 2 * num < (units place + units (place + 1)) * den
            ∨ 2 * num = (units place + units (place + 1)) * den ∧ place % 2 = 0
          then place else place + 1 := by
  obtain ⟨shift, hnearest, hlow, hhigh⟩ := exists_nearest_eq num den
  have hdiv := Nat.div_add_mod num (den * 2 ^ shift)
  have hrest := Nat.mod_lt num (Nat.mul_pos hden (Nat.two_pow_pos shift))
  rw [divRound] at hnearest
  generalize num / (den * 2 ^ shift) = whole at hnearest hlow hhigh hdiv
  generalize num % (den * 2 ^ shift) = rest at hnearest hdiv hrest
  have hbelow : units (shift * 2 ^ 52 + whole) * den = den * 2 ^ shift * whole := by
    rw [units_grid hlow hhigh.le]
    ring
  have habove : units (shift * 2 ^ 52 + whole + 1) * den
      = den * 2 ^ shift * whole + den * 2 ^ shift := by
    have hnext : whole + 1 ≤ 2 ^ 53 := hhigh
    rw [Nat.add_assoc, units_grid (by omega) hnext]
    ring
  have hmiddle : (units (shift * 2 ^ 52 + whole) + units (shift * 2 ^ 52 + whole + 1)) * den
      = 2 * (den * 2 ^ shift * whole) + den * 2 ^ shift := by
    rw [Nat.add_mul, hbelow, habove]
    omega
  have hparity : (shift * 2 ^ 52 + whole) % 2 = whole % 2 := by omega
  refine ⟨shift * 2 ^ 52 + whole, by omega, by omega, ?_⟩
  rw [hmiddle, hparity, hnearest, ← hdiv]
  generalize den * 2 ^ shift * whole = base
  generalize den * 2 ^ shift = step
  have hlt : 2 * (base + rest) < 2 * base + step ↔ 2 * rest < step := by omega
  have heq : 2 * (base + rest) = 2 * base + step ↔ 2 * rest = step := by omega
  simp only [hlt, heq]
  split <;> omega

/-- The nearest place is past a place exactly if the ratio is past the middle between that place
and the next one, or in the middle and the place is odd. -/
theorem lt_nearest_iff {num den : Nat} (hden : 0 < den) {place : Nat} :
    place < nearest num den
      ↔ (units place + units (place + 1)) * den < 2 * num
        ∨ (units place + units (place + 1)) * den = 2 * num ∧ place % 2 = 1 := by
  obtain ⟨low, hbelow, habove, hnearest⟩ := exists_neighbours num hden
  rcases Nat.lt_trichotomy place low with hp | rfl | hp
  · have hnext : place + 1 ≤ low := hp
    have hfirst := Nat.mul_lt_mul_of_pos_right (units_strictMono hp) hden
    have hsecond := Nat.mul_le_mul_right den (units_strictMono.monotone hnext)
    have hlow : low ≤ nearest num den := by rw [hnearest]; split <;> omega
    rw [Nat.add_mul]
    omega
  · rw [hnearest]
    split <;> omega
  · have hnext : low + 1 ≤ place := hp
    have hfirst := Nat.mul_le_mul_right den (units_strictMono.monotone hnext)
    have hsecond := Nat.mul_lt_mul_of_pos_right (units_strictMono (Nat.lt_add_one place)) hden
    have hhigh : nearest num den ≤ low + 1 := by rw [hnearest]; split <;> omega
    rw [Nat.add_mul]
    omega

/-! ## Rounding of rationals -/

section Ratio

variable {num den : Nat} {q : ℚ} (hden : 0 < den) (hq : q * unitsInOne * den = num)
include hden hq

theorem lt_nearest_iff_magnitude (place : Nat) :
    place < nearest num den
      ↔ magnitude place + magnitude (place + 1) < 2 * q
        ∨ magnitude place + magnitude (place + 1) = 2 * q ∧ place % 2 = 1 := by
  have hscale : (0 : ℚ) < unitsInOne * den := mul_pos unitsInOne_pos (by exact_mod_cast hden)
  have hmiddle : (((units place + units (place + 1)) * den : Nat) : ℚ)
      = (magnitude place + magnitude (place + 1)) * (unitsInOne * den) := by
    push_cast
    rw [← magnitude_mul_unitsInOne, ← magnitude_mul_unitsInOne]
    ring
  have hnum : ((2 * num : Nat) : ℚ) = 2 * q * (unitsInOne * den) := by
    push_cast
    rw [← hq]
    ring
  have hlt : (units place + units (place + 1)) * den < 2 * num
      ↔ magnitude place + magnitude (place + 1) < 2 * q := by
    rw [← Nat.cast_lt (α := ℚ), hmiddle, hnum, mul_lt_mul_iff_left₀ hscale]
  have heq : (units place + units (place + 1)) * den = 2 * num
      ↔ magnitude place + magnitude (place + 1) = 2 * q := by
    rw [← Nat.cast_inj (R := ℚ), hmiddle, hnum, mul_left_inj' hscale.ne']
  rw [lt_nearest_iff hden, hlt, heq]

/-- The nearest place is nearer than one before it, or as near and even. -/
theorem middle_le_of_lt {j : Nat} (hj : j < nearest num den) :
    magnitude j + magnitude (nearest num den) ≤ 2 * q
      ∧ (2 * q = magnitude j + magnitude (nearest num den) → nearest num den % 2 = 0) := by
  obtain ⟨n, hn⟩ := Nat.exists_eq_add_of_lt hj
  have hpast := (lt_nearest_iff_magnitude hden hq (j + n)).mp (by omega)
  have hmono := magnitude_strictMono.monotone (Nat.le_add_right j n)
  rw [hn]
  rcases hpast with h | ⟨h, hodd⟩
  · exact ⟨by linarith, fun htie => absurd htie (by linarith)⟩
  · exact ⟨by linarith, fun _ => by omega⟩

/-- The nearest place is nearer than one behind it, or as near and even. -/
theorem le_middle_of_lt {j : Nat} (hj : nearest num den < j) :
    2 * q ≤ magnitude j + magnitude (nearest num den)
      ∧ (2 * q = magnitude j + magnitude (nearest num den) → nearest num den % 2 = 0) := by
  have hnext : nearest num den + 1 ≤ j := hj
  have hmono := magnitude_strictMono.monotone hnext
  have hpast := mt (lt_nearest_iff_magnitude hden hq (nearest num den)).mpr (lt_irrefl _)
  rw [not_or, not_and, not_lt] at hpast
  obtain ⟨hle, hodd⟩ := hpast
  refine ⟨by linarith, fun htie => ?_⟩
  have := hodd (by linarith)
  omega

theorem abs_sub_nearest_le (j : Nat) :
    |q - magnitude (nearest num den)| ≤ |q - magnitude j| := by
  rcases lt_trichotomy j (nearest num den) with hj | rfl | hj
  · have hlt := magnitude_strictMono hj
    have hmiddle := (middle_le_of_lt hden hq hj).1
    exact (abs_le.mpr ⟨by linarith, by linarith⟩).trans (le_abs_self _)
  · exact le_rfl
  · have hlt := magnitude_strictMono hj
    have hmiddle := (le_middle_of_lt hden hq hj).1
    exact (abs_le.mpr ⟨by linarith, by linarith⟩).trans (neg_le_abs _)

theorem nearest_even_of_tie {j : Nat} (hj : j ≠ nearest num den)
    (htie : |q - magnitude (nearest num den)| = |q - magnitude j|) :
    nearest num den % 2 = 0 := by
  have hmiddle : 2 * q = magnitude j + magnitude (nearest num den) := by
    rcases abs_eq_abs.mp htie with h | h
    · exact absurd (magnitude_strictMono.injective (by linarith)) hj
    · linarith
  rcases Nat.lt_or_gt_of_ne hj with hlt | hgt
  · exact (middle_le_of_lt hden hq hlt).2 hmiddle
  · exact (le_middle_of_lt hden hq hgt).2 hmiddle

end Ratio

/-- The middle between the last finite magnitude and the next one. -/
theorem magnitude_overflow :
    magnitude (2047 * 2 ^ 52 - 1) + magnitude (2047 * 2 ^ 52) = 2 * (2 ^ 1024 - 2 ^ 970) := by
  have hlast : significand (2047 * 2 ^ 52 - 1) = 2 ^ 53 - 1
      ∧ exponent (2047 * 2 ^ 52 - 1) = 971 := by decide
  have hnext : significand (2047 * 2 ^ 52) = 2 ^ 52 ∧ exponent (2047 * 2 ^ 52) = 972 := by
    decide
  rw [magnitude, magnitude, hlast.1, hlast.2, hnext.1, hnext.2]
  -- the common power is kept as a variable, so that it is never worked out
  obtain ⟨b, hb⟩ : ∃ b, b = 970 := ⟨_, rfl⟩
  have hexponents : (971 : Int) = (b + 1 : Nat) ∧ (972 : Int) = (b + 2 : Nat) ∧ 1024 = b + 54 := by
    omega
  rw [hexponents.1, hexponents.2.1, hexponents.2.2, ← hb, zpow_natCast, zpow_natCast]
  push_cast
  ring

theorem magnitude_zero : magnitude 0 = 0 := by
  rw [magnitude, significand, if_pos (by decide), Nat.cast_zero, zero_mul]

theorem magnitude_one : magnitude 1 = 2 * 2 ^ (-1075 : Int) := by
  have hfirst : significand 1 = 1 ∧ exponent 1 = -1074 := by decide
  have hexponent : (-1074 : Int) = 1 + -1075 := by decide
  rw [magnitude, hfirst.1, hfirst.2, hexponent, zpow_add₀ two_ne_zero, zpow_one, Nat.cast_one,
    one_mul]

section Ratio

variable {num den : Nat} {q : ℚ} (hden : 0 < den) (hq : q * unitsInOne * den = num)
include hden hq

theorem nearest_lt_iff : nearest num den < 2047 * 2 ^ 52 ↔ q < 2 ^ 1024 - 2 ^ 970 := by
  have hlast := lt_nearest_iff_magnitude hden hq (2047 * 2 ^ 52 - 1)
  have hnext : 2047 * 2 ^ 52 - 1 + 1 = 2047 * 2 ^ 52 := by decide
  have hodd : (2047 * 2 ^ 52 - 1) % 2 = 1 := by decide
  rw [hnext, magnitude_overflow, hodd] at hlast
  generalize (2 : ℚ) ^ 1024 - 2 ^ 970 = limit at hlast ⊢
  rw [← not_iff_not, Nat.not_lt, not_lt]
  constructor
  · intro h
    rcases hlast.mp (by omega) with hpast | ⟨htie, -⟩ <;> linarith
  · intro h
    rcases h.lt_or_eq with hpast | htie
    · have := hlast.mpr (Or.inl (by linarith))
      omega
    · have := hlast.mpr (Or.inr ⟨by rw [htie], rfl⟩)
      omega

theorem nearest_eq_zero_iff : nearest num den = 0 ↔ q ≤ 2 ^ (-1075 : Int) := by
  have hfirst := lt_nearest_iff_magnitude hden hq 0
  rw [magnitude_zero, Nat.zero_add, magnitude_one, zero_add] at hfirst
  rw [← Nat.le_zero, ← Nat.not_lt, hfirst]
  constructor
  · intro h
    by_contra hlt
    exact h (Or.inl (by linarith [not_le.mp hlt]))
  · rintro h (hpast | ⟨-, hodd⟩)
    · linarith
    · cases hodd

end Ratio

theorem ofUnits_of_nearest_lt {num den : Nat} (h : nearest num den < 2047 * 2 ^ 52) :
    ofUnits false num den = .finite false ⟨nearest num den, h⟩ :=
  ofUnits_of_lt rfl

theorem ofUnits_eq_zero_iff {num den : Nat} :
    ofUnits false num den = .zero ↔ nearest num den = 0 := by
  constructor
  · intro h
    by_cases hfinite : nearest num den < 2047 * 2 ^ 52
    · rw [ofUnits_of_nearest_lt hfinite, zero] at h
      obtain ⟨-, hzero⟩ := Double.finite.inj h
      exact congrArg Fin.val hzero
    · rw [ofUnits_of_le (Nat.not_lt.mp hfinite)] at h
      cases h
  · intro h
    exact ofUnits_of_lt h

/-- The number is the rounded value of a rational that is not negative. It is infinite from half
a step past the last finite number on. Up to there no finite number is nearer, and if another
one is as near, then the significand is even. -/
inductive IsRounded (q : ℚ) : Double → Prop where
  | finite {k : Place} (hq : q < 2 ^ 1024 - 2 ^ 970)
      (hnear : ∀ y r, value? y = some r → |q - magnitude k| ≤ |q - r|)
      (heven : ∀ y r, value? y = some r → r ≠ magnitude k → |q - magnitude k| = |q - r| →
        Even (significand k)) :
      IsRounded q (.finite false k)
  | infinite (hq : 2 ^ 1024 - 2 ^ 970 ≤ q) : IsRounded q (.infinite false)

theorem value?_eq_some {y : Double} {r : ℚ} (h : value? y = some r) :
    (∃ j : Nat, r = magnitude j) ∨ r < 0 := by
  cases y with
  | finite s j =>
      cases h
      cases s with
      | false => exact Or.inl ⟨j, one_mul _⟩
      | true =>
          rcases (magnitude_nonneg j).eq_or_lt with hzero | hpos
          · exact Or.inl ⟨j, by simp [← hzero]⟩
          · exact Or.inr (by simpa using hpos)
  | infinite | nan => cases h

theorem value?_finite (k : Place) : value? (.finite false k) = some (magnitude k) :=
  congrArg some (one_mul _)

theorem isRounded_ofUnits {num den : Nat} {q : ℚ} (hden : 0 < den)
    (hq : q * unitsInOne * den = num) (hnonneg : 0 ≤ q) :
    IsRounded q (ofUnits false num den) := by
  have hzero := abs_sub_nearest_le hden hq 0
  rw [magnitude_zero, sub_zero, abs_of_nonneg hnonneg] at hzero
  by_cases hfinite : nearest num den < 2047 * 2 ^ 52
  · rw [ofUnits_of_nearest_lt hfinite]
    refine .finite ((nearest_lt_iff hden hq).mp hfinite) (fun y r hr => ?_)
      fun y r hr hne htie => even_significand_iff.mpr ?_
    · rcases value?_eq_some hr with ⟨j, rfl⟩ | hneg
      · exact abs_sub_nearest_le hden hq j
      · exact hzero.trans ((by linarith : q ≤ q - r).trans (le_abs_self _))
    · rcases value?_eq_some hr with ⟨j, rfl⟩ | hneg
      · exact nearest_even_of_tie hden hq (fun hj => hne (by rw [hj])) htie
      · -- a number below zero is further away than zero is
        have hfar := le_abs_self (q - r)
        dsimp only at htie
        linarith
  · rw [ofUnits_of_le (Nat.not_lt.mp hfinite)]
    refine .infinite (not_lt.mp fun hlt => hfinite ?_)
    exact (nearest_lt_iff hden hq).mpr hlt

/-- Of two places at the same distance, with none nearer, one is odd. -/
theorem odd_of_equidistant {q : ℚ} {j k : Place} (hjk : j < k)
    (htie : |q - magnitude j| = |q - magnitude k|)
    (hnear : ∀ y r, value? y = some r → |q - magnitude j| ≤ |q - r|) :
    ¬ (Even (significand j) ∧ Even (significand k)) := by
  rintro ⟨hj, hk⟩
  rw [even_significand_iff] at hj hk
  have hlt : j.val < k.val := hjk
  have hbetween : j.val + 1 < k.val := by omega
  have hfirst := magnitude_strictMono (Nat.lt_add_one j.val)
  have hsecond := magnitude_strictMono hbetween
  have hmiddle : 2 * q = magnitude j + magnitude k := by
    rcases abs_eq_abs.mp htie with h | h <;> linarith
  have hnext := hnear _ _ (value?_finite ⟨j.val + 1, hbetween.trans k.isLt⟩)
  dsimp only at hnext
  have hfar : |q - magnitude j| = q - magnitude j := abs_of_nonneg (by linarith)
  have hnearer : |q - magnitude (j.val + 1)| < q - magnitude j :=
    abs_lt.mpr ⟨by linarith, by linarith⟩
  linarith

theorem IsRounded.unique {q : ℚ} {x y : Double} (hx : IsRounded q x) (hy : IsRounded q y) :
    x = y := by
  cases hx with
  | infinite hq =>
      cases hy with
      | infinite => rfl
      | finite hlt => exact absurd hq (not_le.mpr hlt)
  | @finite j hlt hnear heven =>
      cases hy with
      | infinite hq => exact absurd hq (not_le.mpr hlt)
      | @finite k _ hnear' heven' =>
          have htie : |q - magnitude j| = |q - magnitude k| :=
            le_antisymm (hnear _ _ (value?_finite k)) (hnear' _ _ (value?_finite j))
          by_contra hne
          have hjk : j ≠ k := fun h => hne (by rw [h])
          have hval : magnitude j ≠ magnitude k := fun h =>
            hjk (Fin.ext (magnitude_strictMono.injective h))
          have hj := heven _ _ (value?_finite k) hval.symm htie
          have hk := heven' _ _ (value?_finite j) hval htie.symm
          rcases lt_or_gt_of_ne hjk with hlt | hgt
          · exact odd_of_equidistant hlt htie hnear ⟨hj, hk⟩
          · exact odd_of_equidistant hgt htie.symm hnear' ⟨hk, hj⟩

/-- The order of numbers. NaN is not comparable. -/
def AtMost : Double → Double → Prop
  | .nan, _ | _, .nan => False
  | .infinite true, _ | _, .infinite false => True
  | .finite s j, .finite t k => (-1) ^ s.toNat * magnitude j ≤ (-1) ^ t.toNat * magnitude k
  | .infinite false, _ | _, .infinite true => False

theorem IsRounded.eq_infinite_iff {q : ℚ} {x : Double} (h : IsRounded q x) :
    x = .infinite false ↔ 2 ^ 1024 - 2 ^ 970 ≤ q := by
  cases h with
  | finite hq => exact ⟨nofun, fun hle => absurd hq (not_lt.mpr hle)⟩
  | infinite hq => exact ⟨fun _ => hq, fun _ => rfl⟩

theorem AtMost.refl_of_isRounded {q : ℚ} {x : Double} (h : IsRounded q x) : AtMost x x := by
  cases h with
  | finite => exact le_refl _
  | infinite => trivial

/-- Larger rationals do not have smaller roundings: if they did, then one of the two would be on
the wrong side of the middle between them. -/
theorem IsRounded.atMost {q q' : ℚ} {x x' : Double} (h : IsRounded q x) (h' : IsRounded q' x')
    (hle : q ≤ q') : AtMost x x' := by
  rcases hle.eq_or_lt with rfl | hlt
  · rw [← h.unique h']
    exact .refl_of_isRounded h
  cases h' with
  | infinite => cases h <;> trivial
  | @finite k' hq' hnear' =>
      cases h with
      | infinite hq => exact absurd (hq.trans hle) (not_le.mpr hq')
      | @finite k hq hnear =>
          show (1 : ℚ) * magnitude k ≤ 1 * magnitude k'
          rw [one_mul, one_mul]
          by_contra hgt
          rw [not_le] at hgt
          have hk := hnear _ _ (value?_finite k')
          have hk' := hnear' _ _ (value?_finite k)
          rcases lt_or_ge (2 * q) (magnitude k' + magnitude k) with hside | hside
          · have hnearer : |q - magnitude k'| < -(q - magnitude k) :=
              abs_lt.mpr ⟨by linarith, by linarith⟩
            exact absurd (hnearer.trans_le (neg_le_abs _)) (not_lt.mpr hk)
          · have hnearer : |q' - magnitude k| < q' - magnitude k' :=
              abs_lt.mpr ⟨by linarith, by linarith⟩
            exact absurd (hnearer.trans_le (le_abs_self _)) (not_lt.mpr hk')

end TinyLisp.Double
