import TinyLisp.Proofs.Conversion
import TinyLisp.Proofs.Numerals

/-!
# The decimal that is written is the shortest

The rationals that are rounded to one magnitude are an interval around it
(`IsRounded.of_between`). So if any multiple of a power of ten becomes the magnitude, then one
of the two multiples next to it does (`gridNeighbour?_spec`), and the search stops at the first
grid of such multiples that has one. It does stop: decimals of seventeen digits are closer
together than magnitudes are (`exists_toDouble_of_seventeen`).

A decimal with few digits is on a coarse grid, as long as it has its first digit where the
magnitude has it. One that is less than that is no match for that digit with zeros behind it
(`exists_on_grid`). The headline is `shortest_isShortest`.
-/

namespace TinyLisp

open Decimal

namespace Double

/-! ## The interval of a magnitude -/

theorem isRounded_magnitude (k : Place) : IsRounded (magnitude k) (.finite false k) := by
  have hunits : magnitude k * unitsInOne * (1 : Nat) = units k := by
    rw [Nat.cast_one, mul_one, magnitude_mul_unitsInOne]
  have hrounded := isRounded_ofUnits Nat.one_pos hunits (magnitude_nonneg k)
  rwa [ofUnits_of_lt (nearest_units k)] at hrounded

/-- What lies between two rationals that are rounded to a magnitude is rounded to it too. -/
theorem IsRounded.of_between {k : Place} {q r s : ℚ} {x : Double}
    (hq : IsRounded q (.finite false k)) (hs : IsRounded s (.finite false k))
    (hr : IsRounded r x) (hqr : q ≤ r) (hrs : r ≤ s) : x = .finite false k := by
  have hlow := hq.atMost hr hqr
  have hhigh := hr.atMost hs hrs
  cases hr with
  | infinite => cases hhigh
  | @finite j =>
      change (1 : ℚ) * magnitude k ≤ 1 * magnitude j at hlow
      change (1 : ℚ) * magnitude j ≤ 1 * magnitude k at hhigh
      rw [one_mul, one_mul] at hlow hhigh
      rw [Fin.ext (magnitude_strictMono.injective (le_antisymm hhigh hlow))]

section Interval

variable {k : Place} {a b : Decimal} (ha : a.toDouble = .finite false k)
include ha

theorem toDouble_of_le_magnitude (hab : a.value ≤ b.value) (hb : b.value ≤ magnitude k) :
    b.toDouble = .finite false k :=
  IsRounded.of_between (ha ▸ a.toDouble_isRounded) (isRounded_magnitude k) b.toDouble_isRounded
    hab hb

theorem toDouble_of_magnitude_le (hb : magnitude k ≤ b.value) (hba : b.value ≤ a.value) :
    b.toDouble = .finite false k :=
  IsRounded.of_between (isRounded_magnitude k) (ha ▸ a.toDouble_isRounded) b.toDouble_isRounded
    hb hba

end Interval

/-! ## The two neighbours on a grid -/

theorem ten_zpow_pos (e : Int) : (0 : ℚ) < 10 ^ e := zpow_pos (by norm_num) e

theorem pow_mul_zpow (n : Nat) (e : Int) : (10 : ℚ) ^ n * 10 ^ e = 10 ^ (n + e) := by
  rw [zpow_add₀ (by norm_num), zpow_natCast]

theorem scaled_spec (num : Nat) {den : Nat} (hden : 0 < den) (e : Int) :
    0 < (scaled num den e).2
      ∧ ((scaled num den e).1 : ℚ) = num / den * 10 ^ e * (scaled num den e).2 := by
  have hne : (den : ℚ) ≠ 0 := by exact_mod_cast hden.ne'
  cases e with
  | ofNat n =>
      refine ⟨hden, ?_⟩
      show ((num * 10 ^ n : Nat) : ℚ) = num / den * 10 ^ (n : Int) * den
      rw [zpow_natCast]
      push_cast
      field_simp
  | negSucc n =>
      refine ⟨Nat.mul_pos hden (Nat.pow_pos (by decide)), ?_⟩
      show (num : ℚ) = num / den * 10 ^ (Int.negSucc n) * (den * 10 ^ (n + 1) : Nat)
      rw [zpow_negSucc]
      push_cast
      field_simp

/-- Of two multiples of `10 ^ e`, the first is nearer to the magnitude, or as near and even. -/
def Preferred (k : Place) (e : Int) (c c' : Nat) : Prop :=
  |magnitude k - value ⟨c, e⟩| ≤ |magnitude k - value ⟨c', e⟩|
    ∧ (|magnitude k - value ⟨c, e⟩| = |magnitude k - value ⟨c', e⟩| → c' = c ∨ c % 2 = 0)

theorem preferred_self (k : Place) (e : Int) (c : Nat) : Preferred k e c c :=
  ⟨le_rfl, fun _ => Or.inl rfl⟩

theorem Preferred.trans {k : Place} {e : Int} {a b c : Nat} (hab : Preferred k e a b)
    (hbc : Preferred k e b c) : Preferred k e a c := by
  refine ⟨hab.1.trans hbc.1, fun htie => ?_⟩
  have hsame : |magnitude k - value ⟨a, e⟩| = |magnitude k - value ⟨b, e⟩| :=
    le_antisymm hab.1 (hbc.1.trans htie.symm.le)
  rcases hab.2 hsame with rfl | heven
  · exact hbc.2 htie
  · exact Or.inr heven

/-- How far past a multiple of `10 ^ e` a rational is, as a part of the way to the next one. -/
theorem exists_fraction {num den : Nat} {v : ℚ} {e : Int} (hden : 0 < den)
    (h : (num : ℚ) = v * 10 ^ (-e) * den) :
    ∃ f : ℚ, 0 ≤ f ∧ f < 1 ∧ v = ((num / den : Nat) + f) * 10 ^ e
      ∧ (2 * (num % den) < den ↔ 2 * f < 1) ∧ (2 * (num % den) = den ↔ 2 * f = 1) := by
  have hpos : (0 : ℚ) < den := by exact_mod_cast hden
  have hdiv : (den : ℚ) * (num / den : Nat) + (num % den : Nat) = num := by
    exact_mod_cast Nat.div_add_mod num den
  have hv : v = num / den * 10 ^ e := by
    rw [h, zpow_neg]
    field_simp
  refine ⟨(num % den : Nat) / den, by positivity, ?_, ?_, ?_, ?_⟩
  · rw [div_lt_one hpos]
    exact_mod_cast Nat.mod_lt num hden
  · rw [hv, ← hdiv]
    field_simp
  · rw [mul_div_assoc', div_lt_one hpos]
    exact_mod_cast Iff.rfl
  · rw [mul_div_assoc', div_eq_one_iff_eq hpos.ne']
    exact_mod_cast Iff.rfl

section Neighbours

variable {k : Place} {e : Int} {below : Nat} {f : ℚ} (hnonneg : 0 ≤ f) (hlt : f < 1)
  (hv : magnitude k = (below + f) * 10 ^ e)
include hnonneg hlt hv

theorem abs_sub_neighbours :
    |magnitude k - value ⟨below, e⟩| = f * 10 ^ e
      ∧ |magnitude k - value ⟨below + 1, e⟩| = (1 - f) * 10 ^ e := by
  have hpos := ten_zpow_pos e
  have hbelow : magnitude k - value ⟨below, e⟩ = f * 10 ^ e := by
    rw [hv, value]
    ring
  have habove : magnitude k - value ⟨below + 1, e⟩ = -((1 - f) * 10 ^ e) := by
    rw [hv, value]
    push_cast
    ring
  have hrest : 0 ≤ 1 - f := by linarith
  rw [hbelow, habove, abs_neg, abs_of_nonneg (by positivity), abs_of_nonneg (by positivity)]
  exact ⟨rfl, rfl⟩

theorem preferred_below (h : 2 * f < 1 ∨ 2 * f = 1 ∧ below % 2 = 0) :
    Preferred k e below (below + 1) := by
  obtain ⟨hbelow, habove⟩ := abs_sub_neighbours hnonneg hlt hv
  rw [Preferred, hbelow, habove, mul_le_mul_iff_left₀ (ten_zpow_pos e),
    mul_left_inj' (ten_zpow_pos e).ne']
  rcases h with h | ⟨h, heven⟩
  · exact ⟨by linarith, fun htie => absurd htie (by linarith)⟩
  · exact ⟨by linarith, fun _ => Or.inr heven⟩

theorem preferred_above (h : ¬ (2 * f < 1 ∨ 2 * f = 1 ∧ below % 2 = 0)) :
    Preferred k e (below + 1) below := by
  obtain ⟨hbelow, habove⟩ := abs_sub_neighbours hnonneg hlt hv
  rw [not_or, not_and, not_lt] at h
  rw [Preferred, hbelow, habove, mul_le_mul_iff_left₀ (ten_zpow_pos e),
    mul_left_inj' (ten_zpow_pos e).ne']
  refine ⟨by linarith [h.1], fun htie => Or.inr ?_⟩
  have := h.2 (by linarith)
  omega

end Neighbours

/-- What a grid is searched for. Only the two multiples around the magnitude are looked at. -/
theorem gridNeighbour?_cases (k : Place) (e : Int) :
    ∃ below, value ⟨below, e⟩ ≤ magnitude k ∧ magnitude k < value ⟨below + 1, e⟩
      ∧ ((gridNeighbour? k e = none ∧ ∀ c, c = below ∨ c = below + 1 →
            toDouble ⟨c, e⟩ ≠ .finite false k)
        ∨ ∃ c, gridNeighbour? k e = some ⟨c, e⟩ ∧ (c = below ∨ c = below + 1)
            ∧ toDouble ⟨c, e⟩ = .finite false k
            ∧ ∀ c', c' = below ∨ c' = below + 1 → toDouble ⟨c', e⟩ = .finite false k →
              Preferred k e c c') := by
  have hone : 0 < unitsInOne := by exact_mod_cast unitsInOne_pos
  obtain ⟨hden, hnum⟩ := scaled_spec (units k) hone (-e)
  rw [← magnitude_eq_div] at hnum
  unfold gridNeighbour?
  generalize scaled (units k) unitsInOne (-e) = ratio at hden hnum ⊢
  obtain ⟨num, den⟩ := ratio
  obtain ⟨f, hnonneg, hlt, hv, hless, htie⟩ := exists_fraction hden hnum
  dsimp only at hden hnum hv hless htie ⊢
  generalize hprefer :
    decide (2 * (num % den) < den ∨ 2 * (num % den) = den ∧ num / den % 2 = 0) = prefer
  have hprefer : prefer = true ↔ 2 * f < 1 ∨ 2 * f = 1 ∧ num / den % 2 = 0 := by
    rw [← hprefer, decide_eq_true_iff, hless, htie]
  generalize num / den = below at hv hprefer ⊢
  have hpos := ten_zpow_pos e
  refine ⟨below, ?_, ?_, ?_⟩
  · rw [hv, value]
    exact mul_le_mul_of_nonneg_right (by linarith) hpos.le
  · rw [hv, value]
    push_cast
    exact mul_lt_mul_of_pos_right (by linarith) hpos
  · by_cases hbelow : toDouble ⟨below, e⟩ = .finite false k
      <;> by_cases habove : toDouble ⟨below + 1, e⟩ = .finite false k
      <;> simp only [hbelow, habove, decide_true, decide_false]
    · right
      cases prefer with
      | true =>
          refine ⟨below, rfl, Or.inl rfl, hbelow, ?_⟩
          rintro c' (rfl | rfl) -
          · exact preferred_self k e c'
          · exact preferred_below hnonneg hlt hv (hprefer.mp rfl)
      | false =>
          refine ⟨below + 1, rfl, Or.inr rfl, habove, ?_⟩
          rintro c' (rfl | rfl) -
          · exact preferred_above hnonneg hlt hv (mt hprefer.mpr Bool.false_ne_true)
          · exact preferred_self k e _
    · refine Or.inr ⟨below, rfl, Or.inl rfl, hbelow, ?_⟩
      rintro c' (rfl | rfl) hc'
      · exact preferred_self k e c'
      · exact absurd hc' habove
    · refine Or.inr ⟨below + 1, rfl, Or.inr rfl, habove, ?_⟩
      rintro c' (rfl | rfl) hc'
      · exact absurd hc' hbelow
      · exact preferred_self k e _
    · refine Or.inl ⟨trivial, ?_⟩
      rintro c (rfl | rfl)
      · exact hbelow
      · exact habove

/-! ## All multiples of a grid -/

theorem value_le_iff (e : Int) {c c' : Nat} : value ⟨c, e⟩ ≤ value ⟨c', e⟩ ↔ c ≤ c' := by
  rw [value, value, mul_le_mul_iff_left₀ (ten_zpow_pos e), Nat.cast_le]

theorem value_inj {e : Int} {c c' : Nat} (h : value ⟨c, e⟩ = value ⟨c', e⟩) : c = c' :=
  Nat.le_antisymm ((value_le_iff e).mp h.le) ((value_le_iff e).mp h.ge)

section Side

variable {k : Place} {e : Int} {c c' : Nat} (hc : toDouble ⟨c, e⟩ = .finite false k)
include hc

theorem preferred_of_le (hle : c ≤ c') (hc' : value ⟨c', e⟩ ≤ magnitude k) :
    toDouble ⟨c', e⟩ = .finite false k ∧ Preferred k e c' c := by
  have hvalues := (value_le_iff e).mpr hle
  refine ⟨toDouble_of_le_magnitude hc hvalues hc', ?_⟩
  rw [Preferred, abs_of_nonneg (by linarith), abs_of_nonneg (by linarith)]
  exact ⟨by linarith, fun htie => Or.inl (value_inj (by linarith))⟩

theorem preferred_of_ge (hle : c' ≤ c) (hc' : magnitude k ≤ value ⟨c', e⟩) :
    toDouble ⟨c', e⟩ = .finite false k ∧ Preferred k e c' c := by
  have hvalues := (value_le_iff e).mpr hle
  refine ⟨toDouble_of_magnitude_le hc hc' hvalues, ?_⟩
  rw [Preferred, abs_of_nonpos (by linarith), abs_of_nonpos (by linarith)]
  exact ⟨by linarith, fun htie => Or.inl (value_inj (by linarith))⟩

end Side

/-- A grid without a neighbour has no multiple that becomes the magnitude, and the neighbour on
any other is preferred to all that do. -/
theorem gridNeighbour?_spec (k : Place) (e : Int) :
    (gridNeighbour? k e = none ∧ ∀ c, toDouble ⟨c, e⟩ ≠ .finite false k)
      ∨ ∃ c, gridNeighbour? k e = some ⟨c, e⟩ ∧ value ⟨c, e⟩ ≤ magnitude k + 10 ^ e
        ∧ ∀ c', toDouble ⟨c', e⟩ = .finite false k → Preferred k e c c' := by
  obtain ⟨below, hbelow, habove, hcases⟩ := gridNeighbour?_cases k e
  -- the neighbour on the same side lies between the multiple and the magnitude
  have hside (c : Nat) (hc : toDouble ⟨c, e⟩ = .finite false k) :
      ∃ c', (c' = below ∨ c' = below + 1) ∧ toDouble ⟨c', e⟩ = .finite false k
        ∧ Preferred k e c' c := by
    rcases Nat.lt_or_ge below c with hlt | hge
    · exact ⟨below + 1, Or.inr rfl, preferred_of_ge hc hlt habove.le⟩
    · exact ⟨below, Or.inl rfl, preferred_of_le hc hge hbelow⟩
  rcases hcases with ⟨hnone, hmiss⟩ | ⟨c, hsome, hplace, -, hbest⟩
  · refine Or.inl ⟨hnone, fun c hc => ?_⟩
    obtain ⟨c', hc', hread, -⟩ := hside c hc
    exact hmiss c' hc' hread
  · refine Or.inr ⟨c, hsome, ?_, fun c' hc' => ?_⟩
    · have hnext : value ⟨below + 1, e⟩ = value ⟨below, e⟩ + 10 ^ e := by
        simp only [value]
        push_cast
        ring
      have hle : c ≤ below + 1 := by omega
      linarith [(value_le_iff e).mpr hle]
    · obtain ⟨b, hb, hread, hpreferred⟩ := hside c' hc'
      exact (hbest b hb hread).trans hpreferred

/-! ## The first grid with a neighbour -/

theorem firstHit_cases (k : Place) (grids : Nat) (e : Int) :
    (∀ i < grids, gridNeighbour? k (e - i) = none)
      ∨ ∃ j < grids, gridNeighbour? k (e - j) = some (firstHit k grids e)
          ∧ ∀ i < j, gridNeighbour? k (e - i) = none := by
  induction grids generalizing e with
  | zero => exact Or.inl fun i hi => absurd hi (Nat.not_lt_zero i)
  | succ grids ih =>
      rw [firstHit]
      split
      · rename_i d hd
        refine Or.inr ⟨0, Nat.succ_pos _, ?_, fun i hi => absurd hi (Nat.not_lt_zero i)⟩
        rw [← hd, Nat.cast_zero, sub_zero]
      · rename_i hnone
        have hmisses {n : Nat} (h : ∀ i < n, gridNeighbour? k (e - 1 - i) = none) :
            ∀ i < n + 1, gridNeighbour? k (e - i) = none := by
          intro i hi
          cases i with
          | zero => rw [← hnone, Nat.cast_zero, sub_zero]
          | succ i =>
              rw [← h i (Nat.lt_of_succ_lt_succ hi)]
              congr 1
              push_cast
              ring
        rcases ih (e - 1) with hall | ⟨j, hj, hhit, hbefore⟩
        · exact Or.inl (hmisses hall)
        · refine Or.inr ⟨j + 1, Nat.succ_lt_succ hj, ?_, hmisses hbefore⟩
          rw [← hhit]
          congr 1
          push_cast
          ring

/-! ## The first digit -/

theorem leadingZeros_spec (bound : Nat) {num den : Nat} (hlt : num < den) :
    num * 10 ^ leadingZeros bound num den < den
      ∧ (den ≤ num * 10 ^ (leadingZeros bound num den + 1)
        ∨ leadingZeros bound num den = bound) := by
  induction bound generalizing num with
  | zero => exact ⟨by rwa [leadingZeros, pow_zero, Nat.mul_one], Or.inr rfl⟩
  | succ bound ih =>
      rw [leadingZeros]
      split
      · rename_i hmore
        obtain ⟨hbelow, habove⟩ := ih hmore
        generalize leadingZeros bound (10 * num) den = zeros at hbelow habove ⊢
        have hshift (n : Nat) : num * 10 ^ (n + 1) = 10 * num * 10 ^ n := by ring
        rw [hshift, hshift]
        exact ⟨hbelow, habove.imp_right (congrArg (· + 1))⟩
      · rename_i hless
        refine ⟨by rwa [pow_zero, Nat.mul_one], Or.inl ?_⟩
        rw [Nat.zero_add, pow_one]
        omega

/-- A natural has as many digits as it takes. -/
theorem exists_length_repr {n : Nat} (hn : n ≠ 0) :
    ∃ l, n.repr.length = l + 1 ∧ 10 ^ l ≤ n ∧ n < 10 ^ (l + 1) := by
  have hlength : n.repr.length = (Nat.toDigits 10 n).length := by
    rw [← Nat.toList_repr, String.length_toList]
  obtain ⟨l, hl⟩ := Nat.exists_eq_succ_of_ne_zero
    (hlength ▸ Nat.length_toDigits_pos : 0 < n.repr.length).ne'
  rw [hl] at hlength
  refine ⟨l, hl, Nat.le_of_not_lt fun hlt => ?_, ?_⟩
  · rcases Nat.eq_zero_or_pos l with rfl | hmore
    · omega
    · have := (Nat.length_toDigits_le_iff (by decide) hmore).mpr hlt
      omega
  · exact (Nat.length_toDigits_le_iff (by decide) (Nat.succ_pos l)).mp hlength.ge

theorem unitsInOne_lt_pow : unitsInOne < 10 ^ 400 := by
  obtain ⟨p, hp, hunits⟩ := exists_unitsInOne_eq_pow
  obtain ⟨n, hn⟩ : ∃ n, n = 400 := ⟨_, rfl⟩
  rw [hunits, ← hn]
  calc 2 ^ p < 2 ^ (3 * n) := Nat.pow_lt_pow_right (by decide) (by omega)
    _ = 8 ^ n := pow_mul 2 3 n
    _ ≤ 10 ^ n := Nat.pow_le_pow_left (by decide) n

/-- The first digit of a magnitude stands right behind its point position. -/
theorem pointPosition_spec {k : Place} (hk : k.val ≠ 0) :
    (10 : ℚ) ^ (pointPosition (units k) unitsInOne - 1) ≤ magnitude k
      ∧ magnitude k < 10 ^ pointPosition (units k) unitsInOne := by
  have hden : (0 : ℚ) < unitsInOne := unitsInOne_pos
  have hnum : 0 < units k := Nat.pos_of_ne_zero (units_ne_zero hk)
  have hlarge := unitsInOne_lt_pow
  rw [magnitude_eq_div, le_div_iff₀ hden, div_lt_iff₀ hden, pointPosition]
  generalize unitsInOne = den at hden hlarge ⊢
  generalize units k = num at hnum ⊢
  have hden' : 0 < den := by exact_mod_cast hden
  split
  · rename_i hle
    obtain ⟨l, hl, hlow, hhigh⟩ := exists_length_repr (Nat.div_pos hle hden').ne'
    rw [Nat.le_div_iff_mul_le hden'] at hlow
    rw [Nat.div_lt_iff_lt_mul hden'] at hhigh
    rw [hl, Nat.cast_succ, add_sub_cancel_right, ← Nat.cast_succ, zpow_natCast, zpow_natCast]
    exact ⟨by exact_mod_cast hlow, by exact_mod_cast hhigh⟩
  · rename_i hlt
    obtain ⟨hbelow, habove⟩ := leadingZeros_spec 400 (Nat.lt_of_not_le hlt)
    generalize leadingZeros 400 num den = zeros at hbelow habove ⊢
    have habove : den ≤ num * 10 ^ (zeros + 1) := by
      refine habove.resolve_right fun hzeros => ?_
      rw [hzeros] at hbelow
      exact absurd (hbelow.trans hlarge) (Nat.not_lt.mpr (Nat.le_mul_of_pos_left _ hnum))
    have hfirst : -(zeros : Int) - 1 = -((zeros + 1 : Nat) : Int) := by push_cast; ring
    rw [hfirst, zpow_neg, zpow_neg, zpow_natCast, zpow_natCast, inv_mul_le_iff₀ (by positivity),
      lt_inv_mul_iff₀ (by positivity), mul_comm _ (num : ℚ), mul_comm _ (num : ℚ)]
    exact ⟨by exact_mod_cast habove, by exact_mod_cast hbelow⟩

/-! ## Seventeen digits -/

/-- The gap between two magnitudes is a part of them that is not too small. -/
theorem magnitude_le_gap (place : Nat) :
    magnitude (place + 1) ≤ 2 ^ 53 * (magnitude (place + 1) - magnitude place) := by
  obtain ⟨shift, r, rfl, hlow, hhigh⟩ := exists_grid place
  have hnext : ((r + 1 : Nat) : ℚ) ≤ 2 ^ 53 := by exact_mod_cast hhigh
  rw [magnitude_eq_div, magnitude_eq_div, ← sub_div, mul_div_assoc',
    div_le_div_iff_of_pos_right unitsInOne_pos, Nat.add_assoc, units_grid (by omega) hhigh,
    units_grid hlow hhigh.le]
  push_cast at hnext ⊢
  calc ((r : ℚ) + 1) * 2 ^ shift ≤ 2 ^ 53 * 2 ^ shift := by gcongr
    _ = 2 ^ 53 * ((r + 1) * 2 ^ shift - r * 2 ^ shift) := by ring

/-- A decimal becomes a magnitude if it is between the middles around it. -/
theorem toDouble_of_middles {d : Decimal} {k : Place} {j : Nat} (hk : k.val = j + 1)
    (hlow : magnitude j + magnitude k < 2 * d.value)
    (hhigh : 2 * d.value < magnitude k + magnitude (k + 1)) : d.toDouble = .finite false k := by
  have hpast := lt_nearest_iff_magnitude d.den_pos d.value_mul_units
  have hj : j < nearest (d.num * unitsInOne) d.den := (hpast j).mpr (Or.inl (hk ▸ hlow))
  have hk' : ¬ k.val < nearest (d.num * unitsInOne) d.den := by
    rw [hpast]
    rintro (h | ⟨h, -⟩) <;> linarith
  rw [toDouble_eq]
  exact ofUnits_of_lt (by omega)

/-- Some multiple of `10 ^ e` is not further away than half of it. -/
theorem exists_nearest_multiple {v : ℚ} (hv : 0 ≤ v) (e : Int) :
    ∃ c, 2 * v - 10 ^ e < 2 * value ⟨c, e⟩ ∧ 2 * value ⟨c, e⟩ ≤ 2 * v + 10 ^ e := by
  have hpos := ten_zpow_pos e
  have hfloor := Nat.floor_le (by positivity : 0 ≤ v / 10 ^ e + 1 / 2)
  have hnext := Nat.lt_floor_add_one (v / 10 ^ e + 1 / 2)
  refine ⟨⌊v / 10 ^ e + 1 / 2⌋₊, ?_, ?_⟩
  all_goals
    rw [value]
    generalize ((⌊v / 10 ^ e + 1 / 2⌋₊ : Nat) : ℚ) = c at hfloor hnext ⊢
  · have hscaled := mul_lt_mul_of_pos_right hnext hpos
    rw [add_mul, div_mul_cancel₀ _ hpos.ne'] at hscaled
    linarith
  · have hscaled := mul_le_mul_of_nonneg_right hfloor hpos.le
    rw [add_mul, div_mul_cancel₀ _ hpos.ne'] at hscaled
    linarith

/-- Seventeen digits are enough: the decimals that have them are closer together than the
magnitudes. -/
theorem exists_toDouble_of_seventeen {k : Place} (hk : k.val ≠ 0) {e : Int}
    (he : 10 ^ 16 * 10 ^ e ≤ magnitude k) : ∃ c, toDouble ⟨c, e⟩ = .finite false k := by
  obtain ⟨j, hj⟩ : ∃ j, k.val = j + 1 := Nat.exists_eq_succ_of_ne_zero hk
  obtain ⟨c, hlow, hhigh⟩ := exists_nearest_multiple (magnitude_nonneg k) e
  have hpos := ten_zpow_pos e
  have hbelow := magnitude_le_gap j
  have habove := magnitude_le_gap k
  have hmono := magnitude_strictMono (Nat.lt_add_one k.val)
  rw [← hj] at hbelow
  exact ⟨c, toDouble_of_middles hj (by linarith) (by linarith)⟩

end Double

/-! ## Significant digits -/

namespace Decimal

theorem toDigits_mul_pow {m : Nat} (hm : 0 < m) (t : Nat) :
    Nat.toDigits 10 (m * 10 ^ t) = Nat.toDigits 10 m ++ List.replicate t '0' := by
  induction t with
  | zero => rw [pow_zero, Nat.mul_one, List.replicate_zero, List.append_nil]
  | succ t ih =>
      have hpos : 0 < m * 10 ^ t := Nat.mul_pos hm (Nat.pow_pos (by decide))
      have hnext : m * 10 ^ (t + 1) = 10 * (m * 10 ^ t) + 0 := by ring
      rw [hnext, ← Nat.toDigits_append_toDigits (by decide) hpos (by decide), ih,
        List.append_assoc, List.replicate_succ', Nat.toDigits_zero]

theorem length_dropEndWhile_le (cs : List Char) (n : Nat) :
    (Text.dropEndWhile (· == '0') (cs ++ List.replicate n '0')).length ≤ cs.length := by
  have hzeros : ∀ c ∈ List.replicate n '0', (c == '0') = true := fun c hc => by
    rw [List.eq_of_mem_replicate hc]
    rfl
  rw [Text.dropEndWhile, List.reverse_append, List.reverse_replicate,
    List.dropWhile_append_of_pos hzeros, List.length_reverse]
  exact (List.length_dropWhile_le _ _).trans List.length_reverse.le

/-- A decimal has at most so many significant digits if it takes no more of them to write its
coefficient, up to zeros at the end. -/
theorem length_significant_le_iff {d : Decimal} (hd : d.coefficient ≠ 0) {s : Nat} :
    d.significant.1.length ≤ s ↔ ∃ m t, d.coefficient = m * 10 ^ t ∧ m < 10 ^ s := by
  obtain ⟨c, e⟩ := d
  have hdigits : c.repr.toList = Nat.toDigits 10 c := Nat.toList_repr
  simp only [significant, hdigits]
  constructor
  · intro h
    obtain ⟨n, hn⟩ := exists_eq_append_zeros (Nat.toDigits 10 c)
    have hvalue := congrArg numeral hn
    rw [← hdigits, numeral_repr, hdigits, numeral_append_zeros] at hvalue
    have hlt := (Nat.length_toDigits_le_iff (by decide) Nat.length_toDigits_pos).mp
      (Nat.le_refl (Nat.toDigits 10 c).length)
    have hlength := congrArg List.length hn
    rw [List.length_append, List.length_replicate] at hlength
    rw [hlength, pow_add] at hlt
    generalize Text.dropEndWhile (· == '0') (Nat.toDigits 10 c) = digits at h hvalue hlt
    rw [hvalue] at hlt
    refine ⟨numeral digits, n, hvalue, (Nat.lt_of_mul_lt_mul_right hlt).trans_le ?_⟩
    exact Nat.pow_le_pow_right (by decide) h
  · rintro ⟨m, t, rfl, hm⟩
    have hpos : 0 < m := Nat.pos_of_ne_zero fun h => hd (by rw [h, Nat.zero_mul])
    have hs : 0 < s := Nat.pos_of_ne_zero fun h => by
      rw [h, pow_zero] at hm
      omega
    rw [toDigits_mul_pow hpos]
    exact (length_dropEndWhile_le _ t).trans ((Nat.length_toDigits_le_iff (by decide) hs).mpr hm)

theorem length_significant_pos {d : Decimal} (hd : d.coefficient ≠ 0) :
    0 < d.significant.1.length := by
  by_contra hlength
  obtain ⟨m, t, hc, hm⟩ := (length_significant_le_iff hd).mp (Nat.le_of_not_lt hlength)
  rw [pow_zero, Nat.lt_one_iff] at hm
  exact hd (by rw [hc, hm, Nat.zero_mul])

theorem value_mul_pow (m n : Nat) (e : Int) : value ⟨m * 10 ^ n, e⟩ = value ⟨m, e + n⟩ := by
  simp only [value]
  rw [zpow_add₀ (by norm_num), zpow_natCast]
  push_cast
  ring

end Decimal

/-! ## The shortest decimal -/

namespace Double

/-- The decimal becomes the magnitude, no decimal with fewer significant digits does, and none
with as many that does is nearer to the magnitude, or as near if the coefficient is odd. -/
structure IsShortest (k : Place) (d : Decimal) : Prop where
  becomes : d.toDouble = .finite false k
  fewest : ∀ d' : Decimal, d'.toDouble = .finite false k →
    d.significant.1.length ≤ d'.significant.1.length
  nearest : ∀ d' : Decimal, d'.toDouble = .finite false k →
    d'.significant.1.length = d.significant.1.length →
      |magnitude k - d.value| ≤ |magnitude k - d'.value|
        ∧ (|magnitude k - d.value| = |magnitude k - d'.value| →
          d'.value = d.value ∨ d.coefficient % 2 = 0)

section

variable {k : Place} (hk : k.val ≠ 0)
include hk

/-- What has at most `s` significant digits and becomes the magnitude ends with the `s`-th digit
of the magnitude or before. Or else it is less than the first digit alone, which then is
nearer. -/
theorem exists_on_grid {d : Decimal} (h : d.toDouble = .finite false k) {s : Nat}
    (hs : d.significant.1.length ≤ s) :
    ∃ c, let d' : Decimal := ⟨c, pointPosition (units k) unitsInOne - s⟩
      d'.toDouble = .finite false k
        ∧ (d'.value = d.value ∨ |magnitude k - d'.value| < |magnitude k - d.value|) := by
  obtain ⟨hfirst, -⟩ := pointPosition_spec hk
  have hne := coefficient_ne_zero hk h
  obtain ⟨m, t, hc, hm⟩ := (length_significant_le_iff hne).mp hs
  generalize pointPosition (units k) unitsInOne = p at hfirst ⊢
  have hvalue : d.value = value ⟨m, d.exponent + t⟩ := by
    rw [← value_mul_pow, ← hc]
  rcases Int.lt_or_le (d.exponent + t) (p - s) with hlt | hle
  · obtain ⟨n, rfl⟩ := Nat.exists_eq_succ_of_ne_zero
      ((length_significant_pos hne).trans_le hs).ne'
    have hdigit : value ⟨1 * 10 ^ n, p - (n + 1 : Nat)⟩ = 10 ^ (p - 1) := by
      have hexponent : p - (n + 1 : Nat) + n = p - 1 := by omega
      rw [value_mul_pow, hexponent, value, Nat.cast_one, one_mul]
    have hless : d.value < 10 ^ (p - 1) := by
      calc d.value = m * 10 ^ (d.exponent + t) := hvalue
        _ < 10 ^ (n + 1) * 10 ^ (d.exponent + t) := by
          refine mul_lt_mul_of_pos_right ?_ (ten_zpow_pos _)
          exact_mod_cast hm
        _ = 10 ^ ((n + 1 : Nat) + (d.exponent + t)) := pow_mul_zpow _ _
        _ ≤ 10 ^ (p - 1) := zpow_le_zpow_right₀ (by norm_num) (by omega)
    refine ⟨1 * 10 ^ n, toDouble_of_le_magnitude h ?_ ?_, Or.inr ?_⟩
    · rw [hdigit]
      exact hless.le
    · rw [hdigit]
      exact hfirst
    · rw [hdigit, abs_of_nonneg (by linarith), abs_of_nonneg (by linarith)]
      linarith
  · obtain ⟨n, hn⟩ := Int.le.dest hle
    have hsame : value ⟨m * 10 ^ n, p - s⟩ = d.value := by rw [value_mul_pow, hn, hvalue]
    have hrounded : IsRounded d.value (toDouble ⟨m * 10 ^ n, p - s⟩) :=
      hsame ▸ toDouble_isRounded _
    exact ⟨m * 10 ^ n, (hrounded.unique d.toDouble_isRounded).trans h, Or.inl hsame⟩

/-- Where the search stops: at one of seventeen grids, with no hit on those before. -/
theorem exists_shortest_eq :
    ∃ j < 17, ∃ c, let p := pointPosition (units k) unitsInOne
      shortest k = ⟨c, p - (j + 1 : Nat)⟩ ∧ c ≤ 10 ^ (j + 1)
        ∧ (∀ c', toDouble ⟨c', p - (j + 1 : Nat)⟩ = .finite false k →
            Preferred k (p - (j + 1 : Nat)) c c')
        ∧ ∀ s, 0 < s → s ≤ j → ∀ c', toDouble ⟨c', p - s⟩ ≠ .finite false k := by
  obtain ⟨hfirst, hlast⟩ := pointPosition_spec hk
  unfold shortest
  generalize pointPosition (units k) unitsInOne = p at hfirst hlast ⊢
  have hgrid (s : Nat) : p - 1 - s = p - (s + 1 : Nat) := by push_cast; ring
  have hmiss (s : Nat) (h : gridNeighbour? k (p - 1 - s) = none) (c : Nat) :
      toDouble ⟨c, p - (s + 1 : Nat)⟩ ≠ .finite false k := by
    rw [← hgrid]
    rcases gridNeighbour?_spec k (p - 1 - s) with ⟨-, hnone⟩ | ⟨c', hsome, -⟩
    · exact hnone c
    · rw [h] at hsome
      cases hsome
  rcases firstHit_cases k 17 (p - 1) with hall | ⟨j, hj, hhit, hbefore⟩
  · have hexponent : ((16 : Nat) : Int) + (p - (16 + 1 : Nat)) = p - 1 := by push_cast; ring
    obtain ⟨c, hc⟩ := exists_toDouble_of_seventeen hk
      ((pow_mul_zpow 16 _).trans_le (hexponent.symm ▸ hfirst))
    exact absurd hc (hmiss 16 (hall 16 (by decide)) c)
  · rw [hgrid] at hhit
    rcases gridNeighbour?_spec k (p - (j + 1 : Nat)) with ⟨hnone, -⟩ | ⟨c, hsome, hvalue, hbest⟩
    · rw [hnone] at hhit
      cases hhit
    · rw [hsome] at hhit
      refine ⟨j, hj, c, (Option.some.inj hhit).symm, ?_, hbest, fun s hs hle => ?_⟩
      · have hexponent : ((j + 1 : Nat) : Int) + (p - (j + 1 : Nat)) = p := by ring
        have hend : value ⟨10 ^ (j + 1) + 1, p - (j + 1 : Nat)⟩
            = 10 ^ p + 10 ^ (p - (j + 1 : Nat)) := by
          rw [value]
          push_cast
          rw [add_mul, one_mul]
          congr 1
          exact_mod_cast (pow_mul_zpow (j + 1) _).trans (by rw [hexponent])
        by_contra hgt
        have hvalues := (value_le_iff (p - (j + 1 : Nat))).mpr (Nat.succ_le_of_lt (not_le.mp hgt))
        linarith
      · obtain ⟨i, rfl⟩ := Nat.exists_eq_succ_of_ne_zero hs.ne'
        exact hmiss i (hbefore i hle)

/-- **The decimal that is written is the shortest.** It becomes the magnitude it was found for.
No decimal with fewer significant digits does, and of those with as many it is the nearest one,
or an even one if two are as near. There are never more than seventeen digits. -/
theorem shortest_isShortest :
    IsShortest k (shortest k) ∧ (shortest k).significant.1.length ≤ 17 := by
  obtain ⟨j, hj, c, hshortest, hc, hbest, hmiss⟩ := exists_shortest_eq hk
  have hread := toDouble_shortest k
  have hlength : (shortest k).significant.1.length ≤ j + 1 := by
    refine (length_significant_le_iff (coefficient_ne_zero hk hread)).mpr ?_
    rw [hshortest]
    rcases hc.eq_or_lt with hpow | hlt
    · exact ⟨1, j + 1, hpow.trans (Nat.one_mul _).symm, Nat.one_lt_pow (by omega) (by decide)⟩
    · exact ⟨c, 0, (Nat.mul_one c).symm, hlt⟩
  refine ⟨⟨hread, fun d hd => ?_, fun d hd hsame => ?_⟩, hlength.trans hj⟩
  · by_contra hfewer
    obtain ⟨c', hread', -⟩ := exists_on_grid hk hd (Nat.le_refl _)
    exact hmiss _ (length_significant_pos (coefficient_ne_zero hk hd)) (by omega) c' hread'
  · obtain ⟨c', hread', hcases⟩ := exists_on_grid hk hd (hsame.trans_le hlength)
    obtain ⟨hnear, htie⟩ := hbest c' hread'
    have hcoefficient : (shortest k).coefficient = c := congrArg coefficient hshortest
    rw [← hshortest] at hnear htie
    rw [hcoefficient]
    rcases hcases with hvalue | hnearer
    · rw [hvalue] at hnear htie
      refine ⟨hnear, fun heq => (htie heq).imp_left fun hcc => ?_⟩
      rw [← hvalue, hcc, ← hshortest]
    · exact ⟨hnear.trans hnearer.le, fun heq => absurd heq (hnear.trans_lt hnearer).ne⟩

end

end Double

end TinyLisp
