import TinyLisp.Proofs.Magnitudes
import TinyLisp.Proofs.Numerals

/-!
# Numbers as integers

A number is made an integer in two places: as the status of an exit, where what is behind the
point is cut off, and when it is printed, if there is nothing behind the point. Both take the
exact value of the number, however large its exponent is. The headline is
`exit_status_is_exact`.
-/

namespace TinyLisp

open Decimal

/-- A rational without what is behind its point. -/
def towardZero (q : ℚ) : Int := if 0 ≤ q then ⌊q⌋ else ⌈q⌉

theorem towardZero_intCast (n : Int) : towardZero n = n := by
  rw [towardZero, Int.floor_intCast, Int.ceil_intCast, ite_self]

theorem towardZero_of_nonneg {q : ℚ} (h : 0 ≤ q) : towardZero q = ⌊q⌋ := if_pos h

theorem towardZero_neg {q : ℚ} (h : 0 ≤ q) : towardZero (-q) = -⌊q⌋ := by
  rw [towardZero, Int.ceil_neg]
  split
  · rename_i hneg
    obtain rfl : q = 0 := by linarith
    rw [neg_zero, Int.floor_zero, neg_zero]
  · rfl

namespace Double

/-! ## Cutting off -/

theorem floor_magnitude (place : Nat) : ⌊magnitude place⌋ = (units place / unitsInOne : Nat) := by
  rw [magnitude_eq_div, Rat.floor_natCast_div_natCast, Int.natCast_div]

theorem truncate?_finite (s : Bool) (k : Place) :
    truncate? (.finite s k) = some (towardZero ((-1) ^ s.toNat * magnitude k)) := by
  cases s with
  | false =>
      rw [Bool.toNat_false, pow_zero, one_mul, towardZero_of_nonneg (magnitude_nonneg k),
        floor_magnitude]
      rfl
  | true =>
      rw [Bool.toNat_true, pow_one, neg_one_mul, towardZero_neg (magnitude_nonneg k),
        floor_magnitude]
      rfl

theorem isIntegral_of_value {s : Bool} {k : Place} {n : Int}
    (h : (-1) ^ s.toNat * magnitude k = n) : isIntegral (.finite s k) = true := by
  have hmagnitude : magnitude k = (n.natAbs : ℚ) := by
    rw [← Int.cast_natCast, Int.natCast_natAbs, Int.cast_abs, ← h, abs_mul, abs_neg_one_pow,
      one_mul, abs_of_nonneg (magnitude_nonneg k)]
  have hunits : units k = n.natAbs * unitsInOne := by
    have hscaled := magnitude_mul_unitsInOne k
    rw [hmagnitude] at hscaled
    exact_mod_cast hscaled.symm
  rw [isIntegral_iff, hunits, Nat.mul_mod_left]

theorem text_of_value {s : Bool} {k : Place} {n : Int} (h : (-1) ^ s.toNat * magnitude k = n) :
    text (.finite s k) = n.repr := by
  rw [text, if_pos (isIntegral_of_value h), truncate?_finite, h, towardZero_intCast]

end Double

/-! ## Decimal numerals -/

/-- The characters are the decimal numeral of an integer: its digits in full, after a sign if it
is negative. -/
def IsDecimal (n : Int) (cs : List Char) : Prop :=
  ∃ ds, cs = (if n < 0 then ['-'] else []) ++ ds ∧ IsDigits ds ∧ numeral ds = n.natAbs
    ∧ ds.length = Nat.log 10 n.natAbs + 1

theorem length_repr (n : Nat) : n.repr.toList.length = Nat.log 10 n + 1 := by
  have hle {m : Nat} (hm : 0 < m) := @Nat.length_toDigits_le_iff 10 n m (by decide) hm
  rw [Nat.toList_repr]
  refine Nat.le_antisymm ((hle (Nat.succ_pos _)).mpr (Nat.lt_pow_succ_log_self (by decide) n)) ?_
  by_contra hshort
  rw [Nat.not_le, Nat.lt_succ_iff] at hshort
  have hlog : 0 < Nat.log 10 n :=
    (List.length_pos_of_ne_nil Nat.toDigits_ne_nil).trans_le hshort
  have hne : n ≠ 0 := by
    rintro rfl
    rw [Nat.log_zero_right] at hlog
    exact lt_irrefl 0 hlog
  exact absurd ((hle hlog).mp hshort) (Nat.not_lt.mpr (Nat.pow_log_le_self 10 hne))

theorem isDecimal_repr (n : Int) : IsDecimal n n.repr.toList := by
  refine ⟨n.natAbs.repr.toList, ?_, isDigits_repr _, numeral_repr _, length_repr _⟩
  cases n with
  | ofNat m => rfl
  | negSucc m =>
      rw [if_pos (Int.negSucc_lt_zero m)]
      show ("-" ++ (m + 1).repr).toList = _
      rw [String.toList_append]
      rfl

/-- **Exits and printed integers show the exact value.** A finite number with the given sign and
place has an exact value. The status of an exit with that number is the value without what is
behind its point. If there is nothing behind it, then the number is printed as the decimal
numeral of the value in full, which is also how the status is written. The status of an exit with
infinity or NaN is one. -/
theorem exit_status_is_exact (walk : EnvId → Expr → Action Expr) :
    (∀ (s : Bool) (k : Double.Place),
        let x : Double := .finite s k
        let q : ℚ := (-1) ^ s.toNat * (Double.significand k * 2 ^ Double.exponent k)
        applyOperation walk .exit [.number x] = .stop (.exit (towardZero q))
          ∧ ∀ n : Int, q = n → IsDecimal n x.text.toList ∧ towardZero q = n
              ∧ (towardZero q).repr = x.text)
      ∧ ∀ x : Double, (∀ s k, x ≠ .finite s k) →
          applyOperation walk .exit [.number x] = .stop (.exit 1) := by
  refine ⟨fun s k => ⟨?_, fun n hn => ?_⟩, fun x hx => ?_⟩
  · show Action.stop (.exit ((Double.truncate? (.finite s k)).getD 1)) = _
    rw [Double.truncate?_finite]
    rfl
  · have htext : Double.text (.finite s k) = n.repr := Double.text_of_value hn
    rw [hn, towardZero_intCast, htext]
    exact ⟨isDecimal_repr n, rfl, rfl⟩
  · cases x with
    | finite s k => exact absurd rfl (hx s k)
    | infinite | nan => rfl

/-- The status of minus one and a half is cut off toward zero, the largest power of two is printed
in full with a sign before it, and infinity stands for failure. -/
theorem exit_status_is_exact_large :
    let walk : EnvId → Expr → Action Expr := fun _ _ => .stop .interrupted
    let fraction : Double := .finite true ⟨1023 * 2 ^ 52 + 2 ^ 51, by decide⟩
    let large : Double := .finite true ⟨2046 * 2 ^ 52, by decide⟩
    applyOperation walk .exit [.number fraction] = .stop (.exit (-1))
      ∧ applyOperation walk .exit [.number large] = .stop (.exit (-2 ^ 1023))
      ∧ IsDecimal (-2 ^ 1023) large.text.toList
      ∧ applyOperation walk .exit [.number (.infinite true)] = .stop (.exit 1) := by
  intro walk fraction large
  obtain ⟨hfinite, hother⟩ := exit_status_is_exact walk
  have hfields : Double.significand (1023 * 2 ^ 52 + 2 ^ 51) = 2 ^ 52 + 2 ^ 51
      ∧ Double.exponent (1023 * 2 ^ 52 + 2 ^ 51) = -52 := by decide
  have hcut : towardZero ((-1) ^ true.toNat
      * (Double.significand (1023 * 2 ^ 52 + 2 ^ 51)
        * 2 ^ Double.exponent (1023 * 2 ^ 52 + 2 ^ 51))) = -1 := by
    rw [hfields.1, hfields.2, towardZero]
    norm_num
  have hpower : Double.significand (2046 * 2 ^ 52) = 2 ^ 52
      ∧ Double.exponent (2046 * 2 ^ 52) = 971 := by decide
  have hvalue : (-1 : ℚ) ^ true.toNat * (Double.significand (2046 * 2 ^ 52)
      * 2 ^ Double.exponent (2046 * 2 ^ 52)) = ((-2 ^ 1023 : Int) : ℚ) := by
    rw [hpower.1, hpower.2, zpow_ofNat, Bool.toNat_true, pow_one, neg_one_mul, Nat.cast_pow,
      Nat.cast_ofNat, ← pow_add, Int.cast_neg, Int.cast_pow, Int.cast_ofNat]
  obtain ⟨hstatus, -⟩ := hfinite true ⟨1023 * 2 ^ 52 + 2 ^ 51, by decide⟩
  obtain ⟨hstatus', hprinted⟩ := hfinite true ⟨2046 * 2 ^ 52, by decide⟩
  obtain ⟨hdecimal, hsame, -⟩ := hprinted (-2 ^ 1023) hvalue
  rw [hcut] at hstatus
  rw [hsame] at hstatus'
  exact ⟨hstatus, hstatus', hdecimal, hother _ nofun⟩

end TinyLisp
