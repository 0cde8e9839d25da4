import Mathlib
import TinyLisp.Number.Decimal

/-!
# The notation of numbers

`Decimal.WrittenAs` says what it means to write a decimal down: a run of digits, perhaps a
point and more digits, perhaps an exponent, where single underscores may stand between the
digits of a run and the digits may be of any script. Nothing is said about how this is read.

The reader accepts exactly the notation of decimals, with blanks behind it
(`ofChars?_eq_some_iff`). So characters denote one decimal at most.
-/

namespace TinyLisp

open Text

namespace Text

theorem digit?_eq_some {c : Char} {d : Nat} (h : digit? c = some d) :
    ∃ start ∈ digitZeros, c.toNat = start + d ∧ d < 10 := by
  obtain ⟨start, hfind, rfl⟩ := Option.map_eq_some_iff.mp h
  have hrange := List.find?_some hfind
  simp only [Bool.and_eq_true, decide_eq_true_eq] at hrange
  exact ⟨start, List.mem_of_find?_eq_some hfind, by omega, by omega⟩

theorem isAsciiDigit_eq (c : Char) : isAsciiDigit c = c.isDigit := rfl

theorem digit?_of_isDigit {c : Char} (h : c.isDigit = true) :
    digit? c = some (c.toNat - '0'.toNat) := by
  obtain ⟨hlow, hhigh⟩ := Char.isDigit_iff_toNat.mp h
  have hlow : 48 ≤ c.toNat := hlow
  have hhigh : c.toNat < 48 + 10 := Nat.lt_succ_of_le hhigh
  simp [digit?, digitZeros, hlow, hhigh]

theorem isBlank_of_digit? {c : Char} {d : Nat} (h : digit? c = some d) : isBlank c = false := by
  have htable : ∀ start ∈ digitZeros, ∀ n < 10, isBlank (Char.ofNat (start + n)) = false := by
    decide
  obtain ⟨start, hstart, hc, hd⟩ := digit?_eq_some h
  rw [← Char.ofNat_toNat c, hc]
  exact htable start hstart d hd

/-- The information separators. They are blanks, but none that may follow a number. -/
def separators : List Char := ['\u001c', '\u001d', '\u001e', '\u001f']

/-- The blanks that may follow a number. -/
def isTrailing (c : Char) : Bool := isBlank c && !separators.contains c

theorem mem_separators_iff {c : Char} : c ∈ separators ↔ 0x1c ≤ c.toNat ∧ c.toNat ≤ 0x1f := by
  constructor
  · intro h
    simp only [separators, List.mem_cons, List.not_mem_nil, or_false] at h
    rcases h with rfl | rfl | rfl | rfl <;> decide
  · rintro ⟨hlow, hhigh⟩
    have htable : ∀ n < 4, Char.ofNat (0x1c + n) ∈ separators := by decide
    have hc := htable (c.toNat - 0x1c) (by omega)
    rwa [Nat.add_sub_cancel' hlow, Char.ofNat_toNat] at hc

theorem isPadding_eq (c : Char) : Decimal.isPadding c = isTrailing c := by
  rw [Decimal.isPadding, isTrailing, Bool.eq_iff_iff]
  simp [mem_separators_iff]

end Text

namespace Decimal

/-! ## Runs of digits -/

/-- The characters continue a run of digits: digits, each perhaps after an underscore. -/
inductive IsMore : List Char → Prop where
  | nil : IsMore []
  | digit {c : Char} {d : Nat} {w : List Char} (hc : digit? c = some d) (h : IsMore w) :
      IsMore (c :: w)
  | marked {c : Char} {d : Nat} {w : List Char} (hc : digit? c = some d) (h : IsMore w) :
      IsMore ('_' :: c :: w)

inductive IsRun : List Char → Prop where
  | intro {c : Char} {d : Nat} {w : List Char} (hc : digit? c = some d) (h : IsMore w) :
      IsRun (c :: w)

/-- The natural with the given decimal digits, the last of them being the units. -/
def rowValue (ds : List Nat) : Nat := Nat.ofDigits 10 ds.reverse

theorem ofDigits_eq_rowValue (ds : List Nat) : ofDigits ds = rowValue ds := by
  rw [rowValue, Nat.ofDigits_eq_foldr, List.foldr_reverse, ofDigits]
  simp only [Nat.cast_id, Nat.add_comm]

/-- What may follow a run of digits: nothing, a point or an exponent. -/
def Halts (rest : List Char) : Prop := ∀ c ∈ rest.head?, c ∈ ['.', 'e', 'E']

theorem halts_nil : Halts [] := fun _ h => nomatch h

theorem digit?_underscore : digit? '_' = none := by decide

theorem moreDigits_of_some {c : Char} {d : Nat} (h : digit? c = some d) (rest : List Char) :
    moreDigits (c :: rest) = (d :: (moreDigits rest).1, (moreDigits rest).2) := by
  have hmark : c ≠ '_' := by
    rintro rfl
    rw [digit?_underscore] at h
    cases h
  rw [moreDigits.eq_2 c rest fun _ _ hc _ => hmark hc, h]

theorem digit?_of_halts {c : Char} {rest : List Char} (h : Halts (c :: rest)) :
    digit? c = none := by
  have hnone : ∀ c ∈ ['.', 'e', 'E'], digit? c = none := by simp; decide
  exact hnone c (h c rfl)

theorem moreDigits_of_halts {rest : List Char} (h : Halts rest) :
    moreDigits rest = ([], rest) := by
  cases rest with
  | nil => rfl
  | cons c rest =>
      have hmark : c ≠ '_' := by
        rintro rfl
        exact absurd (h '_' rfl) (by decide)
      rw [moreDigits.eq_2 c rest fun _ _ hc _ => hmark hc, digit?_of_halts h]

theorem digitRun_of_halts {rest : List Char} (h : Halts rest) : digitRun rest = none := by
  cases rest with
  | nil => rfl
  | cons c rest =>
      rw [digitRun, digit?_of_halts h]
      rfl

theorem moreDigits_append {w rest : List Char} (hw : IsMore w) (hrest : Halts rest) :
    moreDigits (w ++ rest) = (w.filterMap digit?, rest) := by
  induction hw with
  | nil => exact moreDigits_of_halts hrest
  | digit hc _ ih =>
      rw [List.cons_append, moreDigits_of_some hc, ih, List.filterMap_cons_some hc]
  | marked hc _ ih =>
      rw [List.cons_append, List.cons_append, moreDigits.eq_1, hc, ih,
        List.filterMap_cons_none digit?_underscore, List.filterMap_cons_some hc]

theorem digitRun_append {w rest : List Char} (hw : IsRun w) (hrest : Halts rest) :
    digitRun (w ++ rest) = some (w.filterMap digit?, rest) := by
  obtain ⟨hc, hmore⟩ := hw
  rw [List.cons_append, digitRun, hc, moreDigits_append hmore hrest,
    List.filterMap_cons_some hc]
  rfl

theorem wholeRun_of_isRun {w : List Char} (hw : IsRun w) :
    wholeRun w = some (rowValue (w.filterMap digit?)) := by
  have hrun := digitRun_append hw halts_nil
  rw [List.append_nil] at hrun
  rw [wholeRun, hrun, ← ofDigits_eq_rowValue]

/-- What is taken for a run is one. -/
theorem exists_isMore (cs : List Char) :
    ∃ w, cs = w ++ (moreDigits cs).2 ∧ IsMore w ∧ (moreDigits cs).1 = w.filterMap digit? := by
  fun_induction moreDigits cs with
  | case1 c rest d hd ds after hmore ih =>
      rw [hmore] at ih
      obtain ⟨w, rfl, hw, rfl⟩ := ih
      refine ⟨'_' :: c :: w, rfl, .marked hd hw, ?_⟩
      rw [List.filterMap_cons_none digit?_underscore, List.filterMap_cons_some hd]
  | case2 c rest hd => exact ⟨[], rfl, .nil, rfl⟩
  | case3 c rest _ d hd ds after hmore ih =>
      rw [hmore] at ih
      obtain ⟨w, rfl, hw, rfl⟩ := ih
      exact ⟨c :: w, rfl, .digit hd hw, (List.filterMap_cons_some hd).symm⟩
  | case4 c rest _ hd => exact ⟨[], rfl, .nil, rfl⟩
  | case5 => exact ⟨[], rfl, .nil, rfl⟩

theorem exists_isRun {cs rest : List Char} {ds : List Nat} (h : digitRun cs = some (ds, rest)) :
    ∃ w, cs = w ++ rest ∧ IsRun w ∧ ds = w.filterMap digit? := by
  cases cs with
  | nil => cases h
  | cons c cs =>
      obtain ⟨d, hd, hrun⟩ := Option.map_eq_some_iff.mp h
      obtain ⟨w, hcs, hw, hds⟩ := exists_isMore cs
      cases hrun
      refine ⟨c :: w, by rw [List.cons_append, ← hcs], .intro hd hw, ?_⟩
      rw [List.filterMap_cons_some hd, ← hds]

theorem isRun_of_wholeRun {cs : List Char} {n : Nat} (h : wholeRun cs = some n) :
    IsRun cs ∧ n = rowValue (cs.filterMap digit?) := by
  unfold wholeRun at h
  split at h
  · rename_i ds hrun
    obtain ⟨w, rfl, hw, rfl⟩ := exists_isRun hrun
    rw [List.append_nil]
    cases h
    exact ⟨hw, ofDigits_eq_rowValue _⟩
  · cases h

/-! ## Fractions and exponents -/

/-- A point and the digits behind it, both of which may be missing. -/
inductive IsFraction : List Char → List Nat → Prop where
  | none : IsFraction [] []
  | point : IsFraction ['.'] []
  | digits {w : List Char} (hw : IsRun w) : IsFraction ('.' :: w) (w.filterMap digit?)

inductive IsSign : List Char → Int → Prop where
  | none : IsSign [] 1
  | plus : IsSign ['+'] 1
  | minus : IsSign ['-'] (-1)

/-- An exponent, which is zero if it is missing. -/
inductive IsExponent : List Char → Int → Prop where
  | none : IsExponent [] 0
  | marked {mark : Char} {sign w : List Char} {s : Int} (hmark : mark = 'e' ∨ mark = 'E')
      (hsign : IsSign sign s) (hw : IsRun w) :
      IsExponent (mark :: (sign ++ w)) (s * rowValue (w.filterMap digit?))

theorem IsExponent.halts {tail : List Char} {e : Int} (h : IsExponent tail e) : Halts tail := by
  cases h with
  | none => exact halts_nil
  | marked hmark => rintro c ⟨⟩; rcases hmark with rfl | rfl <;> decide

theorem IsFraction.halts {point tail : List Char} {fraction : List Nat} {e : Int}
    (hpoint : IsFraction point fraction) (htail : IsExponent tail e) : Halts (point ++ tail) := by
  cases hpoint with
  | none => exact htail.halts
  | point | digits => rintro c ⟨⟩; decide

theorem fractionRun_append {point tail : List Char} {fraction : List Nat} {e : Int}
    (hpoint : IsFraction point fraction) (htail : IsExponent tail e) :
    fractionRun (point ++ tail) = (fraction, tail) := by
  cases hpoint with
  | none =>
      cases htail with
      | none => rfl
      | marked hmark => rcases hmark with rfl | rfl <;> rfl
  | point =>
      show (digitRun tail).getD ([], tail) = _
      rw [digitRun_of_halts htail.halts]
      rfl
  | digits hw =>
      rw [List.cons_append, fractionRun, digitRun_append hw htail.halts]
      rfl

theorem exists_isFraction (cs : List Char) :
    ∃ point, cs = point ++ (fractionRun cs).2 ∧ IsFraction point (fractionRun cs).1 := by
  unfold fractionRun
  split
  · rename_i rest
    cases hrun : digitRun rest with
    | none => exact ⟨['.'], rfl, .point⟩
    | some run =>
        obtain ⟨w, rfl, hw, hds⟩ := exists_isRun hrun
        refine ⟨'.' :: w, rfl, ?_⟩
        show IsFraction _ run.1
        rw [hds]
        exact .digits hw
  · exact ⟨[], rfl, .none⟩

theorem map_wholeRun_eq_some_iff {cs : List Char} {f : Int → Int} {e : Int} :
    (do let n ← wholeRun cs; pure (n : Int)).map f = some e
      ↔ IsRun cs ∧ e = f (rowValue (cs.filterMap digit?)) := by
  constructor
  · intro h
    obtain ⟨_, hn, rfl⟩ := Option.map_eq_some_iff.mp h
    obtain ⟨n, hrun, hcast⟩ := Option.bind_eq_some_iff.mp hn
    obtain ⟨hw, rfl⟩ := isRun_of_wholeRun hrun
    cases hcast
    exact ⟨hw, rfl⟩
  · rintro ⟨hw, rfl⟩
    rw [wholeRun_of_isRun hw]
    rfl

theorem IsRun.head_ne {w : List Char} (hw : IsRun w) {c : Char} (hc : digit? c = none)
    (rest : List Char) : w ≠ c :: rest := by
  rintro rfl
  obtain ⟨hsome, -⟩ := hw
  rw [hc] at hsome
  cases hsome

theorem exponentPart_of_isExponent {tail : List Char} {e : Int} (h : IsExponent tail e) :
    exponentPart tail = some e := by
  cases h with
  | none => rfl
  | marked hmark hsign hw =>
      cases hsign with
      | none =>
          rw [List.nil_append, exponentPart.eq_4 _ _ (hw.head_ne (by decide))
            (hw.head_ne (by decide)), if_pos hmark]
          exact map_wholeRun_eq_some_iff.mpr ⟨hw, Int.one_mul _⟩
      | plus =>
          rw [List.cons_append, List.nil_append, exponentPart.eq_2, if_pos hmark]
          exact map_wholeRun_eq_some_iff.mpr ⟨hw, Int.one_mul _⟩
      | minus =>
          rw [List.cons_append, List.nil_append, exponentPart.eq_3, if_pos hmark]
          exact map_wholeRun_eq_some_iff.mpr ⟨hw, Int.neg_one_mul _⟩

theorem isExponent_of_exponentPart {tail : List Char} {e : Int} (h : exponentPart tail = some e) :
    IsExponent tail e := by
  unfold exponentPart at h
  split at h
  · cases h
    exact .none
  · split at h
    · rename_i hmark
      split at h
      · obtain ⟨hw, rfl⟩ := map_wholeRun_eq_some_iff.mp h
        simpa using IsExponent.marked hmark .plus hw
      · obtain ⟨hw, rfl⟩ := map_wholeRun_eq_some_iff.mp h
        simpa using IsExponent.marked hmark .minus hw
      · obtain ⟨hw, rfl⟩ := map_wholeRun_eq_some_iff.mp h
        simpa using IsExponent.marked hmark .none hw
    · cases h

/-! ## Whole numbers with their fraction and exponent -/

/-- The characters are a way to write the decimal, without blanks behind it. -/
inductive WrittenAs (d : Decimal) (cs : List Char) : Prop where
  | intro {whole point tail : List Char} {fraction : List Nat} {e : Int} (hwhole : IsRun whole)
      (hpoint : IsFraction point fraction) (htail : IsExponent tail e)
      (hcs : cs = whole ++ (point ++ tail))
      (hcoefficient : d.coefficient = rowValue (whole.filterMap digit? ++ fraction))
      (hexponent : d.exponent = e - fraction.length)

/-- The characters of written numbers. -/
def IsNumeralChar (c : Char) : Prop :=
  (∃ d, digit? c = some d) ∨ c ∈ ['_', '.', 'e', 'E', '+', '-']

theorem IsMore.isNumeralChar {w : List Char} (h : IsMore w) : ∀ c ∈ w, IsNumeralChar c := by
  induction h with
  | nil => exact List.forall_mem_nil _
  | digit hc _ ih => exact List.forall_mem_cons.mpr ⟨Or.inl ⟨_, hc⟩, ih⟩
  | marked hc _ ih =>
      exact List.forall_mem_cons.mpr ⟨Or.inr List.mem_cons_self,
        List.forall_mem_cons.mpr ⟨Or.inl ⟨_, hc⟩, ih⟩⟩

theorem IsRun.isNumeralChar {w : List Char} (h : IsRun w) : ∀ c ∈ w, IsNumeralChar c := by
  obtain ⟨hc, hmore⟩ := h
  exact List.forall_mem_cons.mpr ⟨Or.inl ⟨_, hc⟩, hmore.isNumeralChar⟩

theorem IsFraction.isNumeralChar {point : List Char} {fraction : List Nat}
    (h : IsFraction point fraction) : ∀ c ∈ point, IsNumeralChar c := by
  have hpoint : IsNumeralChar '.' := Or.inr (by decide)
  cases h with
  | none => exact List.forall_mem_nil _
  | point => exact List.forall_mem_singleton.mpr hpoint
  | digits hw => exact List.forall_mem_cons.mpr ⟨hpoint, hw.isNumeralChar⟩

theorem IsSign.isNumeralChar {sign : List Char} {s : Int} (h : IsSign sign s) :
    ∀ c ∈ sign, IsNumeralChar c := by
  cases h with
  | none => exact List.forall_mem_nil _
  | plus | minus => exact List.forall_mem_singleton.mpr (Or.inr (by decide))

theorem IsExponent.isNumeralChar {tail : List Char} {e : Int} (h : IsExponent tail e) :
    ∀ c ∈ tail, IsNumeralChar c := by
  cases h with
  | none => exact List.forall_mem_nil _
  | marked hmark hsign hw =>
      refine List.forall_mem_cons.mpr
        ⟨Or.inr ?_, List.forall_mem_append.mpr ⟨hsign.isNumeralChar, hw.isNumeralChar⟩⟩
      rcases hmark with rfl | rfl <;> decide

theorem WrittenAs.isNumeralChar {d : Decimal} {cs : List Char} (h : d.WrittenAs cs) :
    ∀ c ∈ cs, IsNumeralChar c := by
  obtain ⟨hwhole, hpoint, htail, rfl, -, -⟩ := h
  exact List.forall_mem_append.mpr ⟨hwhole.isNumeralChar,
    List.forall_mem_append.mpr ⟨hpoint.isNumeralChar, htail.isNumeralChar⟩⟩

theorem isBlank_of_isNumeralChar {c : Char} (h : IsNumeralChar c) : isBlank c = false := by
  rcases h with ⟨d, hd⟩ | h
  · exact isBlank_of_digit? hd
  · simp only [List.mem_cons, List.not_mem_nil, or_false] at h
    rcases h with rfl | rfl | rfl | rfl | rfl | rfl <;> decide

theorem not_isNumeralChar_paren {c : Char} (h : c = '(' ∨ c = ')') : ¬ IsNumeralChar c := by
  have hdigit : digit? '(' = none ∧ digit? ')' = none := by decide
  rcases h with rfl | rfl <;> simp [IsNumeralChar, hdigit]

theorem dropEndWhile_isPadding (cs : List Char) :
    dropEndWhile isPadding cs = cs.rdropWhile isTrailing := by
  rw [funext isPadding_eq]
  rfl

/-- The reader accepts exactly the notation of decimals, with blanks behind it. -/
theorem ofChars?_eq_some_iff {cs : List Char} {d : Decimal} :
    ofChars? cs = some d ↔ WrittenAs d (cs.rdropWhile isTrailing) := by
  unfold ofChars?
  rw [dropEndWhile_isPadding]
  generalize cs.rdropWhile isTrailing = cs
  constructor
  · intro h
    obtain ⟨⟨whole, rest⟩, hrun, h⟩ := Option.bind_eq_some_iff.mp h
    obtain ⟨w, rfl, hw, rfl⟩ := exists_isRun hrun
    obtain ⟨point, hrest, hpoint⟩ := exists_isFraction rest
    dsimp only at h
    generalize fractionRun rest = run at h hrest hpoint
    obtain ⟨e, hexponent, h⟩ := Option.bind_eq_some_iff.mp h
    cases h
    exact .intro hw hpoint (isExponent_of_exponentPart hexponent) (by rw [← hrest])
      (ofDigits_eq_rowValue _) rfl
  · rintro ⟨hwhole, hpoint, htail, rfl, hcoefficient, hexponent⟩
    simp only [digitRun_append hwhole (hpoint.halts htail), fractionRun_append hpoint htail,
      exponentPart_of_isExponent htail, Option.bind_eq_bind, Option.bind_some, Option.pure_def,
      ofDigits_eq_rowValue, ← hcoefficient, ← hexponent]

/-- What is written is read. -/
theorem WrittenAs.ofChars?_eq {d : Decimal} {cs : List Char} (h : d.WrittenAs cs) :
    ofChars? cs = some d := by
  have htrimmed : cs.rdropWhile isTrailing = cs := by
    refine List.rdropWhile_eq_self_iff.mpr fun hne => ?_
    have hlast := isBlank_of_isNumeralChar (h.isNumeralChar _ (List.getLast_mem hne))
    rw [isTrailing, hlast, Bool.false_and]
    exact Bool.false_ne_true
  rwa [ofChars?_eq_some_iff, htrimmed]

end Decimal

end TinyLisp
