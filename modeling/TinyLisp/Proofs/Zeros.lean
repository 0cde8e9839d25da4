import TinyLisp.Proofs.Arithmetic
import TinyLisp.Proofs.Nearest
import TinyLisp.Proofs.Numerals
import TinyLisp.Proofs.Values

/-!
# The zero that never arises

There are two zeros, and a session of text only ever knows one. No notation is read as the negative
zero. A sum is the negative zero only if both its operands are, and a difference only if the first
operand is (`Double.add_eq_negativeZero_iff`, `Double.sub_eq_negativeZero_iff`); both operators
start from the other zero, so none of their partial results is (`Sign.foldl_ne_negativeZero`).

The headline is `negative_zero_never_arises`. It is about every value on the way, since what is
printed does not tell the zeros apart. The invariant is on the bindings of the one environment:
they are values of its own, and the negative zero stands nowhere in them (`IsPlainValue`). Of the
code that is evaluated it needs the second part only (`Expr.LacksNegativeZero`).
-/

namespace TinyLisp

namespace Double

/-! ## Sums and differences -/

def negativeZero : Double := zero.neg

theorem finite_eq_negativeZero_iff {s : Bool} {k : Place} :
    Double.finite s k = negativeZero ↔ s = true ∧ k.val = 0 := by
  rw [negativeZero, zero, neg, Double.finite.injEq, Fin.ext_iff, Bool.not_false]

/-- What is at least one unit is not rounded to zero. -/
theorem ofUnits_ne_negativeZero {n : Nat} (hn : n ≠ 0) (negative : Bool) :
    ofUnits negative n 1 ≠ negativeZero := by
  have hplace : 0 < nearest n 1 := by
    rw [lt_nearest_iff Nat.one_pos, units_zero, units_of_lt (by decide : 0 + 1 < 2 ^ 52)]
    omega
  unfold ofUnits
  dsimp only
  split
  · rw [Ne, finite_eq_negativeZero_iff]
    exact fun h => hplace.ne' h.2
  · rintro ⟨⟩

/-- Operands that are not above zero cancel only if neither is below. -/
theorem signedUnits_add_eq_zero_iff {j k : Nat} :
    signedUnits true j + signedUnits true k = 0 ↔ j = 0 ∧ k = 0 := by
  simp only [signedUnits, if_true]
  constructor
  · intro hsum
    have hunits : units j = 0 ∧ units k = 0 := by omega
    exact ⟨not_imp_not.mp units_ne_zero hunits.1, not_imp_not.mp units_ne_zero hunits.2⟩
  · rintro ⟨rfl, rfl⟩
    rw [units_zero]
    rfl

theorem add_eq_negativeZero_iff {x y : Double} :
    add x y = negativeZero ↔ x = negativeZero ∧ y = negativeZero := by
  cases x with
  | finite s j =>
      cases y with
      | finite t k =>
          rw [finite_eq_negativeZero_iff, finite_eq_negativeZero_iff, add]
          split
          · rename_i hsum
            rw [finite_eq_negativeZero_iff, Bool.and_eq_true]
            constructor
            · rintro ⟨⟨rfl, rfl⟩, -⟩
              obtain ⟨hj, hk⟩ := signedUnits_add_eq_zero_iff.mp hsum
              exact ⟨⟨rfl, hj⟩, rfl, hk⟩
            · rintro ⟨⟨rfl, -⟩, rfl, -⟩
              exact ⟨⟨rfl, rfl⟩, rfl⟩
          · rename_i hsum
            refine iff_of_false (ofUnits_ne_negativeZero (Int.natAbs_ne_zero.mpr hsum) _) ?_
            rintro ⟨⟨rfl, hj⟩, rfl, hk⟩
            exact hsum (signedUnits_add_eq_zero_iff.mpr ⟨hj, hk⟩)
      | infinite | nan => simp [add, negativeZero, neg, zero]
  | infinite s =>
      cases y with
      | infinite t =>
          rw [add]
          split <;> simp [negativeZero, neg, zero]
      | finite | nan => simp [add, negativeZero, neg, zero]
  | nan => cases y <;> simp [add, negativeZero, neg, zero]

theorem neg_involutive : Function.Involutive neg := by
  intro x
  cases x with
  | finite | infinite => simp only [neg, Bool.not_not]
  | nan => rfl

theorem sub_eq_negativeZero_iff {x y : Double} :
    sub x y = negativeZero ↔ x = negativeZero ∧ y = zero := by
  rw [sub, add_eq_negativeZero_iff, negativeZero, neg_involutive.injective.eq_iff]

end Double

open Double

namespace Sign

/-- One step leads to the negative zero only from there, whatever the argument is. -/
theorem step_ne_negativeZero (sign : Sign) {x : Double} (hx : x ≠ negativeZero) (y : Double) :
    sign.step x y ≠ negativeZero := by
  cases sign with
  | plus => exact fun h => hx (add_eq_negativeZero_iff.mp h).1
  | minus => exact fun h => hx (sub_eq_negativeZero_iff.mp h).1

theorem foldl_ne_negativeZero (sign : Sign) (xs : List Double) :
    xs.foldl sign.step zero ≠ negativeZero := by
  refine List.foldlRecOn (motive := (· ≠ negativeZero)) xs sign.step (by decide) ?_
  exact fun _ hx y _ => sign.step_ne_negativeZero hx y

end Sign

theorem applyOperation_numbers (walk : EnvId → Expr → Action Expr) (sign : Sign)
    (xs : List Double) :
    applyOperation walk sign.operation (xs.map .number)
      = Pure.pure (.number (xs.foldl sign.step zero)) := by
  have hnone : (xs.map Expr.number).findSome? Expr.mismatch? = none := by
    simp [Expr.mismatch?]
  have hnumbers : (xs.map Expr.number).filterMap Expr.number? = xs := by
    simp [Function.comp_def, Expr.number?]
  rw [applyOperation_sign, numbers_of_no_mismatch hnone, hnumbers]
  rfl

/-! ## Expressions without the negative zero -/

namespace Expr

/-- The negative zero is not among the numbers that stand in the expression. -/
def LacksNegativeZero (e : Expr) : Prop := negativeZero ∉ e.doubles

theorem lacksNegativeZero_number {x : Double} :
    LacksNegativeZero (.number x) ↔ x ≠ negativeZero := by
  rw [LacksNegativeZero, doubles, List.mem_singleton, Ne, eq_comm]

theorem lacksNegativeZero_list {items : List Expr} :
    LacksNegativeZero (.list items) ↔ ∀ e ∈ items, LacksNegativeZero e := by
  rw [LacksNegativeZero, doubles]
  induction items with
  | nil => simp [doublesAll]
  | cons e items ih =>
      rw [doublesAll, List.mem_append, not_or, ih, List.forall_mem_cons, LacksNegativeZero]

/-- Nothing that is read has a sign. -/
theorem Written.lacksNegativeZero {e : Expr} (h : e.Written) : e.LacksNegativeZero := by
  induction h with
  | number hx =>
      rw [lacksNegativeZero_number]
      rintro rfl
      cases hx
  | list _ ih => exact lacksNegativeZero_list.mpr ih
  | symbol | literal => exact List.not_mem_nil

end Expr

/-! ## Sessions without the negative zero -/

/-- The values that an event is about. -/
def Event.values : Event → List Expr
  | .bound _ _ value | .listed _ _ value => [value]
  | .applied _ _ args => args
  | _ => []

/-- A value of the environment, other than the negative zero. -/
def IsPlainValue (home : EnvId) (v : Expr) : Prop := IsValue home v ∧ v.LacksNegativeZero

/-- Evaluation of code without the negative zero, in an environment that holds values without
it. -/
def zeroPolicy (home : EnvId) : Policy where
  env i := i = home
  code := Expr.LacksNegativeZero
  value := IsPlainValue home
  store s := ∀ b ∈ (s.get home).bindings, IsPlainValue home b.2
  event event := ∀ v ∈ event.values, v.LacksNegativeZero
  stop _ := True
  items := Expr.lacksNegativeZero_list.mp
  code_of_value h := h.2
  number h := ⟨.number _, h⟩
  literal text := ⟨.literal text, List.not_mem_nil⟩
  null := ⟨.null, List.not_mem_nil⟩
  binding := by
    rintro i s rfl hs
    exact hs
  home h := h.1.home_eq
  sum _ := ⟨.number _, Expr.lacksNegativeZero_number.mpr (Sign.plus.foldl_ne_negativeZero _)⟩
  difference _ :=
    ⟨.number _, Expr.lacksNegativeZero_number.mpr (Sign.minus.foldl_ne_negativeZero _)⟩
  applied _ hargs v hv := (hargs v hv).2
  bound _ _ hv := List.forall_mem_singleton.mpr hv.2
  bind := by
    rintro i v s name rfl hv hs
    exact Store.forall_bindings_bind hs i name hv
  listed := by
    rintro i s rfl hs b hb
    exact List.forall_mem_singleton.mpr (hs b hb).2
  fault _ := trivial
  nesting := trivial
  exit _ := trivial
  interrupt _ := trivial

theorem zeroPolicy_permissive (home : EnvId) : (zeroPolicy home).Permissive where
  code _ := Expr.Written.lacksNegativeZero
  stop _ := trivial
  loading _ := List.forall_mem_nil _
  reported _ := List.forall_mem_nil _

theorem isPlainValue_predefined {home : EnvId} {b : String × Expr} (h : b ∈ predefined home) :
    IsPlainValue home b.2 := by
  refine ⟨isValue_predefined h, ?_⟩
  simp only [predefined, List.mem_cons, List.not_mem_nil, or_false] at h
  rcases h with rfl | rfl | rfl | rfl | rfl | rfl <;> exact List.not_mem_nil

/-- **The negative zero never arises.** From any numbers whatever, also from infinities, NaN and
the negative zero itself, `+` and `-` make a number that is not the negative zero. And a session
of text has no other way to one: a new interpreter is asked anything, any number of times, and each
call may succeed, fail or ask to exit. Then its environment does not bind the negative zero, and
the next call does not reply with it, nor does it bind it, list it or apply a function to it on the
way. -/
theorem negative_zero_never_arises :
    (∀ (sign : Sign) (walk : EnvId → Expr → Action Expr) (xs : List Double) (store : Store),
        ∃ x, applyOperation walk sign.operation (xs.map .number) store
            = ⟨.ok (.number x), store, []⟩
          ∧ x ≠ .negativeZero)
      ∧ ∀ (store : Store) (strict : Bool),
        ∃ interpreter, (Interpreter.create {} strict store).outcome = .ok interpreter
          ∧ ∀ calls : List Call, (∀ call ∈ calls, call.env = interpreter.env) →
            let after := (Interpreter.create {} strict store).store.after calls
            (∀ b ∈ (after.get interpreter.env).bindings, b.2.LacksNegativeZero)
              ∧ ∀ call : Call, call.env = interpreter.env →
                (∀ reply, (call.action after).outcome = .ok reply →
                    reply.Holds Expr.LacksNegativeZero)
                  ∧ ∀ event ∈ (call.action after).events, ∀ v ∈ event.values,
                    v.LacksNegativeZero := by
  refine ⟨fun sign walk xs store => ?_, fun store strict => ?_⟩
  · rw [applyOperation_numbers]
    exact ⟨_, rfl, sign.foldl_ne_negativeZero xs⟩
  · refine ⟨⟨store.fresh, strict, nestingLimit⟩, by rw [Interpreter.create_apply], ?_⟩
    intro calls hcalls after
    have hcreate : (zeroPolicy store.fresh).store (Interpreter.create {} strict store).store := by
      intro b hb
      rw [Interpreter.bindings_create] at hb
      exact isPlainValue_predefined hb
    have hafter : (zeroPolicy store.fresh).store after :=
      Policy.after_keeps (zeroPolicy_permissive store.fresh) hcalls hcreate
    refine ⟨fun b hb => (hafter b hb).2, fun call hcall => ?_⟩
    have hkeeps := Policy.call_keeps (zeroPolicy_permissive store.fresh) call hcall hafter
    exact ⟨fun reply hreply => (hkeeps.value reply hreply).imp fun _ hv => hv.2, hkeeps.events⟩

/-- A sum of negative zeros; and a session in which a zero is bound and then subtracted, twice, from
the zero that `-` starts with. -/
theorem negative_zero_never_arises_subtracted :
    let start := (Interpreter.create {} false {}).store
    let call := fun source => Call.mk ⟨0, false, 3⟩ (fun _ => .error .notFound) (.eval source)
    let calls := [call "(def 'x' (+))"]
    (∃ x, applyOperation (evaluate 3) .add [.number .negativeZero, .number .negativeZero] {}
          = ⟨.ok (.number x), {}, []⟩ ∧ x ≠ .negativeZero)
      ∧ (∀ call ∈ calls, call.env = 0)
      ∧ (∀ b ∈ ((start.after calls).get 0).bindings, b.2.LacksNegativeZero)
      ∧ ((start.after calls).get 0).lookup? "x" = some (.number .zero)
      ∧ ((call "(- x x)").action (start.after calls)).outcome = .ok (.value (.number .zero))
      ∧ (Expr.number .zero).LacksNegativeZero := by
  intro start call calls
  obtain ⟨harithmetic, hsession⟩ := negative_zero_never_arises
  obtain ⟨interpreter, hmade, h⟩ := hsession {} false
  rw [Interpreter.create_apply] at hmade
  cases hmade
  have hcalls : ∀ call ∈ calls, call.env = 0 := List.forall_mem_singleton.mpr rfl
  obtain ⟨hbindings, hcall⟩ := h calls hcalls
  let store : Store := ⟨[⟨predefined 0 ++ [("x", .number .zero)]⟩]⟩
  let e : Expr := .list [.symbol "-", .symbol "x", .symbol "x"]
  have hstore : start.after calls = store := by cbv
  have hread : readFirst 3 false "(- x x)" = .ok e := by cbv
  have hevaluate : (evaluate 3 0 e store).outcome
      = .ok (.number (sub (sub zero zero) zero)) := rfl
  have hdifference : sub (sub zero zero) zero = zero := by decide
  have hvalue : ((call "(- x x)").action store).outcome = .ok (.value (.number .zero)) := by
    show ((Reply.value <$> evaluateText 3 0 false "(- x x)" : Action Reply) store).outcome = _
    rw [Action.map_apply, evaluateText, hread]
    show Reply.value <$> (evaluate 3 0 e store).outcome = _
    rw [hevaluate, hdifference]
    rfl
  refine ⟨harithmetic .plus (evaluate 3) [.negativeZero, .negativeZero] {}, hcalls, hbindings, ?_⟩
  rw [hstore] at hcall ⊢
  exact ⟨rfl, hvalue, (hcall (call "(- x x)") rfl).1 _ hvalue⟩

end TinyLisp
