import TinyLisp.Proofs.Levels

/-!
# What arithmetic comes to

A formula is an operator over formulas, numbers, literals and names. If all its
leaves have numbers as values, a formula has a total, which is found by
arithmetic alone. If not, some operator is given a value that is no number, and
the first of them in post-order is to blame, with the first such value among
its arguments. The headline is `arithmetic_evaluated`: that is what the evaluator
makes of a formula, and it leaves everything as it was.

The arguments of an operator are all evaluated before the first of them is
looked at. So an ill-typed leaf waits until the operators to its right have been
applied, and one of those may be the first to fail (`Formula.nodes`).

The levels of the evaluator are the one thing that arithmetic does not know:
`arithmetic_nested_too_deep` has a formula with a total that has no value.
-/

namespace TinyLisp

/-! ## Formulas -/

inductive Sign where
  | plus
  | minus

namespace Sign

def name : Sign → String
  | .plus => "+"
  | .minus => "-"

def operation : Sign → Operation
  | .plus => .add
  | .minus => .subtract

/-- What an operator does with the next of its arguments. -/
def step : Sign → Double → Double → Double
  | .plus => Double.add
  | .minus => Double.sub

end Sign

inductive Formula where
  | number (x : Double)
  | literal (text : String)
  | symbol (name : String)
  | node (sign : Sign) (args : List Formula)

namespace Formula

mutual

def expr : Formula → Expr
  | .number x => .number x
  | .literal text => .literal text
  | .symbol name => .symbol name
  | .node sign args => .list (.symbol sign.name :: exprs args)

def exprs : List Formula → List Expr
  | [] => []
  | f :: rest => f.expr :: exprs rest

end

mutual

/-- The numbers, literals and names in a formula. -/
def leaves : Formula → List Formula
  | .number x => [.number x]
  | .literal text => [.literal text]
  | .symbol name => [.symbol name]
  | .node _ args => leavesAll args

def leavesAll : List Formula → List Formula
  | [] => []
  | f :: rest => f.leaves ++ leavesAll rest

end

mutual

/-- The operators in a formula with their arguments, in post-order. -/
def nodes : Formula → List (Sign × List Formula)
  | .number _ | .literal _ | .symbol _ => []
  | .node sign args => nodesAll args ++ [(sign, args)]

def nodesAll : List Formula → List (Sign × List Formula)
  | [] => []
  | f :: rest => f.nodes ++ nodesAll rest

end

end Formula

/-! ## Totals and mismatches -/

namespace Formula

section

variable (scope : Env)

mutual

/-- What a formula comes to by arithmetic: each operator starts at zero and
takes its arguments one after the other. -/
def total? : Formula → Option Double
  | .number x => some x
  | .literal _ => none
  | .symbol name => (scope.lookup? name).bind Expr.number?
  | .node sign args => (totals? args).map (·.foldl sign.step .zero)

def totals? : List Formula → Option (List Double)
  | [] => some []
  | f :: rest => (total? f).bind fun x => (totals? rest).map (x :: ·)

end

/-- The value of a formula as an argument. -/
def value? : Formula → Option Expr
  | .number x => some (.number x)
  | .literal text => some (.literal text)
  | .symbol name => scope.lookup? name
  | .node sign args => (total? scope (.node sign args)).map .number

/-- The tag of the first argument whose value is no number. -/
def argMismatch? (args : List Formula) : Option Tag :=
  args.findSome? fun arg => (arg.value? scope).bind Expr.mismatch?

/-- The first of the operators that is given a value that is no number, with the
tag of the first such value. -/
def firstMismatch? (nodes : List (Sign × List Formula)) : Option (Sign × Tag) :=
  nodes.findSome? fun (sign, args) => (argMismatch? scope args).map (sign, ·)

/-- Every leaf has a number as its value. -/
def AllNumbers (leaves : List Formula) : Prop :=
  ∀ leaf ∈ leaves, ∃ x, leaf.value? scope = some (.number x)

/-- Every name among the leaves is bound. -/
def AllBound (leaves : List Formula) : Prop :=
  ∀ name, .symbol name ∈ leaves → (scope.lookup? name).isSome = true

end

end Formula

/-! ### Values of arguments -/

namespace Formula

section

variable {scope : Env}

/-- The values of a number of formulas. -/
def HaveValues (scope : Env) : List Formula → List Expr → Prop :=
  List.Forall₂ fun f v => f.value? scope = some v

theorem total?_eq (f : Formula) : f.total? scope = (f.value? scope).bind Expr.number? := by
  cases f with
  | number | literal | symbol => rfl
  | node sign args =>
      rw [value?]
      cases (Formula.node sign args).total? scope <;> rfl

theorem argMismatch?_eq {args : List Formula} {vs : List Expr} (h : HaveValues scope args vs) :
    argMismatch? scope args = vs.findSome? Expr.mismatch? := by
  induction h with
  | nil => rfl
  | cons hv _ ih =>
      rw [argMismatch?, List.findSome?_cons, List.findSome?_cons, hv, Option.bind_some, ← ih,
        argMismatch?]

theorem totals?_eq {args : List Formula} {vs : List Expr} (h : HaveValues scope args vs)
    (hnone : vs.findSome? Expr.mismatch? = none) :
    totals? scope args = some (vs.filterMap Expr.number?) := by
  induction h with
  | nil => rfl
  | @cons f v args vs hv _ ih =>
      cases v with
      | number x =>
          rw [totals?, total?_eq, hv, ih hnone]
          rfl
      | symbol | literal | list | fn | null => cases hnone

theorem firstMismatch?_append (xs ys : List (Sign × List Formula)) :
    firstMismatch? scope (xs ++ ys) =
      (firstMismatch? scope xs).or (firstMismatch? scope ys) :=
  List.findSome?_append

theorem firstMismatch?_single (sign : Sign) (args : List Formula) :
    firstMismatch? scope [(sign, args)] = (argMismatch? scope args).map (sign, ·) := by
  rw [firstMismatch?, List.findSome?_singleton]

theorem argMismatch?_cons_eq_none_iff {f : Formula} {rest : List Formula} :
    argMismatch? scope (f :: rest) = none ↔
      (f.value? scope).bind Expr.mismatch? = none ∧ argMismatch? scope rest = none := by
  simp [argMismatch?, List.findSome?_eq_none_iff]

theorem allBound_append {xs ys : List Formula} :
    AllBound scope (xs ++ ys) ↔ AllBound scope xs ∧ AllBound scope ys := by
  simp only [AllBound, List.mem_append, or_imp, forall_and]

/-! ### Leaves that are numbers -/

theorem exists_number_iff {f : Formula} (h : (f.value? scope).isSome = true) :
    (∃ x, f.value? scope = some (.number x)) ↔ (f.value? scope).bind Expr.mismatch? = none := by
  obtain ⟨v, hv⟩ := Option.isSome_iff_exists.mp h
  rw [hv]
  cases v <;> simp [Expr.mismatch?]

theorem node_mismatch?_eq_none (sign : Sign) (args : List Formula) :
    ((Formula.node sign args).value? scope).bind Expr.mismatch? = none := by
  rw [value?]
  cases (Formula.node sign args).total? scope <;> rfl

mutual

/-- All leaves are numbers exactly if nothing is wrong, neither inside the
formula nor with it as an argument. -/
theorem allNumbers_iff : ∀ f : Formula, AllBound scope f.leaves →
    (AllNumbers scope f.leaves ↔
      firstMismatch? scope f.nodes = none ∧ (f.value? scope).bind Expr.mismatch? = none)
  | .number x, _ => by
      simp [AllNumbers, leaves, nodes, firstMismatch?, value?, Expr.mismatch?]
  | .literal text, _ => by
      simp [AllNumbers, leaves, nodes, firstMismatch?, value?, Expr.mismatch?]
  | .symbol name, hbound => by
      have hvalue := exists_number_iff (f := .symbol name) (hbound name (List.mem_singleton_self _))
      simpa [AllNumbers, leaves, nodes, firstMismatch?] using hvalue
  | .node sign args, hbound => by
      rw [leaves, allNumbers_all_iff args hbound, nodes, firstMismatch?_append,
        firstMismatch?_single, Option.or_eq_none_iff, Option.map_eq_none_iff,
        node_mismatch?_eq_none]
      simp only [and_true]

theorem allNumbers_all_iff : ∀ fs : List Formula, AllBound scope (leavesAll fs) →
    (AllNumbers scope (leavesAll fs) ↔
      firstMismatch? scope (nodesAll fs) = none ∧ argMismatch? scope fs = none)
  | [], _ => by simp [AllNumbers, leavesAll, nodesAll, firstMismatch?, argMismatch?]
  | f :: rest, hbound => by
      obtain ⟨hf, hrest⟩ := allBound_append.mp hbound
      rw [leavesAll, nodesAll, firstMismatch?_append, Option.or_eq_none_iff,
        argMismatch?_cons_eq_none_iff, AllNumbers, List.forall_mem_append]
      have hfirst := allNumbers_iff f hf
      have hothers := allNumbers_all_iff rest hrest
      simp only [AllNumbers] at hfirst hothers
      rw [hfirst, hothers]
      exact and_and_and_comm

end

end

end Formula

/-! ## The evaluator on formulas -/

/-- The application of an operator of arithmetic. -/
def Event.IsArithmetic : Event → Prop
  | .applied _ .add _ | .applied _ .subtract _ => True
  | _ => False

theorem Store.replay_of_isArithmetic {events : List Event}
    (h : ∀ event ∈ events, event.IsArithmetic) (store : Store) : store.replay events = store := by
  induction events with
  | nil => rfl
  | cons event rest ih =>
      obtain ⟨hevent, hrest⟩ := List.forall_mem_cons.mp h
      cases event with
      | applied => exact ih hrest
      | bound | listed | loading | loopStarted | loopStopped | reported | prompted | answered =>
          cases hevent

/-- An end with the first mismatch if there is one, and else with a value. -/
inductive Ends {α : Type} (mismatch : Option (Sign × Tag)) (value : α → Prop) :
    Except Stop α → Prop where
  | error {sign : Sign} {tag : Tag} (h : mismatch = some (sign, tag)) :
      Ends mismatch value
        (.error (EvalFault.typeMismatch Tag.float.name tag.name (some sign.name)).stop)
  | ok {a : α} (h : mismatch = none) (ha : value a) : Ends mismatch value (.ok a)

/-- A run that does arithmetic only. -/
structure Run.Computes {α : Type} (r : Run α) (s : Store) (mismatch : Option (Sign × Tag))
    (value : α → Prop) : Prop where
  store : r.store = s
  events : ∀ event ∈ r.events, event.IsArithmetic
  outcome : Ends mismatch value r.outcome

namespace Run.Computes

variable {α β : Type} {s : Store}

theorem of_ok {r : Run α} {a : α} {value : α → Prop} (h : r = ⟨.ok a, s, []⟩) (ha : value a) :
    r.Computes s none value := by
  subst h
  exact ⟨rfl, List.forall_mem_nil _, .ok rfl ha⟩

/-- The first mismatch of two computations in order is that of the first, if it
has one. -/
theorem bind {first : Action α} {next : α → Action β} {m m' : Option (Sign × Tag)}
    {value : α → Prop} {value' : β → Prop} (hfirst : (first s).Computes s m value)
    (hnext : ∀ a, value a → (next a s).Computes s m' value') :
    ((first >>= next) s).Computes s (m.or m') value' := by
  obtain ⟨hstore, hevents, hend⟩ := hfirst
  generalize hr : (first s).outcome = outcome at hend
  cases hend with
  | error hm =>
      rw [Action.bind_of_error next hr]
      exact ⟨hstore, hevents, .error (by rw [hm]; rfl)⟩
  | ok hm ha =>
      have hrest := hnext _ ha
      rw [Action.bind_of_ok next hr, hm, Option.none_or, hstore]
      exact ⟨hrest.store, List.forall_mem_append.mpr ⟨hevents, hrest.events⟩, hrest.outcome⟩

theorem fits {r : Run α} {m : Option (Sign × Tag)} {value : α → Prop}
    (h : r.Computes s m value) : r.Fits := by
  obtain ⟨-, -, hend⟩ := h
  generalize hr : r.outcome = outcome at hend
  cases hend with
  | error _ => exact .of_fault hr
  | ok _ _ => exact .of_ok hr

end Run.Computes

theorem applyOperation_sign (walk : EnvId → Expr → Action Expr) (sign : Sign) (vs : List Expr) :
    applyOperation walk sign.operation vs = (do
      return .number ((← Action.ofExcept (numbers sign.name vs)).foldl sign.step .zero)) := by
  cases sign <;> rfl

theorem applyOperation_computes {scope : Env} {args : List Formula} {vs : List Expr}
    (hvs : Formula.HaveValues scope args vs) (walk : EnvId → Expr → Action Expr) (sign : Sign)
    (s : Store) :
    (applyOperation walk sign.operation vs s).Computes s
      ((Formula.argMismatch? scope args).map (sign, ·))
      (fun v => (Formula.node sign args).value? scope = some v) := by
  rw [applyOperation_sign, Formula.argMismatch?_eq hvs]
  cases hm : vs.findSome? Expr.mismatch? with
  | some tag =>
      rw [numbers_of_mismatch hm]
      exact ⟨rfl, List.forall_mem_nil _, .error rfl⟩
  | none =>
      rw [numbers_of_no_mismatch hm]
      refine .of_ok rfl ?_
      rw [Formula.value?, Formula.total?, Formula.totals?_eq hvs hm]
      rfl

/-- The operators are bound to their functions, whatever these are called. -/
def BindsSigns (scope : Env) : Prop :=
  ∀ sign : Sign, ∃ name, scope.lookup? sign.name = some (.fn name sign.operation)

mutual

/-- By recursion on the formula. A node is a run of its head, of its arguments
and of the operator, and the first mismatch is found in this order. -/
theorem Formula.computes {home : EnvId} {s : Store} (hsigns : BindsSigns (s.get home)) :
    ∀ (f : Formula) {limit : Nat}, f.expr.depth < limit → AllBound (s.get home) f.leaves →
    (evaluate limit home f.expr s).Computes s (firstMismatch? (s.get home) f.nodes)
      (fun v => f.value? (s.get home) = some v)
  | .number x, limit + 1, _, _ => .of_ok rfl rfl
  | .literal text, limit + 1, _, _ => .of_ok rfl rfl
  | .symbol name, limit + 1, _, hbound => by
      obtain ⟨v, hv⟩ := Option.isSome_iff_exists.mp (hbound name (List.mem_singleton_self _))
      exact .of_ok (Action.lookup_of_some hv) hv
  | .node sign args, limit + 1, hdepth, hbound => by
      obtain ⟨name, hname⟩ := hsigns sign
      have hargs : Expr.depthAll (exprs args) < limit :=
        Nat.lt_of_le_of_lt (Nat.le_max_right ..) (Nat.lt_of_succ_lt_succ hdepth)
      obtain ⟨limit, rfl⟩ : ∃ n, limit = n + 1 := ⟨limit - 1, by omega⟩
      have hhead : (evaluate (limit + 1) home (.symbol sign.name) s).Computes s none
          (· = .fn name sign.operation) := .of_ok (Action.lookup_of_some hname) rfl
      have horder : firstMismatch? (s.get home) (Formula.node sign args).nodes =
          none.or ((firstMismatch? (s.get home) (nodesAll args)).or
            (none.or ((argMismatch? (s.get home) args).map (sign, ·)))) := by
        rw [nodes, firstMismatch?_append, firstMismatch?_single, Option.none_or, Option.none_or]
      rw [horder]
      refine hhead.bind fun v hv => ?_
      subst hv
      refine (Formula.computes_args hsigns args hargs hbound).bind fun vs hvs => ?_
      have hemit : (Action.emit (.applied name sign.operation vs) s).Computes s none
          (fun _ => True) :=
        ⟨rfl, List.forall_mem_singleton.mpr (by cases sign <;> trivial), .ok rfl trivial⟩
      exact hemit.bind fun _ _ => applyOperation_computes hvs _ sign s

theorem Formula.computes_args {home : EnvId} {s : Store} (hsigns : BindsSigns (s.get home)) :
    ∀ (fs : List Formula) {limit : Nat}, Expr.depthAll (exprs fs) < limit →
      AllBound (s.get home) (leavesAll fs) →
    (evaluateArgs (evaluate limit home) (exprs fs) s).Computes s
      (firstMismatch? (s.get home) (nodesAll fs)) (HaveValues (s.get home) fs)
  | [], _, _, _ => .of_ok rfl .nil
  | f :: rest, limit, hdepth, hbound => by
      obtain ⟨hf, hrest⟩ := Nat.max_lt.mp hdepth
      have horder : firstMismatch? (s.get home) (nodesAll (f :: rest)) =
          (firstMismatch? (s.get home) f.nodes).or
            ((firstMismatch? (s.get home) (nodesAll rest)).or none) := by
        rw [nodesAll, firstMismatch?_append, Option.or_none]
      obtain ⟨hboundf, hboundrest⟩ := allBound_append.mp hbound
      rw [horder]
      refine (Formula.computes hsigns f hf hboundf).bind fun v hv => ?_
      refine (Formula.computes_args hsigns rest hrest hboundrest).bind fun vs hvs => ?_
      exact .of_ok rfl (.cons hv hvs)

end

/-- **Arithmetic is evaluated as it is meant.** Let `+` and `-` be bound to their
functions, and a formula to be an operator over leaves whose names are bound. Its
evaluation leaves every environment as it was and does nothing but apply the two
functions. Unless it goes down more levels than there are, and that takes as many
as the formula is deep, it ends in one of two ways. If all leaves are numbers, it
ends with the total. If not, it ends with a mismatch: that of the first operator
in post-order which is given a value that is no number, for the first of those
values. -/
theorem arithmetic_evaluated {home : EnvId} {store : Store} {plus minus : String}
    (hplus : (store.get home).lookup? "+" = some (.fn plus .add))
    (hminus : (store.get home).lookup? "-" = some (.fn minus .subtract))
    (sign : Sign) (args : List Formula)
    (hbound : Formula.AllBound (store.get home) (Formula.node sign args).leaves)
    (limit : Nat) :
    let formula := Formula.node sign args
    let scope := store.get home
    let run := evaluate limit home formula.expr store
    run.store = store
      ∧ (∀ event ∈ run.events, event.IsArithmetic)
      ∧ (formula.expr.depth < limit → run.Fits)
      ∧ (run.Fits → Formula.AllNumbers scope formula.leaves →
          ∃ x, formula.total? scope = some x ∧ run.outcome = .ok (.number x))
      ∧ (run.Fits → ¬ Formula.AllNumbers scope formula.leaves →
          ∃ sign tag, Formula.firstMismatch? scope formula.nodes = some (sign, tag)
            ∧ run.outcome = .error
                (EvalFault.typeMismatch "FLOAT" tag.name (some sign.name)).stop) := by
  intro formula scope run
  have hsigns : BindsSigns scope := fun sign => by
    cases sign with
    | plus => exact ⟨plus, hplus⟩
    | minus => exact ⟨minus, hminus⟩
  -- with levels enough the formula computes; with fewer the run is a first part of that one
  have hcomputes := formula.computes hsigns
    (show formula.expr.depth < limit + (formula.expr.depth + 1) by omega) hbound
  have hshort := evaluate_shortOf (Nat.le_add_right limit (formula.expr.depth + 1)) home
    formula.expr store
  have hevents : ∀ event ∈ run.events, event.IsArithmetic :=
    fun event hevent => hcomputes.events event (hshort.events_prefix.subset hevent)
  have hstore : run.store = store := by
    rw [(evaluate_trail limit home formula.expr store).store_eq]
    exact store.replay_of_isArithmetic hevents
  have hend : run.Fits → Ends (Formula.firstMismatch? scope formula.nodes)
      (fun v => formula.value? scope = some v) run.outcome := by
    intro hfits
    have hsame : evaluate _ home formula.expr store = run := hshort.eq_of_fits hfits
    rw [← hsame]
    exact hcomputes.outcome
  have hnumbers := formula.allNumbers_iff hbound
  refine ⟨hstore, hevents, fun hdepth => (formula.computes hsigns hdepth hbound).fits,
    fun hfits hall => ?_, fun hfits hall => ?_⟩
  · have hended := hend hfits
    obtain ⟨hnone, -⟩ := hnumbers.mp hall
    generalize run.outcome = outcome at hended
    cases hended with
    | error hsome =>
        rw [hnone] at hsome
        cases hsome
    | @ok v _ hv =>
        obtain ⟨x, hx, rfl⟩ := Option.map_eq_some_iff.mp hv
        exact ⟨x, hx, rfl⟩
  · have hended := hend hfits
    generalize run.outcome = outcome at hended
    cases hended with
    | @error sign tag hsome => exact ⟨sign, tag, hsome, rfl⟩
    | ok hnone _ => exact absurd (hnumbers.mpr ⟨hnone, Formula.node_mismatch?_eq_none _ _⟩) hall

/-- `(- x (+ x))` is a total, with `x` bound to infinity. In `(- 'a' (+ + x))` the
literal comes first, but the inner operator is applied first, to a function. -/
theorem arithmetic_evaluated_inner :
    let store : Store := ⟨[⟨[("+", .fn "+" .add), ("-", .fn "minus" .subtract),
      ("x", .number (.infinite false))]⟩]⟩
    let good := [Formula.symbol "x", .node .plus [.symbol "x"]]
    let bad := [Formula.literal "a", .node .plus [.symbol "+", .symbol "x"]]
    (Formula.node .minus bad).expr = .list [.symbol "-", .literal "a",
        .list [.symbol "+", .symbol "+", .symbol "x"]]
      ∧ (store.get 0).lookup? "+" = some (.fn "+" .add)
      ∧ (store.get 0).lookup? "-" = some (.fn "minus" .subtract)
      ∧ Formula.AllBound (store.get 0) (Formula.node .minus good).leaves
      ∧ Formula.AllBound (store.get 0) (Formula.node .minus bad).leaves
      ∧ Formula.AllNumbers (store.get 0) (Formula.node .minus good).leaves
      ∧ ¬ Formula.AllNumbers (store.get 0) (Formula.node .minus bad).leaves
      ∧ (evaluate 3 0 (Formula.node .minus good).expr store).outcome
          = .ok (.number (.infinite true))
      ∧ (evaluate 3 0 (Formula.node .minus bad).expr store).outcome
          = .error (EvalFault.typeMismatch "FLOAT" "FN" (some "+")).stop
      ∧ (evaluate 3 0 (Formula.node .minus bad).expr store).store = store := by
  intro store good bad
  have hplus : (store.get 0).lookup? "+" = some (.fn "+" .add) := rfl
  have hminus : (store.get 0).lookup? "-" = some (.fn "minus" .subtract) := rfl
  have hgood : Formula.AllBound (store.get 0) (Formula.node .minus good).leaves := by
    intro name hname
    obtain rfl : name = "x" := by simpa [good, Formula.leaves, Formula.leavesAll] using hname
    rfl
  have hbad : Formula.AllBound (store.get 0) (Formula.node .minus bad).leaves := by
    intro name hname
    obtain rfl | rfl : name = "+" ∨ name = "x" := by
      simpa [bad, Formula.leaves, Formula.leavesAll] using hname
    · rfl
    · rfl
  have hnumbers : Formula.AllNumbers (store.get 0) (Formula.node .minus good).leaves := by
    intro leaf hleaf
    obtain rfl : leaf = .symbol "x" := by
      simpa [good, Formula.leaves, Formula.leavesAll] using hleaf
    exact ⟨.infinite false, rfl⟩
  have hliteral : ¬ Formula.AllNumbers (store.get 0) (Formula.node .minus bad).leaves := by
    intro hall
    obtain ⟨x, hx⟩ := hall (.literal "a") (List.mem_cons_self ..)
    cases hx
  obtain ⟨-, -, hfits, htotal, -⟩ := arithmetic_evaluated hplus hminus .minus good hgood 3
  obtain ⟨x, hx, hvalue⟩ := htotal (hfits (by decide)) hnumbers
  cases hx.symm.trans (show _ = some (.infinite true) from rfl)
  obtain ⟨hstore, -, hfits, -, hmismatch⟩ :=
    arithmetic_evaluated hplus hminus .minus bad hbad 3
  obtain ⟨sign, tag, hfirst, hfault⟩ := hmismatch (hfits (by decide)) hliteral
  cases hfirst.symm.trans (show _ = some (.plus, .fn) from rfl)
  exact ⟨rfl, hplus, hminus, hgood, hbad, hnumbers, hliteral, hvalue, hfault, hstore⟩

namespace Formula

/-- So many operators, one inside the other, around a zero. -/
def nested : Nat → Formula
  | 0 => .number .zero
  | n + 1 => .node .plus [nested n]

theorem leaves_nested (n : Nat) : (nested n).leaves = [.number .zero] := by
  induction n with
  | zero => rfl
  | succ n ih => rw [nested, leaves, leavesAll, ih, leavesAll, List.append_nil]

theorem total?_nested (scope : Env) (n : Nat) : (nested n).total? scope = some .zero := by
  induction n with
  | zero => rfl
  | succ n ih =>
      rw [nested, total?, totals?, ih, totals?]
      rfl

/-- Each operator takes a level. -/
theorem evaluate_nested {limit n : Nat} (h : limit ≤ n) {home : EnvId} {s : Store}
    {plus : String} (hplus : (s.get home).lookup? "+" = some (.fn plus .add)) :
    (evaluate limit home (nested n).expr s).outcome = .error (.fault (.nesting "evaluate")) := by
  induction limit generalizing n with
  | zero => rfl
  | succ limit ih =>
      obtain ⟨n, rfl⟩ : ∃ m, n = m + 1 := ⟨n - 1, by omega⟩
      cases limit with
      | zero => rfl
      | succ limit =>
          have hhead : evaluate (limit + 1) home (.symbol Sign.plus.name) s
              = ⟨.ok (.fn plus .add), s, []⟩ := Action.lookup_of_some hplus
          have hinner := ih (Nat.le_of_succ_le_succ h)
          have hargs : (evaluateArgs (evaluate (limit + 1) home) [(nested n).expr] s).outcome
              = .error (.fault (.nesting "evaluate")) := by
            rw [evaluateArgs, Action.bind_of_error _ hinner]
          rw [nested, expr, exprs, exprs, evaluate, evaluateStep, Action.bind_of_quiet hhead]
          exact congrArg Run.outcome (Action.bind_of_error _ hargs)

end Formula

/-- Twelve hundred operators, one inside the other: the total is zero, but the
evaluation runs out of levels. -/
theorem arithmetic_nested_too_deep :
    let store := (Interpreter.create {} false {}).store
    let formula := Formula.node .plus [Formula.nested 1199]
    (store.get 0).lookup? "+" = some (.fn "+" .add)
      ∧ (store.get 0).lookup? "-" = some (.fn "-" .subtract)
      ∧ Formula.AllNumbers (store.get 0) formula.leaves
      ∧ formula.total? (store.get 0) = some .zero
      ∧ (evaluate nestingLimit 0 formula.expr store).outcome
          = .error (.fault (.nesting "evaluate")) := by
  intro store formula
  have hplus : (store.get 0).lookup? "+" = some (.fn "+" .add) := rfl
  have hleaves : Formula.AllNumbers (store.get 0) (Formula.nested 1200).leaves := by
    rw [Formula.leaves_nested]
    exact List.forall_mem_singleton.mpr ⟨.zero, rfl⟩
  have hdeep : nestingLimit ≤ 1200 := by decide
  exact ⟨hplus, rfl, hleaves, Formula.total?_nested (store.get 0) 1200,
    Formula.evaluate_nested hdeep hplus⟩

end TinyLisp
