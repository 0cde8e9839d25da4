import TinyLisp.Proofs.Trail
import TinyLisp.Proofs.Values

/-!
# The order of evaluation

Each list of an expression is one application, made after those of its head
and those of its arguments from left to right. The headline is
`applications_in_order`, for every session that is driven by text: if an
evaluation comes to a value, the applications on record are those of the lists
of the expression in post-order, and otherwise they are the first of them, up
to the place where the evaluation stopped (`Stops`).

One application for each list is all there is because a value of a session is
no list: evaluating it once more, as `echo` does, applies nothing
(`events_evaluate_of_isValue`). A bound list would be applied by `echo` and has
no place in the expression.
-/

namespace TinyLisp

/-! ## The lists of an expression and the applications of a run -/

mutual

/-- The number of arguments of each list in an expression, in post-order. -/
def Expr.argumentCounts : Expr → List Nat
  | .list items => Expr.argumentCountsAll items ++ [items.length - 1]
  | .symbol _ | .number _ | .literal _ | .fn _ _ | .null => []

def Expr.argumentCountsAll : List Expr → List Nat
  | [] => []
  | e :: rest => e.argumentCounts ++ Expr.argumentCountsAll rest

end

theorem Expr.argumentCounts_list_cons (head : Expr) (tail : List Expr) :
    (Expr.list (head :: tail)).argumentCounts =
      head.argumentCounts ++ (Expr.argumentCountsAll tail ++ [tail.length]) := by
  rw [Expr.argumentCounts, Expr.argumentCountsAll, List.append_assoc]
  rfl

def Event.argumentCount? : Event → Option Nat
  | .applied _ _ args => some args.length
  | _ => none

/-- The number of arguments of each application, in the order of the events. -/
def argumentCounts (events : List Event) : List Nat := events.filterMap Event.argumentCount?

theorem argumentCounts_append (xs ys : List Event) :
    argumentCounts (xs ++ ys) = argumentCounts xs ++ argumentCounts ys :=
  List.filterMap_append

theorem argumentCounts_eq_nil {events : List Event}
    (h : ∀ function operation args, .applied function operation args ∉ events) :
    argumentCounts events = [] := by
  refine List.filterMap_eq_nil_iff.mpr fun event hevent => ?_
  cases event with
  | applied function operation args => exact absurd hevent (h function operation args)
  | bound | listed | loading | loopStarted | loopStopped | reported | prompted | answered => rfl

/-! ## Where an evaluation stops -/

mutual

/-- The evaluation of an expression stops for a reason, with the given counts
of arguments applied until then. -/
inductive Stops (env : EnvId) : Nat → Store → Expr → Stop → List Nat → Prop where
  /-- No level is left. -/
  | level (store : Store) (e : Expr) :
      Stops env 0 store e (.fault (.nesting "evaluate")) []
  /-- The expression has nothing in it to evaluate. -/
  | leaf {limit : Nat} {store : Store} {e : Expr} {reason : Stop}
      (he : ∀ head tail, e ≠ .list (head :: tail))
      (h : (evaluate (limit + 1) env e store).outcome = .error reason) :
      Stops env (limit + 1) store e reason []
  | inHead {limit : Nat} {store : Store} {head : Expr} {tail : List Expr} {reason : Stop}
      {counts : List Nat} (h : Stops env limit store head reason counts) :
      Stops env (limit + 1) store (.list (head :: tail)) reason counts
  /-- The head is not a function, and no argument is evaluated. -/
  | atHead {limit : Nat} {store : Store} {head value : Expr} {tail : List Expr}
      (hhead : (evaluate limit env head store).outcome = .ok value)
      (hvalue : ∀ name operation, value ≠ .fn name operation) :
      Stops env (limit + 1) store (.list (head :: tail))
        (EvalFault.notCallable value.tag.name).stop head.argumentCounts
  | inArgs {limit : Nat} {store : Store} {head : Expr} {tail : List Expr} {name : String}
      {operation : Operation} {reason : Stop} {counts : List Nat}
      (hhead : (evaluate limit env head store).outcome = .ok (.fn name operation))
      (h : StopsAmong env limit (evaluate limit env head store).store tail reason counts) :
      Stops env (limit + 1) store (.list (head :: tail)) reason (head.argumentCounts ++ counts)
  /-- All items have values, and the function fails on them. -/
  | atCall {limit : Nat} {store : Store} {head : Expr} {tail args : List Expr} {name : String}
      {operation : Operation} {reason : Stop}
      (hhead : (evaluate limit env head store).outcome = .ok (.fn name operation))
      (hargs : (evaluateArgs (evaluate limit env) tail
        (evaluate limit env head store).store).outcome = .ok args)
      (h : (applyOperation (evaluate limit) operation args (evaluateArgs (evaluate limit env) tail
        (evaluate limit env head store).store).store).outcome = .error reason) :
      Stops env (limit + 1) store (.list (head :: tail)) reason
        (Expr.list (head :: tail)).argumentCounts

/-- The evaluation of arguments from left to right stops at one of them. -/
inductive StopsAmong (env : EnvId) : Nat → Store → List Expr → Stop → List Nat → Prop where
  | here {limit : Nat} {store : Store} {e : Expr} {rest : List Expr} {reason : Stop}
      {counts : List Nat} (h : Stops env limit store e reason counts) :
      StopsAmong env limit store (e :: rest) reason counts
  | later {limit : Nat} {store : Store} {e value : Expr} {rest : List Expr} {reason : Stop}
      {counts : List Nat} (he : (evaluate limit env e store).outcome = .ok value)
      (h : StopsAmong env limit (evaluate limit env e store).store rest reason counts) :
      StopsAmong env limit store (e :: rest) reason (e.argumentCounts ++ counts)

end

mutual

/-- What is applied before an evaluation stops are the first lists of the
expression. -/
theorem Stops.isPrefix {env : EnvId} : ∀ {limit : Nat} {store : Store} {e : Expr} {reason : Stop}
    {counts : List Nat}, Stops env limit store e reason counts → counts <+: e.argumentCounts
  | _, _, _, _, _, .level _ _ => List.nil_prefix
  | _, _, _, _, _, .leaf _ _ => List.nil_prefix
  | _, _, .list (_ :: _), _, _, .inHead h => by
      rw [Expr.argumentCounts_list_cons]
      exact h.isPrefix.trans (List.prefix_append ..)
  | _, _, .list (_ :: _), _, _, .atHead _ _ => by
      rw [Expr.argumentCounts_list_cons]
      exact List.prefix_append ..
  | _, _, .list (_ :: _), _, _, .inArgs _ h => by
      rw [Expr.argumentCounts_list_cons]
      exact (List.prefix_append_right_inj _).mpr (h.isPrefix.trans (List.prefix_append ..))
  | _, _, _, _, _, .atCall _ _ _ => List.prefix_rfl

theorem StopsAmong.isPrefix {env : EnvId} : ∀ {limit : Nat} {store : Store} {es : List Expr}
    {reason : Stop} {counts : List Nat}, StopsAmong env limit store es reason counts →
      counts <+: Expr.argumentCountsAll es
  | _, _, _ :: _, _, _, .here h => by
      rw [Expr.argumentCountsAll]
      exact h.isPrefix.trans (List.prefix_append ..)
  | _, _, _ :: _, _, _, .later _ h => by
      rw [Expr.argumentCountsAll]
      exact (List.prefix_append_right_inj _).mpr h.isPrefix

end

mutual

theorem Stops.outcome_eq {env : EnvId} : ∀ {limit : Nat} {store : Store} {e : Expr}
    {reason : Stop} {counts : List Nat}, Stops env limit store e reason counts →
      (evaluate limit env e store).outcome = .error reason
  | _, _, _, _, _, .level _ _ => rfl
  | _, _, _, _, _, .leaf _ h => h
  | _, _, .list (_ :: _), _, _, .inHead h => by
      rw [evaluate, evaluateStep, Action.bind_of_error _ h.outcome_eq]
  | _, _, .list (_ :: _), _, _, @Stops.atHead _ _ _ _ value _ hhead hvalue => by
      rw [evaluate, evaluateStep, Action.bind_of_ok _ hhead]
      cases value with
      | fn name operation => exact absurd rfl (hvalue name operation)
      | symbol | literal | number | list | null => rfl
  | _, _, .list (_ :: _), _, _, .inArgs hhead h => by
      rw [evaluate, evaluateStep, Action.bind_of_ok _ hhead]
      exact congrArg Run.outcome (Action.bind_of_error _ h.outcome_eq)
  | _, _, .list (_ :: _), _, _, .atCall hhead hargs h => by
      rw [evaluate, evaluateStep, Action.bind_of_ok _ hhead]
      exact (congrArg Run.outcome (Action.bind_of_ok _ hargs)).trans h

theorem StopsAmong.outcome_eq {env : EnvId} : ∀ {limit : Nat} {store : Store} {es : List Expr}
    {reason : Stop} {counts : List Nat}, StopsAmong env limit store es reason counts →
      (evaluateArgs (evaluate limit env) es store).outcome = .error reason
  | _, _, _ :: _, _, _, .here h => by
      rw [evaluateArgs, Action.bind_of_error _ h.outcome_eq]
  | _, _, _ :: _, _, _, .later he h => by
      rw [evaluateArgs, Action.bind_of_ok _ he, Action.bind_of_error _ h.outcome_eq]

end

/-! ## Runs in order -/

/-- The run applies functions to so many arguments each if it comes to a value,
and otherwise to as many as `stops` says for the reason it ends with. -/
structure Run.InOrder {α : Type} (r : Run α) (counts : List Nat)
    (stops : Stop → List Nat → Prop) : Prop where
  ok : ∀ a, r.outcome = .ok a → argumentCounts r.events = counts
  error : ∀ reason, r.outcome = .error reason → stops reason (argumentCounts r.events)

namespace Run.InOrder

variable {α β : Type} {counts : List Nat} {stops : Stop → List Nat → Prop}

theorem mono {r : Run α} {stops' : Stop → List Nat → Prop} (h : r.InOrder counts stops)
    (hstops : ∀ reason cs, stops reason cs → stops' reason cs) : r.InOrder counts stops' :=
  ⟨h.ok, fun reason hreason => hstops reason _ (h.error reason hreason)⟩

/-- A run without applications. -/
theorem of_nil {r : Run α} (hevents : argumentCounts r.events = [])
    (h : ∀ reason, r.outcome = .error reason → stops reason []) : r.InOrder [] stops :=
  ⟨fun _ _ => hevents, fun reason hreason => hevents ▸ h reason hreason⟩

theorem of_stop {reason : Stop} {s : Store} (h : stops reason []) :
    ((Action.stop reason : Action α) s).InOrder counts stops :=
  ⟨nofun, fun _ hreason => Except.error.inj hreason ▸ h⟩

theorem bind {first : Action α} {next : α → Action β} {s : Store} {counts' : List Nat}
    (hfirst : (first s).InOrder counts stops)
    (hnext : ∀ a, (first s).outcome = .ok a →
      (next a (first s).store).InOrder counts' fun reason cs => stops reason (counts ++ cs)) :
    ((first >>= next) s).InOrder (counts ++ counts') stops := by
  cases h : (first s).outcome with
  | ok a =>
      have hcounts := hfirst.ok a h
      rw [Action.bind_of_ok next h]
      refine ⟨fun b hb => ?_, fun reason hreason => ?_⟩
      · show argumentCounts (_ ++ _) = _
        rw [argumentCounts_append, hcounts, (hnext a h).ok b hb]
      · show stops reason (argumentCounts (_ ++ _))
        rw [argumentCounts_append, hcounts]
        exact (hnext a h).error reason hreason
  | error reason =>
      rw [Action.bind_of_error next h]
      refine ⟨nofun, fun reason' hreason' => ?_⟩
      cases hreason'
      exact hfirst.error reason h

end Run.InOrder

/-! ## Evaluations run in order -/

/-- Evaluating a value once more applies nothing. -/
theorem events_evaluate_of_isValue {home : EnvId} {v : Expr} (hv : IsValue home v) (limit : Nat)
    (env : EnvId) (s : Store) : (evaluate limit env v s).events = [] := by
  cases limit with
  | zero => rfl
  | succ limit => cases hv <;> rfl

/-- A function applies nothing by itself to values. -/
theorem argumentCounts_applyOperation {home : EnvId} {args : List Expr}
    (hargs : ∀ v ∈ args, IsValue home v) (limit : Nat) (operation : Operation) (s : Store) :
    argumentCounts (applyOperation (evaluate limit) operation args s).events = [] := by
  obtain ⟨env, v, rfl, rfl⟩ | hnone :=
    applyOperation_echo_or_not_applied (evaluate limit) operation args s
  · have hevents := events_evaluate_of_isValue (hargs v (List.mem_singleton_self v)) limit env s
    exact congrArg argumentCounts hevents
  · exact argumentCounts_eq_nil hnone

/-- The application of a function to values, with its record. -/
theorem call_inOrder {home : EnvId} {args : List Expr} (hargs : ∀ v ∈ args, IsValue home v)
    (name : String) (operation : Operation) (limit : Nat) (s : Store)
    {stops : Stop → List Nat → Prop} (h : ∀ reason,
      (applyOperation (evaluate limit) operation args s).outcome = .error reason →
        stops reason [args.length]) :
    ((Action.emit (.applied name operation args) >>= fun _ =>
      applyOperation (evaluate limit) operation args) s).InOrder [args.length] stops := by
  rw [Action.emit_bind_apply]
  have hcounts : argumentCounts (.applied name operation args ::
      (applyOperation (evaluate limit) operation args s).events) = [args.length] :=
    congrArg (args.length :: ·) (argumentCounts_applyOperation hargs limit operation s)
  exact ⟨fun _ _ => hcounts, fun reason hreason => hcounts ▸ h reason hreason⟩

theorem length_of_evaluateArgs {walk : Expr → Action Expr} {es vs : List Expr} {s : Store}
    (h : (evaluateArgs walk es s).outcome = .ok vs) : vs.length = es.length := by
  induction es generalizing vs s with
  | nil => cases h; rfl
  | cons e rest ih =>
      rw [evaluateArgs] at h
      cases hvalue : (walk e s).outcome with
      | error reason => rw [Action.bind_of_error _ hvalue] at h; cases h
      | ok value =>
          rw [Action.bind_of_ok _ hvalue, ← map_eq_pure_bind, Action.map_apply] at h
          cases hrest : (evaluateArgs walk rest (walk e s).store).outcome with
          | error reason => rw [hrest] at h; cases h
          | ok values =>
              rw [hrest] at h
              cases h
              rw [List.length_cons, List.length_cons, ih hrest]

section

variable {home : EnvId}

theorem evaluateArgs_inOrder {limit : Nat}
    (hwalk : ∀ e s, HoldsValues home s →
      (evaluate limit home e s).InOrder e.argumentCounts (Stops home limit s e))
    (es : List Expr) {s : Store} (hs : HoldsValues home s) :
    (evaluateArgs (evaluate limit home) es s).InOrder (Expr.argumentCountsAll es)
      (StopsAmong home limit s es) := by
  induction es generalizing s with
  | nil => exact .of_nil rfl nofun
  | cons e rest ih =>
      have hkept := (valuePolicy home).evaluate_keeps limit rfl (e := e) trivial hs
      refine ((hwalk e s hs).mono fun _ _ => .here).bind fun value hvalue => ?_
      rw [← List.append_nil (Expr.argumentCountsAll rest)]
      refine ((ih hkept.store).mono fun _ _ => .later hvalue).bind fun _ _ => ?_
      exact .of_nil rfl nofun

/-- By induction on the levels left. The ways in which a list can stop are the
constructors of `Stops`, one for each of the runs that make up its own. -/
theorem evaluate_inOrder (limit : Nat) (e : Expr) {s : Store} (hs : HoldsValues home s) :
    (evaluate limit home e s).InOrder e.argumentCounts (Stops home limit s e) := by
  induction limit generalizing e s with
  | zero => exact .of_stop (.level s e)
  | succ limit ih =>
      match e with
      | .symbol name =>
          exact .of_nil (congrArg argumentCounts (Action.events_lookup home name s))
            fun _ h => .leaf (fun _ _ => nofun) h
      | .literal _ | .number _ | .fn _ _ | .null =>
          exact .of_nil rfl fun _ h => .leaf (fun _ _ => nofun) h
      | .list [] => exact .of_stop (.leaf (fun _ _ => nofun) rfl)
      | .list (head :: tail) =>
          have hkept := (valuePolicy home).evaluate_keeps limit rfl (e := head) trivial hs
          rw [Expr.argumentCounts_list_cons]
          refine ((ih head hs).mono fun _ _ => .inHead).bind fun value hvalue => ?_
          cases value with
          | fn name operation =>
              have hargs := evaluateArgs_inOrder (fun e s hs => ih e hs) tail hkept.store
              refine (hargs.mono fun _ _ => .inArgs hvalue).bind fun args hvalues => ?_
              have hisValue := ((valuePolicy home).evaluateArgs_keeps limit rfl
                (fun _ _ => trivial) hkept.store).value args hvalues
              rw [← length_of_evaluateArgs hvalues]
              refine call_inOrder hisValue name operation limit _ fun reason hreason => ?_
              have hstops := Stops.atCall hvalue hvalues hreason
              rwa [Expr.argumentCounts_list_cons, ← length_of_evaluateArgs hvalues] at hstops
          | symbol | literal | number | list | null =>
              refine .of_stop ?_
              rw [List.append_nil]
              exact .atHead hvalue (fun _ _ => nofun)

end

/-- **Functions are applied in post-order.** A new interpreter is asked
anything, any number of times, and then an expression is evaluated. If it has a
value, the applications are those of its lists, one for each, the head's first,
then the arguments' from left to right, then the list's own. If not, they are
the first of them, made until the evaluation stopped at a place that `Stops`
gives. -/
theorem applications_in_order (store : Store) (strict : Bool) :
    ∃ interpreter, (Interpreter.create {} strict store).outcome = .ok interpreter
      ∧ ∀ calls : List Call, (∀ call ∈ calls, call.env = interpreter.env) →
        ∀ (limit : Nat) (e : Expr),
          let s := (Interpreter.create {} strict store).store.after calls
          let r := evaluate limit interpreter.env e s
          (∀ v, r.outcome = .ok v → argumentCounts r.events = e.argumentCounts)
            ∧ (∀ reason, r.outcome = .error reason ↔
                Stops interpreter.env limit s e reason (argumentCounts r.events))
            ∧ argumentCounts r.events <+: e.argumentCounts := by
  refine ⟨⟨store.fresh, strict, nestingLimit⟩, by rw [Interpreter.create_apply], ?_⟩
  intro calls hcalls limit e s r
  have hs : HoldsValues store.fresh s :=
    Policy.after_keeps (valuePolicy_permissive store.fresh) hcalls
      (holdsValues_create strict store)
  have horder : r.InOrder e.argumentCounts (Stops store.fresh limit s e) :=
    evaluate_inOrder limit e hs
  refine ⟨horder.ok, fun reason => ⟨horder.error reason, Stops.outcome_eq⟩, ?_⟩
  cases hr : r.outcome with
  | ok v => rw [horder.ok v hr]
  | error reason => exact (horder.error reason hr).isPrefix

/-- After `echo` got a second name, `(x (echo 'a'))` has a value and
`((x 'a') (+))` has not: the value of its head is a literal, and `(+)` is not
evaluated. -/
theorem applications_in_order_echo :
    let start := (Interpreter.create {} false {}).store
    let calls := [Call.mk ⟨0, false, nestingLimit⟩ (fun _ => .error .notFound)
      (.eval "(def 'x' echo)")]
    let good : Expr := .list [.symbol "x", .list [.symbol "echo", .literal "a"]]
    let bad : Expr := .list [.list [.symbol "x", .literal "a"], .list [.symbol "+"]]
    let run := evaluate 4 0 good (start.after calls)
    let stopped := evaluate 4 0 bad (start.after calls)
    (∀ call ∈ calls, call.env = 0)
      ∧ readFirst nestingLimit false "(x (echo 'a'))" = .ok good
      ∧ readFirst nestingLimit false "((x 'a') (+))" = .ok bad
      ∧ run.outcome = .ok (.literal "a")
      ∧ argumentCounts run.events = [1, 1]
      ∧ bad.argumentCounts = [1, 0, 1]
      ∧ Stops 0 4 (start.after calls) bad (EvalFault.notCallable "LITERAL").stop
          (argumentCounts stopped.events)
      ∧ argumentCounts stopped.events = [1] := by
  intro start calls good bad run stopped
  obtain ⟨interpreter, hmade, h⟩ := applications_in_order {} false
  rw [Interpreter.create_apply] at hmade
  cases hmade
  have hcalls : ∀ call ∈ calls, call.env = 0 := List.forall_mem_singleton.mpr rfl
  have hrun : (evaluate 4 0 good (start.after calls)).outcome = .ok (.literal "a") := by cbv
  have hstopped : (evaluate 4 0 bad (start.after calls)).outcome
      = .error (EvalFault.notCallable "LITERAL").stop := by cbv
  obtain ⟨hvalue, -, -⟩ := h calls hcalls 4 good
  obtain ⟨-, hstops, -⟩ := h calls hcalls 4 bad
  have hcounts : argumentCounts (evaluate 4 0 bad (start.after calls)).events = [1] := by cbv
  exact ⟨hcalls, by cbv, by cbv, hrun, hvalue _ hrun, rfl, (hstops _).mp hstopped, hcounts⟩

end TinyLisp
