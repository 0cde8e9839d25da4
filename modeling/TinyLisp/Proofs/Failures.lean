import TinyLisp.Proofs.Loop
import TinyLisp.Proofs.Values

/-!
# How evaluations fail

Of all reasons there are to stop, an evaluation of text knows two: a fault, and a
request to exit with a status that is an integer. No token is empty, no number is
past all numbers, nothing but a function is applied, and every expression is of a
kind that has a rule. The one exception is the function that breaks off an
evaluation as the user does from the keyboard. The predefined functions never hand
it out, so it is enough that no environment in reach binds it
(`Store.Ordinary`).

The headline is `text_fails_by_fault_or_exit`. For the interactive loop it means
that a line is always answered, or ends the session.
-/

namespace TinyLisp

/-! ## Faults and requests to exit -/

/-- A fault of the family that all faults are in, or a request to exit. -/
def Stop.IsTyped (reason : Stop) : Prop :=
  "SkateError" ∈ reason.kinds ∨ ∃ status : Int, reason = .exit status

theorem Fault.isTyped (fault : Fault) : (Stop.fault fault).IsTyped := by
  refine Or.inl ?_
  cases fault with
  | general => exact List.mem_singleton.mpr rfl
  | reading cause => cases cause <;> simp [Stop.kinds, Fault.kinds, ReadFault.kinds]
  | evaluation cause => cases cause <;> simp [Stop.kinds, Fault.kinds, EvalFault.kinds]
  | nesting => exact List.mem_cons_of_mem _ (List.mem_singleton.mpr rfl)

theorem Stop.IsReading.isTyped {reason : Stop} (h : reason.IsReading) : reason.IsTyped := by
  cases h with
  | fault cause => exact Fault.isTyped (.reading cause)
  | nesting => exact Fault.isTyped (.nesting "read")

theorem Stop.not_isTyped_interrupted : ¬ Stop.interrupted.IsTyped := by
  rintro (hkind | ⟨status, hexit⟩)
  · exact absurd hkind List.not_mem_nil
  · cases hexit

/-! ## Ordinary stores -/

/-- A function is one of those that are predefined somewhere, with its home in
the set or none. Nothing is asked of any other expression, of lists that hold
functions neither. -/
def Expr.Ordinary (S : Set EnvId) : Expr → Prop
  | .fn _ operation =>
      operation ≠ .interrupt ∧ ∀ home, operation.home? = some home → home ∈ S
  | _ => True

/-- All that the environments of the set bind is ordinary. -/
def Store.Ordinary (store : Store) (S : Set EnvId) : Prop :=
  ∀ id ∈ S, ∀ b ∈ (store.get id).bindings, b.2.Ordinary S

theorem IsValue.ordinary {home : EnvId} {v : Expr} (h : IsValue home v) :
    v.Ordinary {home} := by
  cases v with
  | fn name operation =>
      refine ⟨?_, fun i hi => h.home_eq hi⟩
      rintro rfl
      cases h
  | symbol | literal | number | list | null => exact trivial

theorem HoldsValues.ordinary {home : EnvId} {store : Store} (h : HoldsValues home store) :
    store.Ordinary {home} := by
  rintro _ rfl b hb
  exact (h b hb).ordinary

/-- Evaluation in environments that bind nothing but what is ordinary. -/
def ordinaryPolicy (S : Set EnvId) : Policy where
  env i := i ∈ S
  code _ := True
  value := Expr.Ordinary S
  store s := s.Ordinary S
  event _ := True
  stop := Stop.IsTyped
  items _ _ _ := trivial
  code_of_value _ := trivial
  number _ := trivial
  literal _ := trivial
  null := trivial
  binding := fun henv hs => hs _ henv
  home := fun hvalue hhome => hvalue.2 _ hhome
  sum _ := trivial
  difference _ := trivial
  applied _ _ := trivial
  bound _ _ _ := trivial
  bind := fun name _ hvalue hs id hid => Store.forall_bindings_bind (hs id hid) _ name hvalue
  listed _ _ _ _ := trivial
  fault cause := Fault.isTyped (.evaluation cause)
  nesting := Fault.isTyped (.nesting "evaluate")
  exit status := Or.inr ⟨status, rfl⟩
  interrupt := fun hvalue => absurd rfl hvalue.1

/-! ## Texts -/

section

variable {S : Set EnvId} {store : Store} (hstore : store.Ordinary S)
  {interpreter : Interpreter} (henv : interpreter.env ∈ S)
include hstore henv

theorem eval_isTyped {source : String} {reason : Stop}
    (h : (interpreter.eval source store).outcome = .error reason) : reason.IsTyped := by
  rw [Interpreter.eval, evaluateText] at h
  cases hread : readFirst interpreter.limit interpreter.strict source with
  | ok e =>
      rw [hread] at h
      exact ((ordinaryPolicy S).evaluate_keeps _ henv trivial hstore).stop reason h
  | error cause =>
      rw [hread] at h
      cases h
      exact (readFirst_isReading hread).isTyped

theorem evalAll_isTyped {source : String} {reason : Stop}
    (h : (interpreter.evalAll source store).outcome = .error reason) : reason.IsTyped := by
  have htwin : (ordinaryPolicy S).twins.env interpreter.env interpreter.env := ⟨henv, rfl⟩
  have hrelates : (ordinaryPolicy S).twins.Relates _ (interpreter.evalAll source)
      (interpreter.evalAll source) :=
    Simulation.evalAll_relates_of_read htwin (fun _ _ => ⟨trivial, rfl⟩)
      fun _ hfailure => (readAll_isReading hfailure).isTyped
  have hend := (Policy.meet_of_relates hrelates ⟨hstore, hstore, fun _ _ => rfl⟩).ends
  rw [h] at hend
  cases hend with
  | error hstop => exact hstop

end

/-- A line is answered or ends the session, if the environment holds values only: these can
all be shown. -/
theorem Repl.step_answers_or_exits {repl : Repl} {store : Store}
    (hstore : HoldsValues repl.interpreter.env store) (line : String) :
    (∃ answer, (repl.step line store).outcome = .ok answer)
      ∨ ∃ status : Int, (repl.step line store).outcome = .error (.exit status) := by
  cases hblank : Text.isBlankText line with
  | true =>
      refine Or.inl ⟨none, ?_⟩
      rw [step, hblank, if_pos rfl]
      rfl
  | false =>
      have hstep : StepOf repl.color (repl.interpreter.eval line store)
          (repl.step line store) := stepOf_eval hblank
      have htyped := @eval_isTyped _ store hstore.ordinary repl.interpreter rfl line
      have hvalue : ∀ v, (repl.interpreter.eval line store).outcome = .ok v →
          v.isRenderable = true := fun v hv => (evaluateText_isValue hstore hv).isRenderable
      generalize repl.interpreter.eval line store = r at hstep htyped hvalue
      generalize repl.step line store = t at hstep
      cases hstep with
      | value => exact Or.inl ⟨_, rfl⟩
      | unshown hnot => exact absurd (hnot.symm.trans (hvalue _ rfl)) Bool.false_ne_true
      | fault => exact Or.inl ⟨_, rfl⟩
      | exit => exact Or.inr ⟨_, rfl⟩
      | interrupted => exact absurd (htyped rfl) Stop.not_isTyped_interrupted

/-- **Text fails by a fault or exits.** If the environments in reach bind no
functions but predefined ones, under whatever names and from whatever environment
in reach, and beside them anything at all, then the first expression of a text and
all its expressions have values, or there is a fault, or a request to exit with a
status that is an integer. In a session of text from a new interpreter, whatever
was asked before and with whatever end, every line is answered or ends the session
with a status. -/
theorem text_fails_by_fault_or_exit :
    (∀ (S : Set EnvId) (store : Store), store.Ordinary S →
        ∀ interpreter : Interpreter, interpreter.env ∈ S → ∀ source : String,
          ((∃ value, (interpreter.eval source store).outcome = .ok value)
            ∨ ∃ reason, (interpreter.eval source store).outcome = .error reason
              ∧ reason.IsTyped)
          ∧ ((∃ values, (interpreter.evalAll source store).outcome = .ok values)
            ∨ ∃ reason, (interpreter.evalAll source store).outcome = .error reason
              ∧ reason.IsTyped))
      ∧ ∀ (store : Store) (strict : Bool),
          let start := Interpreter.create {} strict store
          ∃ interpreter, start.outcome = .ok interpreter
            ∧ ∀ calls : List Call, (∀ call ∈ calls, call.env = interpreter.env) →
              ∀ repl : Repl, repl.interpreter.env = interpreter.env → ∀ line : String,
                let step := repl.step line (start.store.after calls)
                (∃ answer, step.outcome = .ok answer)
                  ∨ ∃ status : Int, step.outcome = .error (.exit status) := by
  constructor
  · intro S store hstore interpreter henv source
    constructor
    · cases h : (interpreter.eval source store).outcome with
      | ok value => exact Or.inl ⟨value, rfl⟩
      | error reason => exact Or.inr ⟨reason, rfl, eval_isTyped hstore henv h⟩
    · cases h : (interpreter.evalAll source store).outcome with
      | ok values => exact Or.inl ⟨values, rfl⟩
      | error reason => exact Or.inr ⟨reason, rfl, evalAll_isTyped hstore henv h⟩
  · intro store strict start
    refine ⟨⟨store.fresh, strict, nestingLimit⟩,
      congrArg Run.outcome (Interpreter.create_apply {} strict store), ?_⟩
    intro calls hcalls repl hrepl line
    have hafter : HoldsValues store.fresh (start.store.after calls) :=
      Policy.after_keeps (valuePolicy_permissive store.fresh) hcalls
        (holdsValues_create strict store)
    exact Repl.step_answers_or_exits (hrepl ▸ hafter) line

/-- The function that breaks off an evaluation does no harm inside a list: when
the list is evaluated once more, it is a fault. And a line asks to exit, under a
name that an earlier call gave to `exit`. -/
theorem text_fails_by_fault_or_exit_echo :
    let start := (Interpreter.create {} false {}).store
    let store := start.put 0 ((start.get 0).bind "xs" (.list [.fn "stop" .interrupt]))
    let interpreter : Interpreter := ⟨0, false, nestingLimit⟩
    let calls : List Call := [⟨interpreter, fun _ => .error .notFound, .eval "(def 'e' exit)"⟩]
    store.Ordinary {0}
      ∧ (interpreter.eval "(echo xs)" store).outcome
          = .error EvalFault.unexpectedFunction.stop
      ∧ EvalFault.unexpectedFunction.stop.IsTyped
      ∧ ∃ status : Int, (Repl.step ⟨interpreter, "", false⟩ "(e)"
          (start.after calls)).outcome = .error (.exit status) := by
  intro start store interpreter calls
  have hstart : HoldsValues 0 start := holdsValues_create false {}
  have hstore : store.Ordinary {0} := fun id hid =>
    Store.forall_bindings_bind (hstart.ordinary id hid) 0 "xs" trivial
  have hfault : (interpreter.eval "(echo xs)" store).outcome
      = .error EvalFault.unexpectedFunction.stop := by cbv
  obtain ⟨htext, hsession⟩ := text_fails_by_fault_or_exit
  refine ⟨hstore, hfault, ?_, ?_⟩
  · obtain ⟨heval, -⟩ := htext {0} store hstore interpreter rfl "(echo xs)"
    rcases heval with ⟨value, hvalue⟩ | ⟨reason, hreason, htyped⟩
    · rw [hfault] at hvalue
      cases hvalue
    · rw [hfault] at hreason
      cases hreason
      exact htyped
  · obtain ⟨made, hmade, h⟩ := hsession {} false
    rw [Interpreter.create_apply] at hmade
    cases hmade
    have hcalls : ∀ call ∈ calls, call.env = 0 := List.forall_mem_singleton.mpr rfl
    rcases h calls hcalls ⟨interpreter, "", false⟩ rfl "(e)" with ⟨answer, hanswer⟩ | hexit
    · have hends : (Repl.step ⟨interpreter, "", false⟩ "(e)"
          (start.after calls)).outcome = .error (.exit 0) := by cbv
      rw [hends] at hanswer
      cases hanswer
    · exact hexit

end TinyLisp
