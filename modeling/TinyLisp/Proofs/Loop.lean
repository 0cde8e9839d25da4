import TinyLisp.Proofs.Policy
import TinyLisp.Proofs.Reading
import TinyLisp.Proofs.Trail
import TinyLisp.Repl

/-!
# How the loop runs

The interactive loop as equations on runs: what a step makes of the end of an
evaluation, what a turn makes of a step, and how turns follow one another. The
loop adds events of its own to those of the evaluations in it: the prompts, the
answers and the reports. `Event.isWork` tells the two kinds apart.

Whatever the lines are, the loop ends with a status, unless it comes to a value that
is nested too deeply to be shown (`Repl.run_ends`).
-/

namespace TinyLisp

/-! ## Events of evaluations and of the loop -/

def Event.isWork : Event → Bool
  | .bound .. | .applied .. | .listed .. => true
  | _ => false

theorem Event.answer?_of_isWork {event : Event} (h : event.isWork = true) :
    event.answer? = none := by
  cases event with
  | bound | applied | listed => rfl
  | loading | loopStarted | loopStopped | reported | prompted | answered => cases h

theorem Move.isWork {s t : Store} {events : List Event} (h : Move s events t) :
    ∀ event ∈ events, event.isWork = true := by
  cases h with
  | quiet function _ => exact List.forall_mem_singleton.mpr rfl
  | define function home name value =>
      exact List.forall_mem_cons.mpr ⟨rfl, List.forall_mem_singleton.mpr rfl⟩
  | listing function home args =>
      refine List.forall_mem_cons.mpr ⟨rfl, fun event hevent => ?_⟩
      obtain ⟨binding, -, rfl⟩ := Env.exists_of_mem_listing hevent
      rfl

theorem Trail.isWork {s t : Store} {events : List Event} (h : Trail s events t) :
    ∀ event ∈ events, event.isWork = true := by
  induction h with
  | nil _ => exact fun _ hevent => absurd hevent List.not_mem_nil
  | cons hmove _ ih => exact List.forall_mem_append.mpr ⟨hmove.isWork, ih⟩

theorem evaluate_isWork {limit : Nat} {env : EnvId} {e : Expr} {store : Store} {r : Run Expr}
    (h : evaluate limit env e store = r) : ∀ event ∈ r.events, event.isWork = true := by
  rw [← h]
  exact (evaluate_trail limit env e store).isWork

theorem evaluateText_isWork (limit : Nat) (env : EnvId) (strict : Bool) (source : String)
    (store : Store) :
    ∀ event ∈ (evaluateText limit env strict source store).events, event.isWork = true := by
  rw [evaluateText]
  cases readFirst limit strict source with
  | ok e => exact evaluate_isWork rfl
  | error reason => exact fun _ hevent => absurd hevent List.not_mem_nil

/-! ## Reasons to stop -/

/-- Whether the loop knows what to do when an evaluation stops for the
reason. -/
def Stop.isHandled : Stop → Bool
  | .fault _ | .exit _ | .interrupted => true
  | _ => false

/-- Any evaluation at all, of which only the reason to stop is of interest. -/
def handledPolicy : Policy where
  env _ := True
  code _ := True
  value _ := True
  store _ := True
  event _ := True
  stop reason := reason.isHandled = true
  items _ _ _ := trivial
  code_of_value _ := trivial
  number _ := trivial
  literal _ := trivial
  null := trivial
  binding _ _ _ _ := trivial
  home _ _ := trivial
  sum _ := trivial
  difference _ := trivial
  applied _ _ := trivial
  bound _ _ _ := trivial
  bind _ _ _ _ := trivial
  listed _ _ _ _ := trivial
  fault _ := rfl
  nesting := rfl
  exit _ := rfl
  interrupt _ := rfl

theorem readFirst_isHandled {limit : Nat} {strict : Bool} {source : String} {reason : Stop}
    (h : readFirst limit strict source = .error reason) : reason.isHandled = true := by
  cases readFirst_isReading h with
  | fault _ => rfl
  | nesting => rfl

theorem evaluateText_isHandled {limit : Nat} {env : EnvId} {strict : Bool} {source : String}
    {store : Store} {reason : Stop}
    (h : (evaluateText limit env strict source store).outcome = .error reason) :
    reason.isHandled = true := by
  rw [evaluateText] at h
  cases hread : readFirst limit strict source with
  | ok e =>
      rw [hread] at h
      exact (handledPolicy.evaluate_keeps limit trivial trivial trivial).stop reason h
  | error cause =>
      rw [hread] at h
      cases h
      exact readFirst_isHandled hread

/-! ## Answers -/

/-- What the loop printed in answer to the lines. -/
def answers (events : List Event) : List String := events.filterMap Event.answer?

theorem answers_append (xs ys : List Event) : answers (xs ++ ys) = answers xs ++ answers ys :=
  List.filterMap_append

theorem answers_of_isWork {events : List Event} (h : ∀ event ∈ events, event.isWork = true) :
    answers events = [] :=
  List.filterMap_eq_nil_iff.mpr fun event hevent => Event.answer?_of_isWork (h event hevent)

namespace Repl

variable {repl : Repl} {store : Store}

/-! ## One step -/

section

variable {line : String} (hblank : Text.isBlankText line = false) {after : Store}
  {events : List Event}
include hblank

theorem step_of_value {value : Expr} (hvalue : value.isRenderable = true)
    (h : repl.interpreter.eval line store = ⟨.ok value, after, events⟩) :
    repl.step line store = ⟨.ok (some (value.render repl.color)), after, events⟩ := by
  rw [step, hblank, if_neg Bool.false_ne_true, Action.attempt_bind_apply, h]
  dsimp only
  rw [Expr.shown_of_isRenderable hvalue, Action.bind_of_quiet rfl, Action.pure_apply,
    List.append_nil]

theorem step_of_unshown {value : Expr} (hvalue : value.isRenderable = false)
    (h : repl.interpreter.eval line store = ⟨.ok value, after, events⟩) :
    repl.step line store = ⟨.error .exhausted, after, events⟩ := by
  rw [step, hblank, if_neg Bool.false_ne_true, Action.attempt_bind_apply, h]
  dsimp only
  rw [Expr.shown_of_not_isRenderable hvalue, Action.bind_of_error _ rfl]
  exact congrArg _ (List.append_nil _)

theorem step_of_fault {fault : Fault}
    (h : repl.interpreter.eval line store = ⟨.error (.fault fault), after, events⟩) :
    repl.step line store =
      ⟨.ok (some ((Stop.fault fault).report repl.color)), after,
        events ++ [.reported fault]⟩ := by
  rw [step, hblank, if_neg Bool.false_ne_true, Action.attempt_bind_apply, h]
  dsimp only
  rw [Action.emit_bind_apply, Action.pure_apply]

theorem step_of_stop {reason : Stop} (hreason : ∀ fault, reason ≠ .fault fault)
    (h : repl.interpreter.eval line store = ⟨.error reason, after, events⟩) :
    repl.step line store = ⟨.error reason, after, events⟩ := by
  rw [step, hblank, if_neg Bool.false_ne_true, Action.attempt_bind_apply, h]
  cases reason with
  | fault fault => exact absurd rfl (hreason fault)
  | exit | interrupted | emptyToken | overflow | notFunction | unreadable | exhausted =>
      dsimp only
      rw [Action.stop, List.append_nil]

/-- What a step makes of the end of an evaluation. -/
inductive StepOf (color : Bool) : Run Expr → Run (Option String) → Prop where
  | value {v : Expr} {after : Store} {events : List Event} (h : v.isRenderable = true) :
      StepOf color ⟨.ok v, after, events⟩ ⟨.ok (some (v.render color)), after, events⟩
  | unshown {v : Expr} {after : Store} {events : List Event} (h : v.isRenderable = false) :
      StepOf color ⟨.ok v, after, events⟩ ⟨.error .exhausted, after, events⟩
  | fault {fault : Fault} {after : Store} {events : List Event} :
      StepOf color ⟨.error (.fault fault), after, events⟩
        ⟨.ok (some ((Stop.fault fault).report color)), after, events ++ [.reported fault]⟩
  | exit {status : Int} {after : Store} {events : List Event} :
      StepOf color ⟨.error (.exit status), after, events⟩
        ⟨.error (.exit status), after, events⟩
  | interrupted {after : Store} {events : List Event} :
      StepOf color ⟨.error .interrupted, after, events⟩ ⟨.error .interrupted, after, events⟩

/-- There are no other ends: an evaluation stops for no reason that the loop does
not know. -/
theorem stepOf_eval :
    StepOf repl.color (repl.interpreter.eval line store) (repl.step line store) := by
  generalize heval : repl.interpreter.eval line store = r
  obtain ⟨outcome, after, events⟩ := r
  cases outcome with
  | ok value =>
      cases hvalue : value.isRenderable with
      | true =>
          rw [step_of_value hblank hvalue heval]
          exact .value hvalue
      | false =>
          rw [step_of_unshown hblank hvalue heval]
          exact .unshown hvalue
  | error reason =>
      have hhandled : reason.isHandled = true :=
        evaluateText_isHandled (congrArg Run.outcome heval)
      cases reason with
      | fault fault =>
          rw [step_of_fault hblank heval]
          exact .fault
      | exit status =>
          rw [step_of_stop hblank (by rintro _ ⟨⟩) heval]
          exact .exit
      | interrupted =>
          rw [step_of_stop hblank (by rintro _ ⟨⟩) heval]
          exact .interrupted
      | emptyToken | overflow | notFunction | unreadable | exhausted => cases hhandled

end

theorem StepOf.unique {color : Bool} {r : Run Expr} {t t' : Run (Option String)}
    (h : StepOf color r t) (h' : StepOf color r t') : t = t' := by
  cases h with
  | value hv =>
      cases h' with
      | value _ => rfl
      | unshown hv' => exact absurd (hv'.symm.trans hv) Bool.false_ne_true
  | unshown hv =>
      cases h' with
      | value hv' => exact absurd (hv.symm.trans hv') Bool.false_ne_true
      | unshown _ => rfl
  | fault | exit | interrupted =>
      cases h'
      rfl

/-! ## One turn -/

section

variable {line : String} (hquit : isQuit line = false) {after : Store} {events : List Event}
include hquit

theorem turn_of_answer {answer : String}
    (h : repl.step line store = ⟨.ok (some answer), after, events⟩) :
    repl.turn (.line line) store =
      ⟨.ok none, after, .prompted repl.prompt :: (events ++ [.answered answer])⟩ := by
  rw [turn, Action.emit_bind_apply, hquit, if_neg Bool.false_ne_true,
    Action.attempt_bind_apply, h]
  dsimp only
  rw [Action.emit_bind_apply, Action.pure_apply]

theorem turn_of_exit {status : Int}
    (h : repl.step line store = ⟨.error (.exit status), after, events⟩) :
    repl.turn (.line line) store =
      ⟨.ok (some status), after, .prompted repl.prompt :: events⟩ := by
  rw [turn, Action.emit_bind_apply, hquit, if_neg Bool.false_ne_true,
    Action.attempt_bind_apply, h]
  dsimp only
  rw [Action.pure_apply, List.append_nil]

theorem turn_of_exhausted (h : repl.step line store = ⟨.error .exhausted, after, events⟩) :
    repl.turn (.line line) store =
      ⟨.error .exhausted, after, .prompted repl.prompt :: events⟩ := by
  rw [turn, Action.emit_bind_apply, hquit, if_neg Bool.false_ne_true,
    Action.attempt_bind_apply, h]
  dsimp only
  rw [Action.stop, List.append_nil]

end

/-! ## The whole loop -/

section

variable {input : Input} {after : Store} {events : List Event}

theorem turns_cons_of_none (h : repl.turn input store = ⟨.ok none, after, events⟩)
    (rest : List Input) :
    repl.turns (input :: rest) store =
      ⟨(repl.turns rest after).outcome, (repl.turns rest after).store,
        events ++ (repl.turns rest after).events⟩ := by
  rw [turns, Action.bind_of_ok _ (by rw [h]), h]

theorem turns_cons_of_some {status : Int}
    (h : repl.turn input store = ⟨.ok (some status), after, events⟩) (rest : List Input) :
    repl.turns (input :: rest) store = ⟨.ok status, after, events⟩ := by
  rw [turns, Action.bind_of_ok _ (by rw [h]), h]
  dsimp only
  rw [Action.pure_apply, List.append_nil]

theorem turns_cons_of_error {reason : Stop}
    (h : repl.turn input store = ⟨.error reason, after, events⟩) (rest : List Input) :
    repl.turns (input :: rest) store = ⟨.error reason, after, events⟩ := by
  rw [turns, Action.bind_of_error _ (by rw [h]), h]

end

/-- The loop is its turns, between two records. The second is missing if the
turns do not come to an end. -/
theorem run_apply (inputs : List Input) :
    repl.run inputs store =
      ⟨(repl.turns inputs store).outcome, (repl.turns inputs store).store,
        .loopStarted :: ((repl.turns inputs store).events
          ++ ((repl.turns inputs store).outcome.toOption.map Event.loopStopped).toList)⟩ := by
  rw [run, Action.emit_bind_apply]
  cases h : (repl.turns inputs store).outcome with
  | ok status =>
      rw [Action.bind_of_ok _ h]
      rfl
  | error reason =>
      rw [Action.bind_of_error _ h]
      show (⟨_, _, _⟩ : Run _) = ⟨_, _, _ :: (_ ++ [])⟩
      rw [List.append_nil]

theorem answers_run (inputs : List Input) :
    answers (repl.run inputs store).events = answers (repl.turns inputs store).events := by
  rw [run_apply]
  show answers (_ ++ _) = _
  rw [answers_append]
  cases (repl.turns inputs store).outcome <;> exact List.append_nil _

theorem work_run (inputs : List Input) :
    (repl.run inputs store).events.filter Event.isWork =
      (repl.turns inputs store).events.filter Event.isWork := by
  rw [run_apply]
  show List.filter _ (_ ++ _) = _
  rw [List.filter_append]
  cases (repl.turns inputs store).outcome <;> exact List.append_nil _

/-! ## The loop comes to an end -/

theorem step_eq_error {line : String} {reason : Stop}
    (h : (repl.step line store).outcome = .error reason) :
    (∃ status, reason = .exit status) ∨ reason = .interrupted ∨ reason = .exhausted := by
  cases hblank : Text.isBlankText line with
  | true =>
      rw [step, hblank, if_pos rfl] at h
      cases h
  | false =>
      have hstep : StepOf repl.color (repl.interpreter.eval line store)
          (repl.step line store) := stepOf_eval hblank
      generalize repl.interpreter.eval line store = r at hstep
      generalize repl.step line store = t at hstep h
      cases hstep with
      | value | fault => cases h
      | unshown =>
          cases h
          exact Or.inr (Or.inr rfl)
      | exit =>
          cases h
          exact Or.inl ⟨_, rfl⟩
      | interrupted =>
          cases h
          exact Or.inr (Or.inl rfl)

theorem turn_ends (input : Input) :
    (∃ next, (repl.turn input store).outcome = .ok next)
      ∨ (repl.turn input store).outcome = .error .exhausted := by
  cases input with
  | interrupt => exact Or.inl ⟨none, rfl⟩
  | line text =>
      rw [turn, Action.emit_bind_apply]
      cases hquit : isQuit text with
      | true => exact Or.inl ⟨some 0, by rw [if_pos rfl]; rfl⟩
      | false =>
          rw [if_neg Bool.false_ne_true, Action.attempt_bind_apply]
          cases hstep : (repl.step text store).outcome with
          | ok answer => cases answer <;> exact Or.inl ⟨none, rfl⟩
          | error reason =>
              rcases step_eq_error hstep with ⟨status, rfl⟩ | rfl | rfl
              · exact Or.inl ⟨some status, rfl⟩
              · exact Or.inl ⟨none, rfl⟩
              · exact Or.inr rfl

theorem turns_ends (inputs : List Input) :
    (∃ status, (repl.turns inputs store).outcome = .ok status)
      ∨ (repl.turns inputs store).outcome = .error .exhausted := by
  induction inputs generalizing store with
  | nil => exact Or.inl ⟨0, rfl⟩
  | cons input rest ih =>
      rcases @turn_ends repl store input with ⟨next, hturn⟩ | hturn
      · rw [turns, Action.bind_of_ok _ hturn]
        cases next with
        | none => exact ih
        | some status => exact Or.inl ⟨status, rfl⟩
      · rw [turns, Action.bind_of_error _ hturn]
        exact Or.inr rfl

/-- **The loop ends with a status**, unless it comes to a value that is nested too deeply to be
shown. -/
theorem run_ends (inputs : List Input) :
    (∃ status, (repl.run inputs store).outcome = .ok status)
      ∨ (repl.run inputs store).outcome = .error .exhausted := by
  rw [run_apply]
  exact turns_ends inputs

end Repl

end TinyLisp
