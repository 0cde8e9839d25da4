import TinyLisp.Proofs.Loading
import TinyLisp.Proofs.Loop
import TinyLisp.Proofs.RoundTrip

/-!
# The loop and the batch

The interactive loop reads a line, evaluates it and answers; a batch reads a
whole text and evaluates expression after expression. On lines that are one
expression each, the loop and the batch on the joined lines are in lockstep:
the loop answers with the values of the batch, and does the same work in the
same order. Where the batch stops for a fault, the loop reports that fault and
goes on from the store the batch left; where it exits, the loop exits. This holds
as far as the values can be shown: a value that is nested too deeply is one to the
batch, but breaks the loop off. The headline is `loop_agrees_with_batch`.

The reader's side is `readAll_intercalate`: the expressions of the joined lines
are those of the lines. The rest is one induction over the lines that have a
value (`Repl.leads_of_values`), followed by the line that has none.
-/

namespace TinyLisp

/-! ## Lines that are one expression -/

theorem tokenize_of_isBlankText {line : String} (h : Text.isBlankText line = true) :
    tokenize line = [] := by
  have hlaid : Token.LaidOut false [] line.toList := .nil (List.all_eq_true.mp h)
  exact tokenize_of_laidOut hlaid fun _ ht => absurd ht List.not_mem_nil

/-- The tokens of the line are the expression, with none left over. -/
def ReadsAs (limit : Nat) (line : String) (e : Expr) : Prop :=
  parse limit (tokenize line) = .ok (e, [])

namespace ReadsAs

variable {limit : Nat} {line : String} {e : Expr}

theorem readFirst_eq (h : ReadsAs limit line e) (strict : Bool) :
    readFirst limit strict line = .ok e := by
  rw [readFirst, h]
  cases strict <;> rfl

theorem evaluateText_eq (h : ReadsAs limit line e) (env : EnvId) (strict : Bool) :
    evaluateText limit env strict line = evaluate limit env e := by
  rw [evaluateText, h.readFirst_eq]
  rfl

theorem readAll_eq (h : ReadsAs limit line e) : readAll limit line = ⟨[e], none⟩ :=
  readTokens_of_ok h

theorem isBlankText_eq (h : ReadsAs limit line e) : Text.isBlankText line = false := by
  cases hblank : Text.isBlankText line with
  | false => rfl
  | true =>
      rw [ReadsAs, tokenize_of_isBlankText hblank] at h
      cases h

end ReadsAs

theorem readAll_intercalate {limit : Nat} {lines : List String} {es : List Expr}
    (h : List.Forall₂ (ReadsAs limit) lines es) :
    readAll limit ("\n".intercalate lines) = ⟨es, none⟩ := by
  induction h with
  | nil => rfl
  | @cons line e lines es hline hlines ih =>
      cases lines with
      | nil =>
          cases hlines
          rw [String.intercalate_singleton, hline.readAll_eq]
      | cons next rest =>
          have hcontinues := readAll_append_newline limit line ("\n".intercalate (next :: rest))
          rw [← String.intercalate_cons_of_ne_nil (List.cons_ne_nil next rest), ih,
            hline.readAll_eq] at hcontinues
          generalize readAll limit _ = joined at hcontinues ⊢
          cases hcontinues with
          | whole => rfl

/-! ## Where a batch stops -/

section

variable {limit : Nat} {env : EnvId} {store after : Store} {events : List Event}

theorem evaluateForms_cons_of_ok {e value : Expr}
    (h : evaluate limit env e store = ⟨.ok value, after, events⟩) (es : List Expr) :
    evaluateForms limit env (e :: es) store =
      ⟨(value :: ·) <$> (evaluateForms limit env es after).outcome,
        (evaluateForms limit env es after).store,
        events ++ (evaluateForms limit env es after).events⟩ := by
  rw [evaluateForms, Action.bind_of_ok _ (by rw [h]), bind_pure_comp, Action.map_apply, h]

theorem evaluateForms_cons_of_error {e : Expr} {reason : Stop}
    (h : evaluate limit env e store = ⟨.error reason, after, events⟩) (es : List Expr) :
    evaluateForms limit env (e :: es) store = ⟨.error reason, after, events⟩ := by
  rw [evaluateForms, Action.bind_of_error _ (by rw [h]), h]

/-- A batch of at least one expression that completes: the first has a value,
and so have the others. -/
theorem evaluateForms_cons_eq_ok {e : Expr} {es values : List Expr}
    (h : evaluateForms limit env (e :: es) store = ⟨.ok values, after, events⟩) :
    ∃ value rest mid first last, values = value :: rest ∧ events = first ++ last
      ∧ evaluate limit env e store = ⟨.ok value, mid, first⟩
      ∧ evaluateForms limit env es mid = ⟨.ok rest, after, last⟩ := by
  rcases hfirst : evaluate limit env e store with ⟨_ | value, mid, first⟩
  · rw [evaluateForms_cons_of_error hfirst] at h
    cases h
  · rw [evaluateForms_cons_of_ok hfirst] at h
    rcases hrest : evaluateForms limit env es mid with ⟨_ | rest, last, later⟩
    · rw [hrest] at h
      cases h
    · rw [hrest] at h
      cases h
      exact ⟨value, rest, mid, first, later, rfl, rfl, rfl, hrest⟩

theorem length_of_evaluateForms {es values : List Expr}
    (h : evaluateForms limit env es store = ⟨.ok values, after, events⟩) :
    values.length = es.length := by
  induction es generalizing store values events with
  | nil =>
      cases h
      rfl
  | cons e es ih =>
      obtain ⟨value, rest, mid, first, last, rfl, -, -, hrest⟩ := evaluateForms_cons_eq_ok h
      rw [List.length_cons, List.length_cons, ih hrest]

/-- A batch that stops does so in one of its expressions, and what comes behind
that one does not matter. -/
theorem evaluateForms_eq_error {es : List Expr} {reason : Stop}
    (h : evaluateForms limit env es store = ⟨.error reason, after, events⟩) :
    ∃ before e behind values mid first last, es = before ++ e :: behind
      ∧ events = first ++ last
      ∧ evaluateForms limit env before store = ⟨.ok values, mid, first⟩
      ∧ evaluate limit env e mid = ⟨.error reason, after, last⟩ := by
  induction es generalizing store events with
  | nil => cases h
  | cons e es ih =>
      rcases hfirst : evaluate limit env e store with ⟨_ | value, mid, first⟩
      · rw [evaluateForms_cons_of_error hfirst] at h
        cases h
        exact ⟨[], e, es, [], store, [], events, rfl, rfl, rfl, hfirst⟩
      · rw [evaluateForms_cons_of_ok hfirst] at h
        rcases hrest : evaluateForms limit env es mid with ⟨_ | rest, last, later⟩
        · rw [hrest] at h
          cases h
          obtain ⟨before, stopped, behind, values, mid', first', last', rfl, rfl, hbefore,
            hstop⟩ := ih hrest
          refine ⟨e :: before, stopped, behind, value :: values, mid', first ++ first', last',
            rfl, (List.append_assoc ..).symm, ?_, hstop⟩
          rw [evaluateForms_cons_of_ok hfirst, hbefore]
          rfl
        · rw [hrest] at h
          cases h

theorem evaluateForms_concat {es values : List Expr} {e value : Expr} {mid : Store}
    {first last : List Event} (h : evaluateForms limit env es store = ⟨.ok values, mid, first⟩)
    (hlast : evaluate limit env e mid = ⟨.ok value, after, last⟩) :
    evaluateForms limit env (es ++ [e]) store =
      ⟨.ok (values ++ [value]), after, first ++ last⟩ := by
  have hone : evaluateForms limit env [e] mid = ⟨.ok [value], after, last ++ []⟩ :=
    evaluateForms_cons_of_ok hlast []
  rw [List.append_nil] at hone
  rw [evaluateForms_append, Action.bind_of_ok _ (by rw [h]), h, bind_pure_comp, Action.map_apply,
    hone]
  rfl

/-- If not all values of a batch can be shown, there is a first that cannot. -/
theorem exists_unshown {es values : List Expr}
    (h : evaluateForms limit env es store = ⟨.ok values, after, events⟩)
    (hnot : ¬ ∀ v ∈ values, v.isRenderable = true) :
    ∃ before e behind shown value others mid upto first last, es = before ++ e :: behind
      ∧ values = shown ++ value :: others
      ∧ (∀ v ∈ shown, v.isRenderable = true) ∧ value.isRenderable = false
      ∧ evaluateForms limit env before store = ⟨.ok shown, mid, first⟩
      ∧ evaluate limit env e mid = ⟨.ok value, upto, last⟩ := by
  induction es generalizing store values events with
  | nil =>
      cases h
      exact absurd (fun _ hv => absurd hv List.not_mem_nil) hnot
  | cons e es ih =>
      obtain ⟨value, rest, mid, first, last, rfl, rfl, hfirst, hrest⟩ :=
        evaluateForms_cons_eq_ok h
      cases hvalue : value.isRenderable with
      | false =>
          exact ⟨[], e, es, [], value, rest, store, mid, [], first, rfl, rfl,
            fun _ hv => absurd hv List.not_mem_nil, hvalue, rfl, hfirst⟩
      | true =>
          have hnot' : ¬ ∀ v ∈ rest, v.isRenderable = true := fun hall =>
            hnot (List.forall_mem_cons.mpr ⟨hvalue, hall⟩)
          obtain ⟨before, e', behind, shown, value', others, mid', upto, first', last', rfl, rfl,
            hshown, hvalue', hbefore, he'⟩ := ih hrest hnot'
          refine ⟨e :: before, e', behind, value :: shown, value', others, mid', upto,
            first ++ first', last', rfl, rfl, List.forall_mem_cons.mpr ⟨hvalue, hshown⟩, hvalue',
            ?_, he'⟩
          rw [evaluateForms_cons_of_ok hfirst, hbefore]
          rfl

end

theorem forall₂_split {α β : Type} {R : α → β → Prop} {xs : List α} {ys zs : List β} {z : β}
    (h : List.Forall₂ R xs (ys ++ z :: zs)) :
    ∃ before x behind, xs = before ++ x :: behind ∧ List.Forall₂ R before ys ∧ R x z := by
  obtain ⟨x, behind, hx, -, hdrop⟩ :=
    List.forall₂_cons_right_iff.mp (List.forall₂_drop_append xs ys (z :: zs) h)
  refine ⟨xs.take ys.length, x, behind, ?_, List.forall₂_take_append xs ys (z :: zs) h, hx⟩
  rw [← hdrop, List.take_append_drop]

theorem evalAll_intercalate {interpreter : Interpreter} {lines : List String} {es : List Expr}
    (h : List.Forall₂ (ReadsAs interpreter.limit) lines es) :
    interpreter.evalAll ("\n".intercalate lines) =
      evaluateForms interpreter.limit interpreter.env es := by
  rw [Interpreter.evalAll_eq_runScript, readAll_intercalate h]
  simp [Interpreter.runScript, Script.finish]

/-- The batch on a text stops in the expression at place `k`, for the given
reason, after those before it had the given values. -/
def Interpreter.StopsAt (interpreter : Interpreter) (source : String) (store : Store) (k : Nat)
    (values : List Expr) (reason : Stop) : Prop :=
  let forms := (readAll interpreter.limit source).forms
  let before := evaluateForms interpreter.limit interpreter.env (forms.take k) store
  before.outcome = .ok values
    ∧ ∃ e, forms[k]? = some e
      ∧ (evaluate interpreter.limit interpreter.env e before.store).outcome = .error reason

/-! ## Line by line -/

namespace Repl

variable {repl : Repl} {store : Store}

section

variable {line : String} {e : Expr} (hreads : ReadsAs repl.interpreter.limit line e)
  {after : Store} {events : List Event}
include hreads

theorem eval_of_readsAs :
    repl.interpreter.eval line = evaluate repl.interpreter.limit repl.interpreter.env e :=
  hreads.evaluateText_eq ..

variable (hquit : isQuit line = false)
include hquit

theorem turn_of_value {value : Expr} (hvalue : value.isRenderable = true)
    (h : evaluate repl.interpreter.limit repl.interpreter.env e store
      = ⟨.ok value, after, events⟩) :
    repl.turn (.line line) store =
      ⟨.ok none, after,
        .prompted repl.prompt :: (events ++ [.answered (value.render repl.color)])⟩ := by
  rw [← eval_of_readsAs hreads] at h
  exact turn_of_answer hquit (step_of_value hreads.isBlankText_eq hvalue h)

theorem turn_of_unshown {value : Expr} (hvalue : value.isRenderable = false)
    (h : evaluate repl.interpreter.limit repl.interpreter.env e store
      = ⟨.ok value, after, events⟩) :
    repl.turn (.line line) store =
      ⟨.error .exhausted, after, .prompted repl.prompt :: events⟩ := by
  rw [← eval_of_readsAs hreads] at h
  exact turn_of_exhausted hquit (step_of_unshown hreads.isBlankText_eq hvalue h)

theorem turn_of_fault {fault : Fault}
    (h : evaluate repl.interpreter.limit repl.interpreter.env e store
      = ⟨.error (.fault fault), after, events⟩) :
    repl.turn (.line line) store =
      ⟨.ok none, after, .prompted repl.prompt :: (events ++ [.reported fault]
        ++ [.answered ((Stop.fault fault).report repl.color)])⟩ := by
  rw [← eval_of_readsAs hreads] at h
  exact turn_of_answer hquit (step_of_fault hreads.isBlankText_eq h)

theorem turn_of_stopped {status : Int}
    (h : evaluate repl.interpreter.limit repl.interpreter.env e store
      = ⟨.error (.exit status), after, events⟩) :
    repl.turn (.line line) store =
      ⟨.ok (some status), after, .prompted repl.prompt :: events⟩ := by
  rw [← eval_of_readsAs hreads] at h
  exact turn_of_exit hquit (step_of_stop hreads.isBlankText_eq (by rintro _ ⟨⟩) h)

end

/-- The inputs lead from one store to another without ending the loop: it has
then shown the answers and done the work, and goes on with what comes next. -/
def Leads (repl : Repl) (inputs : List Input) (store after : Store) (shown : List String)
    (work : List Event) : Prop :=
  ∃ events, answers events = shown ∧ events.filter Event.isWork = work
    ∧ ∀ rest, repl.turns (inputs ++ rest) store =
        ⟨(repl.turns rest after).outcome, (repl.turns rest after).store,
          events ++ (repl.turns rest after).events⟩

theorem Leads.nil : repl.Leads [] store store [] [] :=
  ⟨[], rfl, rfl, fun _ => rfl⟩

theorem Leads.append {xs ys : List Input} {mid after : Store} {shown shown' : List String}
    {work work' : List Event} (h : repl.Leads xs store mid shown work)
    (h' : repl.Leads ys mid after shown' work') :
    repl.Leads (xs ++ ys) store after (shown ++ shown') (work ++ work') := by
  obtain ⟨events, rfl, rfl, hturns⟩ := h
  obtain ⟨events', rfl, rfl, hturns'⟩ := h'
  refine ⟨events ++ events', answers_append .., List.filter_append .., fun rest => ?_⟩
  rw [List.append_assoc, hturns, hturns', List.append_assoc]

theorem Leads.run_append {inputs : List Input} {after : Store} {shown : List String}
    {work : List Event} (h : repl.Leads inputs store after shown work) (rest : List Input) :
    let loop := repl.run (inputs ++ rest) store
    let next := repl.turns rest after
    loop.outcome = next.outcome ∧ loop.store = next.store
      ∧ answers loop.events = shown ++ answers next.events
      ∧ loop.events.filter Event.isWork = work ++ next.events.filter Event.isWork := by
  intro loop next
  obtain ⟨events, rfl, rfl, hturns⟩ := h
  have hloop : repl.turns (inputs ++ rest) store = ⟨_, _, _⟩ := hturns rest
  refine ⟨?_, ?_, ?_, ?_⟩
  · show (repl.run _ store).outcome = _
    rw [run_apply, hloop]
  · show (repl.run _ store).store = _
    rw [run_apply, hloop]
  · show answers (repl.run _ store).events = _
    rw [answers_run, hloop, answers_append]
  · show List.filter _ (repl.run _ store).events = _
    rw [work_run, hloop, List.filter_append]

/-- The inputs and then one that ends the loop, of which nothing shows but its work. -/
theorem Leads.run_of_last {inputs rest : List Input} {input : Input} {mid after : Store}
    {shown : List String} {work last : List Event} {outcome : Except Stop Int}
    (h : repl.Leads inputs store mid shown work)
    (hlast : ∀ event ∈ last, event.isWork = true)
    (hturns : repl.turns (input :: rest) mid = ⟨outcome, after, .prompted repl.prompt :: last⟩) :
    let loop := repl.run (inputs ++ input :: rest) store
    loop.outcome = outcome ∧ loop.store = after ∧ answers loop.events = shown
      ∧ loop.events.filter Event.isWork = work ++ last := by
  intro loop
  obtain ⟨hend, hstore, hanswers, hwork⟩ := h.run_append (input :: rest)
  rw [hturns] at hend hstore hanswers hwork
  refine ⟨hend, hstore, hanswers.trans ?_, hwork.trans ?_⟩
  · show _ ++ answers last = _
    rw [answers_of_isWork hlast, List.append_nil]
  · show _ ++ last.filter Event.isWork = _
    rw [List.filter_eq_self.mpr hlast]

/-- A turn around an evaluation: the loop adds one answer, and no work. -/
theorem leads_of_turn {input : Input} {after : Store} {work added : List Event}
    {answer : String} (hwork : ∀ event ∈ work, event.isWork = true)
    (hadded : added.filter Event.isWork = []) (hnone : answers added = [])
    (h : repl.turn input store =
      ⟨.ok none, after, .prompted repl.prompt :: (work ++ added ++ [.answered answer])⟩) :
    repl.Leads [input] store after [answer] work := by
  refine ⟨_, ?_, ?_, turns_cons_of_none h⟩
  · show answers (work ++ added ++ [.answered answer]) = _
    rw [answers_append, answers_append, answers_of_isWork hwork, hnone]
    rfl
  · show List.filter _ (work ++ added ++ [.answered answer]) = _
    rw [List.filter_append, List.filter_append, hadded, List.filter_eq_self.mpr hwork,
      List.append_nil]
    exact List.append_nil work

theorem leads_of_values {lines : List String} {es values : List Expr} {after : Store}
    {events : List Event} (hreads : List.Forall₂ (ReadsAs repl.interpreter.limit) lines es)
    (hquit : ∀ line ∈ lines, isQuit line = false)
    (hshown : ∀ v ∈ values, v.isRenderable = true)
    (h : evaluateForms repl.interpreter.limit repl.interpreter.env es store
      = ⟨.ok values, after, events⟩) :
    repl.Leads (lines.map .line) store after (values.map (·.render repl.color)) events := by
  induction hreads generalizing store values events with
  | nil =>
      cases h
      exact .nil
  | cons hline _ ih =>
      obtain ⟨hquitLine, hquitRest⟩ := List.forall_mem_cons.mp hquit
      obtain ⟨value, rest, mid, first, last, rfl, rfl, hfirst, hrest⟩ :=
        evaluateForms_cons_eq_ok h
      obtain ⟨hvalue, hshownRest⟩ := List.forall_mem_cons.mp hshown
      have hturn := turn_of_value hline hquitLine hvalue hfirst
      rw [← List.append_nil first] at hturn
      have hleads := leads_of_turn (evaluate_isWork hfirst) rfl rfl hturn
      exact hleads.append (ih hquitRest hshownRest hrest)

/-- Where the batch on the lines stops, the lines before it have values, and if these can be
shown, the loop has got through those lines and is about to meet what stopped the batch. -/
theorem exists_stopsAt {lines : List String} {es : List Expr} {after : Store}
    {events : List Event} {reason : Stop}
    (hreads : List.Forall₂ (ReadsAs repl.interpreter.limit) lines es)
    (hquit : ∀ line ∈ lines, isQuit line = false)
    (h : evaluateForms repl.interpreter.limit repl.interpreter.env es store
      = ⟨.error reason, after, events⟩) :
    ∃ before line behind done e values mid first last, lines = before ++ line :: behind
      ∧ repl.interpreter.StopsAt ("\n".intercalate lines) store before.length values reason
      ∧ values.length = before.length
      ∧ List.Forall₂ (ReadsAs repl.interpreter.limit) before done
      ∧ evaluateForms repl.interpreter.limit repl.interpreter.env done store
          = ⟨.ok values, mid, first⟩
      ∧ ((∀ v ∈ values, v.isRenderable = true) →
          repl.Leads (before.map .line) store mid (values.map (·.render repl.color)) first)
      ∧ ReadsAs repl.interpreter.limit line e ∧ isQuit line = false
      ∧ evaluate repl.interpreter.limit repl.interpreter.env e mid = ⟨.error reason, after, last⟩
      ∧ events = first ++ last := by
  obtain ⟨done, e, left, values, mid, first, last, rfl, rfl, hvalues, hstop⟩ :=
    evaluateForms_eq_error h
  obtain ⟨before, line, behind, rfl, hdone, hline⟩ := forall₂_split hreads
  obtain ⟨hquitBefore, hquitLine⟩ := List.forall_mem_append.mp hquit
  refine ⟨before, line, behind, done, e, values, mid, first, last, rfl, ?_, ?_, hdone, hvalues,
    fun hshown => leads_of_values hdone hquitBefore hshown hvalues, hline,
    (List.forall_mem_cons.mp hquitLine).1, hstop, rfl⟩
  · unfold Interpreter.StopsAt
    rw [readAll_intercalate hreads, hdone.length_eq]
    dsimp only
    rw [List.take_left, hvalues]
    exact ⟨rfl, e, by simp, by rw [hstop]⟩
  · rw [hdone.length_eq, length_of_evaluateForms hvalues]

/-- The lines have the given values, one each as far as these go, and the loop on them is
broken off by the first value that cannot be shown. It has answered with the values before
that one, and it has done the work and left the store of the batch on the lines until there,
which has all those values. -/
def BreaksOff (repl : Repl) (store : Store) (lines : List String) (values : List Expr) : Prop :=
  let loop := repl.run (lines.map .line) store
  ∃ before line behind, ∃ shown : List Expr, ∃ value others, lines = before ++ line :: behind
    ∧ values = shown ++ value :: others ∧ shown.length = before.length
    ∧ (∀ v ∈ shown, v.isRenderable = true) ∧ value.isRenderable = false
    ∧ loop.outcome = .error .exhausted
    ∧ answers loop.events = shown.map (·.render repl.color)
    ∧ let part := repl.interpreter.evalAll ("\n".intercalate (before ++ [line])) store
      part.outcome = .ok (shown ++ [value]) ∧ loop.store = part.store
        ∧ loop.events.filter Event.isWork = part.events

theorem breaksOff_of_values {lines : List String} {es values : List Expr} {after : Store}
    {events : List Event} (hreads : List.Forall₂ (ReadsAs repl.interpreter.limit) lines es)
    (hquit : ∀ line ∈ lines, isQuit line = false)
    (h : evaluateForms repl.interpreter.limit repl.interpreter.env es store
      = ⟨.ok values, after, events⟩)
    (hnot : ¬ ∀ v ∈ values, v.isRenderable = true) (later : List String) :
    repl.BreaksOff store (lines ++ later) values := by
  obtain ⟨done, e, left, shown, value, others, mid, upto, first, last, rfl, rfl, hshown, hvalue,
    hdone, he⟩ := exists_unshown h hnot
  obtain ⟨before, line, behind, rfl, hbefore, hline⟩ := forall₂_split hreads
  obtain ⟨hquitBefore, hquitLine⟩ := List.forall_mem_append.mp hquit
  have hturn := turn_of_unshown hline (List.forall_mem_cons.mp hquitLine).1 hvalue he
  have hrun := (leads_of_values hbefore hquitBefore hshown hdone).run_of_last
    (evaluate_isWork he) (turns_cons_of_error hturn ((behind ++ later).map .line))
  have hpart : repl.interpreter.evalAll ("\n".intercalate (before ++ [line])) store =
      ⟨.ok (shown ++ [value]), upto, first ++ last⟩ := by
    rw [evalAll_intercalate (List.rel_append hbefore (.cons hline .nil)),
      evaluateForms_concat hdone he]
  rw [← List.map_cons, ← List.map_append] at hrun
  obtain ⟨hend, hstore, hanswers, hwork⟩ := hrun
  refine ⟨before, line, behind ++ later, shown, value, others, by simp, rfl, ?_, hshown, hvalue, ?_⟩
  · rw [hbefore.length_eq, length_of_evaluateForms hdone]
  · rw [hpart, List.append_assoc, List.cons_append]
    exact ⟨hend, hanswers, rfl, hstore, hwork⟩

/-! ### The three ways for a batch to end -/

section

variable {lines : List String} {es : List Expr} {after : Store} {events : List Event}
  (hreads : List.Forall₂ (ReadsAs repl.interpreter.limit) lines es)
  (hquit : ∀ line ∈ lines, isQuit line = false)
include hreads hquit

theorem run_of_values {values : List Expr} (hshown : ∀ v ∈ values, v.isRenderable = true)
    (h : evaluateForms repl.interpreter.limit repl.interpreter.env es store
      = ⟨.ok values, after, events⟩) :
    let loop := repl.run (lines.map .line) store
    loop.outcome = .ok 0 ∧ loop.store = after
      ∧ answers loop.events = values.map (·.render repl.color)
      ∧ loop.events.filter Event.isWork = events := by
  have hrun := (leads_of_values hreads hquit hshown h).run_append []
  rw [List.append_nil] at hrun
  obtain ⟨hend, hstore, hanswers, hwork⟩ := hrun
  exact ⟨hend, hstore, hanswers.trans (List.append_nil _), hwork.trans (List.append_nil _)⟩

/-- A fault is reported where the batch stops, and the loop is not over. -/
theorem leads_of_fault {fault : Fault}
    (h : evaluateForms repl.interpreter.limit repl.interpreter.env es store
      = ⟨.error (.fault fault), after, events⟩) :
    ∃ before line behind values, lines = before ++ line :: behind
      ∧ repl.interpreter.StopsAt ("\n".intercalate lines) store before.length values
          (.fault fault)
      ∧ values.length = before.length
      ∧ ((∀ v ∈ values, v.isRenderable = true) →
          repl.Leads ((before ++ [line]).map .line) store after
            (values.map (·.render repl.color) ++ [(Stop.fault fault).report repl.color]) events)
      ∧ ((¬ ∀ v ∈ values, v.isRenderable = true) → repl.BreaksOff store lines values) := by
  obtain ⟨before, line, behind, done, e, values, mid, first, last, rfl, hstops, hlength, hdone,
    hvalues, hleads, hline, hquitLine, hfault, rfl⟩ := exists_stopsAt hreads hquit h
  have hturn := leads_of_turn (evaluate_isWork hfault) rfl rfl
    (turn_of_fault hline hquitLine hfault)
  refine ⟨before, line, behind, values, rfl, hstops, hlength, fun hshown => ?_, fun hnot =>
    breaksOff_of_values hdone (List.forall_mem_append.mp hquit).1 hvalues hnot _⟩
  rw [List.map_append]
  exact (hleads hshown).append hturn

/-- A request to exit ends the loop where it ends the batch. -/
theorem run_of_exit {status : Int}
    (h : evaluateForms repl.interpreter.limit repl.interpreter.env es store
      = ⟨.error (.exit status), after, events⟩) :
    let loop := repl.run (lines.map .line) store
    ∃ before line behind values, lines = before ++ line :: behind
      ∧ repl.interpreter.StopsAt ("\n".intercalate lines) store before.length values
          (.exit status)
      ∧ values.length = before.length
      ∧ ((∀ v ∈ values, v.isRenderable = true) →
          loop.outcome = .ok status ∧ loop.store = after
            ∧ answers loop.events = values.map (·.render repl.color)
            ∧ loop.events.filter Event.isWork = events)
      ∧ ((¬ ∀ v ∈ values, v.isRenderable = true) → repl.BreaksOff store lines values) := by
  obtain ⟨before, line, behind, done, e, values, mid, first, last, rfl, hstops, hlength, hdone,
    hvalues, hleads, hline, hquitLine, hexit, rfl⟩ := exists_stopsAt hreads hquit h
  refine ⟨before, line, behind, values, rfl, hstops, hlength, fun hshown => ?_, fun hnot =>
    breaksOff_of_values hdone (List.forall_mem_append.mp hquit).1 hvalues hnot _⟩
  have hrun := (hleads hshown).run_of_last (evaluate_isWork hexit)
    (turns_cons_of_some (turn_of_stopped hline hquitLine hexit) (behind.map .line))
  rwa [← List.map_cons, ← List.map_append] at hrun

end

end Repl

theorem exists_forall₂_readsAs {limit : Nat} {lines : List String}
    (h : ∀ line ∈ lines, ∃ e, ReadsAs limit line e) :
    ∃ es, List.Forall₂ (ReadsAs limit) lines es := by
  induction lines with
  | nil => exact ⟨[], .nil⟩
  | cons line lines ih =>
      obtain ⟨⟨e, he⟩, hrest⟩ := List.forall_mem_cons.mp h
      obtain ⟨es, hes⟩ := ih hrest
      exact ⟨e :: es, .cons he hes⟩

/-- **The loop agrees with the batch, as far as values can be shown.** The lines are one
expression each, and none is a command to quit. If the batch on the joined lines completes,
the loop answers with its values and ends with status 0. If it stops for a fault, the loop
answers with the values until there, then with that fault, and goes on with the lines behind
from the store that the batch left. If it asks to exit, the loop exits, having answered with
the values until there. In each case the store is the batch's, and the work done, listings
included, is the batch's work. All this holds exactly if the values until there can be shown:
the first that cannot breaks the loop off. -/
theorem loop_agrees_with_batch (repl : Repl) (store : Store) {lines : List String}
    (hreads : ∀ line ∈ lines, ∃ e, ReadsAs repl.interpreter.limit line e)
    (hquit : ∀ line ∈ lines, Repl.isQuit line = false) :
    let source := "\n".intercalate lines
    let batch := repl.interpreter.evalAll source store
    let loop := repl.run (lines.map .line) store
    (∀ values, batch.outcome = .ok values → values.length = lines.length
        ∧ ((∀ v ∈ values, v.isRenderable = true) →
            loop.outcome = .ok 0 ∧ loop.store = batch.store
              ∧ answers loop.events = values.map (·.render repl.color)
              ∧ loop.events.filter Event.isWork = batch.events)
        ∧ ((¬ ∀ v ∈ values, v.isRenderable = true) → repl.BreaksOff store lines values))
      ∧ (∀ fault, batch.outcome = .error (.fault fault) →
          ∃ before line behind values, lines = before ++ line :: behind
            ∧ repl.interpreter.StopsAt source store before.length values (.fault fault)
            ∧ values.length = before.length
            ∧ ((∀ v ∈ values, v.isRenderable = true) →
                (repl.run ((before ++ [line]).map .line) store).store = batch.store
                  ∧ let rest := repl.turns (behind.map .line) batch.store
                    loop.outcome = rest.outcome ∧ loop.store = rest.store
                      ∧ answers loop.events = values.map (·.render repl.color)
                          ++ (Stop.fault fault).report repl.color :: answers rest.events
                      ∧ loop.events.filter Event.isWork
                          = batch.events ++ rest.events.filter Event.isWork)
            ∧ ((¬ ∀ v ∈ values, v.isRenderable = true) → repl.BreaksOff store lines values))
      ∧ ∀ status, batch.outcome = .error (.exit status) →
          ∃ before line behind values, lines = before ++ line :: behind
            ∧ repl.interpreter.StopsAt source store before.length values (.exit status)
            ∧ values.length = before.length
            ∧ ((∀ v ∈ values, v.isRenderable = true) →
                loop.outcome = .ok status ∧ loop.store = batch.store
                  ∧ answers loop.events = values.map (·.render repl.color)
                  ∧ loop.events.filter Event.isWork = batch.events)
            ∧ ((¬ ∀ v ∈ values, v.isRenderable = true) → repl.BreaksOff store lines values) := by
  intro source batch loop
  obtain ⟨es, hes⟩ := exists_forall₂_readsAs hreads
  have hforms : ∀ outcome, batch.outcome = outcome →
      evaluateForms repl.interpreter.limit repl.interpreter.env es store
        = ⟨outcome, batch.store, batch.events⟩ := by
    rintro _ rfl
    rw [← evalAll_intercalate hes]
  refine ⟨fun values houtcome => ?_, fun fault houtcome => ?_, fun status houtcome => ?_⟩
  · have hvalues := hforms _ houtcome
    refine ⟨?_, fun hshown => Repl.run_of_values hes hquit hshown hvalues, fun hnot => ?_⟩
    · rw [length_of_evaluateForms hvalues, hes.length_eq]
    · rw [← List.append_nil lines]
      exact Repl.breaksOff_of_values hes hquit hvalues hnot []
  · obtain ⟨before, line, behind, values, rfl, hstops, hlength, hleads, hbreaks⟩ :=
      Repl.leads_of_fault hes hquit (hforms _ houtcome)
    refine ⟨before, line, behind, values, rfl, hstops, hlength, fun hshown => ?_, hbreaks⟩
    -- the lines up to the fault alone, and then with those behind it
    have hhere := ((hleads hshown).run_append []).2.1
    rw [List.append_nil] at hhere
    have hrun := (hleads hshown).run_append (behind.map .line)
    rw [← List.map_append, List.append_assoc, List.singleton_append] at hrun
    obtain ⟨hend, hstore, hanswers, hwork⟩ := hrun
    rw [List.append_assoc, List.singleton_append] at hanswers
    exact ⟨hhere, hend, hstore, hanswers, hwork⟩
  · exact Repl.run_of_exit hes hquit (hforms _ houtcome)

/-- `echo` gets a second name, is used wrongly under it and then rightly. The
batch stops at the second line; the loop reports it and answers the third. -/
theorem loop_agrees_with_batch_echo :
    let store := (Interpreter.create {} false {}).store
    let repl : Repl := ⟨⟨0, false, nestingLimit⟩, "> ", false⟩
    let lines := ["(def 'x' echo)", "(x x)", "(x 'a')"]
    let batch := repl.interpreter.evalAll ("\n".intercalate lines) store
    let loop := repl.run (lines.map .line) store
    (∀ line ∈ lines, ∃ e, ReadsAs nestingLimit line e)
      ∧ (∀ line ∈ lines, Repl.isQuit line = false)
      ∧ batch.outcome = .error EvalFault.unexpectedFunction.stop
      ∧ ∃ before line behind, ∃ values : List Expr, lines = before ++ line :: behind
        ∧ values.length = before.length
        ∧ (repl.run ((before ++ [line]).map .line) store).store = batch.store
        ∧ answers loop.events = values.map (·.render false)
            ++ "Error: UnexpectedCallable: Unexpected function"
            :: answers (repl.turns (behind.map .line) batch.store).events := by
  intro store repl lines batch loop
  have hdefine : ReadsAs nestingLimit "(def 'x' echo)"
      (.list [.symbol "def", .literal "x", .symbol "echo"]) := by unfold ReadsAs; cbv
  have hwrong : ReadsAs nestingLimit "(x x)" (.list [.symbol "x", .symbol "x"]) := by
    unfold ReadsAs; cbv
  have hright : ReadsAs nestingLimit "(x 'a')" (.list [.symbol "x", .literal "a"]) := by
    unfold ReadsAs; cbv
  have hreads : ∀ line ∈ lines, ∃ e, ReadsAs nestingLimit line e :=
    List.forall_mem_cons.mpr ⟨⟨_, hdefine⟩, List.forall_mem_cons.mpr
      ⟨⟨_, hwrong⟩, List.forall_mem_singleton.mpr ⟨_, hright⟩⟩⟩
  have hquit : ∀ line ∈ lines, Repl.isQuit line = false := by decide
  have hforms := @evalAll_intercalate repl.interpreter _ _
    (.cons hdefine (.cons hwrong (.cons hright .nil)))
  have hbatch : batch.outcome = .error EvalFault.unexpectedFunction.stop := by
    show (repl.interpreter.evalAll _ store).outcome = _
    rw [hforms]
    cbv
  obtain ⟨-, hfault, -⟩ := loop_agrees_with_batch repl store hreads hquit
  obtain ⟨before, line, behind, values, hsplit, ⟨hdone, -⟩, hlength, hagrees, -⟩ :=
    hfault _ hbatch
  have hshown : ∀ v ∈ values, v.isRenderable = true := by
    rw [readAll_intercalate (.cons hdefine (.cons hwrong (.cons hright .nil)))] at hdone
    have hplace : before.length < 3 := by
      have := congrArg List.length hsplit
      simp only [lines, List.length_append, List.length_cons, List.length_nil] at this
      omega
    rcases before with _ | ⟨_, _ | ⟨_, _ | ⟨_, _⟩⟩⟩
    · cases hdone
      exact fun _ hv => absurd hv List.not_mem_nil
    · have hfirst : (evaluateForms nestingLimit 0
          [.list [.symbol "def", .literal "x", .symbol "echo"]] store).outcome
            = .ok [.fn "echo" (.echo 0)] := by cbv
      cases hfirst.symm.trans hdone
      exact List.forall_mem_singleton.mpr rfl
    · have hsecond : (evaluateForms nestingLimit 0
          [.list [.symbol "def", .literal "x", .symbol "echo"],
            .list [.symbol "x", .symbol "x"]] store).outcome
            = .error EvalFault.unexpectedFunction.stop := by cbv
      cases hsecond.symm.trans hdone
    · exact absurd hplace (by simp)
  obtain ⟨hhere, -, -, hanswers, -⟩ := hagrees hshown
  exact ⟨hreads, hquit, hbatch, before, line, behind, values, hsplit, hlength, hhere, hanswers⟩

/-- A name is bound to a value that cannot be shown. A batch that is just the name has the
value, but the loop is broken off before it answers. -/
theorem deep_value_breaks_loop :
    let store : Store := ⟨[⟨[("xs", Expr.null.wrapped 1200)]⟩]⟩
    let repl : Repl := ⟨⟨0, false, nestingLimit⟩, "> ", false⟩
    let lines := ["xs"]
    let batch := repl.interpreter.evalAll ("\n".intercalate lines) store
    let loop := repl.run (lines.map .line) store
    (∀ line ∈ lines, ∃ e, ReadsAs nestingLimit line e)
      ∧ (∀ line ∈ lines, Repl.isQuit line = false)
      ∧ batch.outcome = .ok [Expr.null.wrapped 1200]
      ∧ loop.outcome = .error .exhausted
      ∧ answers loop.events = [] := by
  have hnot : (Expr.null.wrapped 1200).isRenderable = false :=
    Expr.not_isRenderable_wrapped (by decide) _
  have hread : ReadsAs nestingLimit "xs" (.symbol "xs") := by unfold ReadsAs; cbv
  generalize Expr.null.wrapped 1200 = deep at hnot ⊢
  intro store repl lines batch loop
  have heval : evaluate nestingLimit 0 (.symbol "xs") store = ⟨.ok deep, store, []⟩ :=
    Action.lookup_of_some rfl
  have hbatch : batch = ⟨.ok [deep], store, []⟩ := by
    have hforms := @evalAll_intercalate repl.interpreter _ _ (.cons hread .nil)
    exact (congrFun hforms store).trans (by cbv)
  have hturn : repl.turn (.line "xs") store = _ :=
    Repl.turn_of_unshown hread (by decide) hnot heval
  have hturns := Repl.turns_cons_of_error hturn []
  have hloop : loop = _ := Repl.run_apply (lines.map .line)
  rw [show repl.turns (lines.map .line) store = _ from hturns] at hloop
  refine ⟨List.forall_mem_singleton.mpr ⟨_, hread⟩, by decide, ?_, ?_, ?_⟩
  · rw [hbatch]
  · rw [hloop]
  · rw [hloop]
    rfl

end TinyLisp
