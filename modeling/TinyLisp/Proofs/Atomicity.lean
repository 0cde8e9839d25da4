import TinyLisp.Proofs.Batch

/-!
# What cannot be read leaves no trace

A text is read before anything of it is evaluated, and reading has no effects. So
a text that cannot be read changes nothing, and the reason alone tells that this
was so: the reader and the evaluator never stop for the same one
(`Stop.IsReading`, `Stop.IsEvaluating`).

In the interactive loop, a line that cannot be read is dealt with like a blank
one: the loop shows its own part and goes on from the store it had
(`Repl.turn_of_unread`). So such a line can be taken out of the input, and nothing
but its own part goes with it. The headline is `unread_text_leaves_no_trace`.
-/

namespace TinyLisp

/-! ## Two kinds of reasons to stop -/

/-- Reasons for which an evaluation stops. -/
inductive Stop.IsEvaluating : Stop → Prop where
  | fault (cause : EvalFault) : IsEvaluating cause.stop
  | nesting : IsEvaluating (.fault (.nesting "evaluate"))
  | exit (status : Int) : IsEvaluating (.exit status)
  | interrupted : IsEvaluating .interrupted

theorem Stop.IsEvaluating.not_isReading {reason : Stop} (h : reason.IsEvaluating) :
    ¬ reason.IsReading := by
  intro hreading
  cases h with
  | fault cause => cases hreading
  | nesting =>
      generalize hstage : "evaluate" = stage at hreading
      cases hreading
      exact absurd hstage (by decide)
  | exit status => cases hreading
  | interrupted => cases hreading

/-- Any evaluation at all, with all reasons for which one stops. -/
def evaluatingPolicy : Policy :=
  { handledPolicy with
    stop := Stop.IsEvaluating
    fault := .fault
    nesting := .nesting
    exit := .exit
    interrupt := fun _ => .interrupted }

theorem evaluate_isEvaluating {limit : Nat} {env : EnvId} {e : Expr} {store : Store}
    {reason : Stop} (h : (evaluate limit env e store).outcome = .error reason) :
    reason.IsEvaluating :=
  (evaluatingPolicy.evaluate_keeps limit trivial trivial trivial).stop reason h

section

variable {limit : Nat} {env : EnvId} {strict : Bool} {source : String} {reason : Stop}

theorem evaluateText_of_readFirst_error (h : readFirst limit strict source = .error reason)
    (store : Store) :
    evaluateText limit env strict source store = ⟨.error reason, store, []⟩ := by
  rw [evaluateText, h]
  rfl

theorem readFirst_of_isReading (hreason : reason.IsReading) {store : Store}
    (h : (evaluateText limit env strict source store).outcome = .error reason) :
    readFirst limit strict source = .error reason := by
  cases hread : readFirst limit strict source with
  | error cause =>
      rw [evaluateText_of_readFirst_error hread] at h
      cases h
      rfl
  | ok e =>
      rw [evaluateText, hread] at h
      exact absurd hreason (evaluate_isEvaluating h).not_isReading

theorem evaluateText_of_isReading (hreason : reason.IsReading) {store : Store}
    (h : (evaluateText limit env strict source store).outcome = .error reason) :
    evaluateText limit env strict source store = ⟨.error reason, store, []⟩ :=
  evaluateText_of_readFirst_error (readFirst_of_isReading hreason h) store

end

/-! ## Commands to quit can be read -/

theorem Text.exists_trim (s : String) :
    ∃ before after : List Char, (∀ c ∈ before, isBlank c = true)
      ∧ (∀ c ∈ after, isBlank c = true)
      ∧ s.toList = before ++ ((trim s).toList ++ after) := by
  let rest := s.toList.dropWhile isBlank
  refine ⟨s.toList.takeWhile isBlank, (rest.reverse.takeWhile isBlank).reverse, ?_, ?_, ?_⟩
  · exact fun c hc => List.mem_takeWhile_imp hc
  · exact fun c hc => List.mem_takeWhile_imp (List.mem_reverse.mp hc)
  · have hrest : (trim s).toList ++ (rest.reverse.takeWhile isBlank).reverse = rest := by
      rw [trim, String.toList_ofList, dropEndWhile, ← List.reverse_append,
        List.takeWhile_append_dropWhile, List.reverse_reverse]
    rw [hrest, List.takeWhile_append_dropWhile]

/-- A word with nothing but blanks around it is the only token. -/
theorem tokenize_of_trim {source : String} (hword : Token.IsWord (Text.trim source)) :
    tokenize source = [.word (Text.trim source)] := by
  obtain ⟨before, after, hbefore, hafter, hsource⟩ := Text.exists_trim source
  refine tokenize_of_laidOut ?_ (List.forall_mem_singleton.mpr hword)
  rw [hsource]
  exact @Token.LaidOut.cons false before after (.word (Text.trim source)) [] hbefore
    (fun h => absurd h Bool.false_ne_true) (.nil hafter)

namespace Repl

theorem readsAs_of_isQuit {line : String} (h : isQuit line = true) (limit : Nat) :
    ReadsAs limit line (.symbol (Text.trim line)) := by
  have hname : IsSymbolName (Text.trim line) := by
    rw [isQuit, Bool.or_eq_true, beq_iff_eq, beq_iff_eq] at h
    rcases h with h | h
    all_goals
      rw [h]
      refine ⟨by decide, fun c hc => ?_⟩
      cases hc
      decide
  rw [ReadsAs, tokenize_of_trim hname.1, parse, readAtom_symbolName hname]

variable {repl : Repl} {store : Store}

/-! ## One turn -/

/-- Nothing of the line is evaluated: it is blank or cannot be read. -/
def Unread (repl : Repl) (line : String) : Prop :=
  Text.isBlankText line = true
    ∨ ∃ reason, readFirst repl.interpreter.limit repl.interpreter.strict line = .error reason

/-- The loop's part in a line of which nothing is evaluated: it asks for the
line, and reports the fault if there is one. -/
inductive UnreadEvents (repl : Repl) (line : String) : List Event → Prop where
  | blank (h : Text.isBlankText line = true) : UnreadEvents repl line [.prompted repl.prompt]
  | fault {fault : Fault} (hblank : Text.isBlankText line = false)
      (h : readFirst repl.interpreter.limit repl.interpreter.strict line
        = .error (.fault fault)) :
      UnreadEvents repl line [.prompted repl.prompt, .reported fault,
        .answered ((Stop.fault fault).report repl.color)]

theorem UnreadEvents.filter_isWork {line : String} {own : List Event}
    (h : repl.UnreadEvents line own) : own.filter Event.isWork = [] := by
  cases h <;> rfl

theorem Unread.not_isQuit {line : String} (h : repl.Unread line) : isQuit line = false := by
  cases hquit : isQuit line with
  | false => rfl
  | true =>
      have hreads := readsAs_of_isQuit hquit repl.interpreter.limit
      rcases h with hblank | ⟨reason, hreason⟩
      · rw [hreads.isBlankText_eq] at hblank
        exact hblank.symm
      · rw [hreads.readFirst_eq] at hreason
        cases hreason

theorem turn_of_blank {line : String} (hblank : Text.isBlankText line = true)
    (hquit : isQuit line = false) :
    repl.turn (.line line) store = ⟨.ok none, store, [.prompted repl.prompt]⟩ := by
  rw [turn, Action.emit_bind_apply, hquit, if_neg Bool.false_ne_true,
    Action.attempt_bind_apply, step, hblank, if_pos rfl]
  rfl

theorem turn_of_unread {line : String} (h : repl.Unread line) :
    ∃ own, repl.UnreadEvents line own
      ∧ ∀ store, repl.turn (.line line) store = ⟨.ok none, store, own⟩ := by
  cases hblank : Text.isBlankText line with
  | true => exact ⟨_, .blank hblank, fun _ => turn_of_blank hblank h.not_isQuit⟩
  | false =>
      obtain ⟨reason, hreason⟩ := h.resolve_left (by rw [hblank]; exact Bool.false_ne_true)
      obtain ⟨fault, rfl⟩ : ∃ fault, reason = .fault fault := by
        cases readFirst_isReading hreason with
        | fault cause => exact ⟨_, rfl⟩
        | nesting => exact ⟨_, rfl⟩
      refine ⟨_, .fault hblank hreason, fun store => ?_⟩
      exact turn_of_answer h.not_isQuit
        (step_of_fault hblank (evaluateText_of_readFirst_error hreason store))

/-! ## Turns before and after -/

/-- Inputs either end the loop, and then it does not matter what comes next, or
they lead to a store from which it goes on. -/
theorem turns_append (inputs : List Input) (store : Store) :
    (∀ rest, repl.turns (inputs ++ rest) store = repl.turns inputs store)
      ∨ ∃ after events, ∀ rest, repl.turns (inputs ++ rest) store =
          ⟨(repl.turns rest after).outcome, (repl.turns rest after).store,
            events ++ (repl.turns rest after).events⟩ := by
  induction inputs generalizing store with
  | nil => exact Or.inr ⟨store, [], fun _ => rfl⟩
  | cons input inputs ih =>
      rcases hturn : repl.turn input store with ⟨reason | _ | status, mid, events⟩
      · refine Or.inl fun rest => ?_
        rw [List.cons_append, turns_cons_of_error hturn, turns_cons_of_error hturn]
      · rcases ih mid with hover | ⟨after, later, hleads⟩
        · refine Or.inl fun rest => ?_
          rw [List.cons_append, turns_cons_of_none hturn, turns_cons_of_none hturn, hover]
        · refine Or.inr ⟨after, events ++ later, fun rest => ?_⟩
          rw [List.cons_append, turns_cons_of_none hturn, hleads, List.append_assoc]
      · refine Or.inl fun rest => ?_
        rw [List.cons_append, turns_cons_of_some hturn, turns_cons_of_some hturn]

/-- What the loop does if it gets to a line of which nothing is evaluated, and if
that line is missing. -/
theorem run_of_unread {line : String} (h : repl.Unread line) (before after : List Input) :
    (∀ inputs, repl.run (before ++ inputs) store = repl.run before store)
      ∨ ∃ outcome mid first own last, repl.UnreadEvents line own
          ∧ (repl.run before store).events
              = first ++ [.prompted repl.prompt, .loopStopped 0]
          ∧ repl.run (before ++ .line line :: after) store
              = ⟨outcome, mid, first ++ own ++ last⟩
          ∧ repl.run (before ++ after) store = ⟨outcome, mid, first ++ last⟩ := by
  rcases @turns_append repl before store with hover | ⟨next, events, hleads⟩
  · refine Or.inl fun inputs => ?_
    rw [run_apply, run_apply, hover]
  · obtain ⟨own, hown, hturn⟩ := turn_of_unread h
    let rest := repl.turns after next
    refine Or.inr ⟨rest.outcome, rest.store, .loopStarted :: events, own,
      rest.events ++ (rest.outcome.toOption.map Event.loopStopped).toList, hown, ?_, ?_, ?_⟩
    · rw [← List.append_nil before, run_apply, hleads]
      show Event.loopStarted :: (events ++ [.prompted repl.prompt] ++ [.loopStopped 0]) = _
      rw [List.append_assoc]
      rfl
    · rw [run_apply, hleads, turns_cons_of_none (hturn next)]
      dsimp only
      rw [List.cons_append, List.cons_append, List.append_assoc, List.append_assoc,
        List.append_assoc]
    · rw [run_apply, hleads]
      dsimp only
      rw [List.cons_append, List.append_assoc]

end Repl

/-- **What cannot be read leaves no trace.** If reading is what fails, in whatever
way, then no environment is changed, nothing is listed and nothing logged. An
evaluation never fails like that, whatever the expression and the store. And
from the input of the loop, a line that is blank or cannot be read can be taken
out: the status, the store and all work stay as they are, and a loop that is
broken off, by a value that cannot be shown, is broken off without the line too.
Either the loop ends before it gets there, or what is missing is the prompt for
the line and the report of its fault, right behind what the loop shows for the
lines before. -/
theorem unread_text_leaves_no_trace :
    (∀ limit env strict source store reason, reason.IsReading →
        (evaluateText limit env strict source store).outcome = .error reason →
        (evaluateText limit env strict source store).store = store
          ∧ (evaluateText limit env strict source store).events = [])
      ∧ (∀ limit env e store reason, (evaluate limit env e store).outcome = .error reason →
          ¬ reason.IsReading)
      ∧ ∀ (repl : Repl) store before line after, repl.Unread line →
          let whole := repl.run (before ++ .line line :: after) store
          let rest := repl.run (before ++ after) store
          ((∃ status, whole.outcome = .ok status ∧ rest.outcome = .ok status)
              ∨ whole.outcome = .error .exhausted ∧ rest.outcome = .error .exhausted)
            ∧ whole.store = rest.store
            ∧ whole.events.filter Event.isWork = rest.events.filter Event.isWork
            ∧ ((∀ inputs, repl.run (before ++ inputs) store = repl.run before store)
              ∨ ∃ first own last, repl.UnreadEvents line own
                ∧ (repl.run before store).events
                    = first ++ [.prompted repl.prompt, .loopStopped 0]
                ∧ whole.events = first ++ own ++ last
                ∧ rest.events = first ++ last) := by
  refine ⟨?_, fun _ _ _ _ _ h => (evaluate_isEvaluating h).not_isReading, ?_⟩
  · intro limit env strict source store reason hreason h
    rw [evaluateText_of_isReading hreason h]
    exact ⟨rfl, rfl⟩
  · intro repl store before line after hunread whole rest
    have hends : (∃ status, rest.outcome = .ok status) ∨ rest.outcome = .error .exhausted :=
      Repl.run_ends _
    rcases Repl.run_of_unread hunread before after with hover | hleads
    · have hsame : whole = rest := (hover _).trans (hover _).symm
      rw [hsame]
      exact ⟨hends.imp (fun ⟨status, h⟩ => ⟨status, h, h⟩) fun h => ⟨h, h⟩, rfl, rfl,
        Or.inl hover⟩
    · obtain ⟨outcome, mid, first, own, last, hown, hbefore, hwhole, hrest⟩ := hleads
      have hwhole' : whole = ⟨outcome, mid, first ++ own ++ last⟩ := hwhole
      have hrest' : rest = ⟨outcome, mid, first ++ last⟩ := hrest
      rw [hrest'] at hends
      rw [hwhole', hrest']
      refine ⟨hends.imp (fun ⟨status, h⟩ => ⟨status, h, h⟩) fun h => ⟨h, h⟩, rfl, ?_,
        Or.inr ⟨first, own, last, hown, hbefore, rfl, rfl⟩⟩
      dsimp only
      rw [List.filter_append, List.filter_append, List.filter_append, hown.filter_isWork,
        List.append_nil]

/-- A stray parenthesis between a break and a definition. -/
theorem unread_text_leaves_no_trace_stray :
    let repl : Repl := ⟨⟨0, false, nestingLimit⟩, "> ", false⟩
    let store := (Interpreter.create {} false {}).store
    let definition := Input.line "(def 'x' 1)"
    let whole := repl.run [.interrupt, .line ")", definition] store
    let rest := repl.run [.interrupt, definition] store
    (evaluateText nestingLimit 0 false ")" store).store = store
      ∧ (evaluateText nestingLimit 0 false ")" store).events = []
      ∧ repl.Unread ")" ∧ whole.store = rest.store
      ∧ ∃ first last, whole.events = first ++ [.prompted "> ",
            .reported (.reading .strayClose),
            .answered "Error: UnmatchedCloseParen: Unexpected ')'"] ++ last
          ∧ rest.events = first ++ last := by
  intro repl store definition whole rest
  have hread : readFirst nestingLimit false ")" = .error (.fault (.reading .strayClose)) := by
    cbv
  have hunread : repl.Unread ")" := Or.inr ⟨_, hread⟩
  obtain ⟨hatomic, -, h⟩ := unread_text_leaves_no_trace
  obtain ⟨hsame, hnone⟩ := hatomic nestingLimit 0 false ")" store _ (.fault .strayClose)
    (congrArg Run.outcome (evaluateText_of_readFirst_error hread store))
  obtain ⟨-, hstore, -, hevents⟩ := h repl store [.interrupt] ")" [definition] hunread
  refine ⟨hsame, hnone, hunread, hstore, ?_⟩
  rcases hevents with hover | ⟨first, own, last, hown, -, hwhole, hrest⟩
  · have hlength := congrArg (fun r => r.events.length) (hover [.interrupt])
    exact absurd hlength (by cbv)
  · cases hown with
    | blank hblank => exact absurd hblank (by decide)
    | fault _ hfault =>
        cases hread.symm.trans hfault
        exact ⟨first, last, hwhole, hrest⟩

end TinyLisp
