import TinyLisp.Proofs.Accounting
import TinyLisp.Proofs.Extent

/-!
# Strict and lenient reading

A strict reader refuses tokens behind the expression that was asked for, a
lenient one does not look at them. That is all the difference there is
(`readFirst_modes`). In the interactive loop it shows for the first time at a line
that leaves tokens over: up to there the two loops do the same, event by event, and
then the strict one reports the line and evaluates nothing of it
(`Repl.turns_modes`). The headline is `strict_refuses_trailing_only`.
-/

namespace TinyLisp

/-! ## One text -/

/-- The text starts with the expression and goes on with the given tokens, at least
one. -/
structure LeavesOver (limit : Nat) (source : String) (e : Expr) (rest : List Token) : Prop where
  /-- Without regard to what follows, the expression is read. -/
  reads : readFirst limit false source = .ok e
  /-- What follows are the tokens behind those that the expression takes up. -/
  behind : ∃ p, tokenize source = p ++ rest ∧ Derives p e
  ne_nil : rest ≠ []

/-- The fault of a text with tokens left over. -/
def trailing (rest : List Token) : ReadFault := .trailingTokens (rest.map Token.text)

section

variable {limit : Nat} {source : String} {e : Expr} {rest : List Token}

theorem readFirst_lenient (limit : Nat) (source : String) :
    readFirst limit false source = Prod.fst <$> parse limit (tokenize source) := by
  unfold readFirst
  split
  · rename_i h
    rw [h]
    rfl
  · rename_i h
    rw [h, Bool.false_and, if_neg Bool.false_ne_true]
    rfl

theorem leavesOver_iff :
    LeavesOver limit source e rest ↔
      parse limit (tokenize source) = .ok (e, rest) ∧ rest ≠ [] := by
  constructor
  · rintro ⟨hread, ⟨p, htokens, hp⟩, hne⟩
    obtain ⟨other, hparse⟩ := readFirst_eq_ok hread
    obtain ⟨q, htokens', hq, -⟩ := parse_eq_ok_iff.mp hparse
    obtain ⟨rfl, -⟩ := hp.unique_of_append hq (htokens.symm.trans htokens')
    obtain rfl := List.append_cancel_left (htokens.symm.trans htokens')
    exact ⟨hparse, hne⟩
  · rintro ⟨hparse, hne⟩
    obtain ⟨p, htokens, hp, -⟩ := parse_eq_ok_iff.mp hparse
    refine ⟨?_, ⟨p, htokens, hp⟩, hne⟩
    rw [readFirst_lenient, hparse]
    rfl

theorem LeavesOver.readFirst_strict (h : LeavesOver limit source e rest) :
    readFirst limit true source = .error (trailing rest).stop := by
  obtain ⟨hparse, hne⟩ := leavesOver_iff.mp h
  simp [readFirst, hparse, hne, trailing]

/-- What is left over is found by counting parentheses, and no count ends with the
fault of a strict reader. -/
theorem parse_ne_trailingTokens {ts : List Token} (tokens : List String) :
    parse limit ts ≠ .error (ReadFault.trailingTokens tokens).stop := by
  intro h
  obtain ⟨r, hfound⟩ := Token.exists_finding limit ts
  have hend := hfound.parse_eq
  rw [h] at hend
  cases hfound with
  | rejected _ hatom _ =>
      cases hend
      rcases readAtom_eq_error hatom with ⟨-, heq⟩ | heq | heq <;> cases heq
  | nothing | stray | extent | unclosed | tooDeep => cases hend

/-- **The two modes of reading.** Either tokens are left over, which only the strict
reader minds, or the readers do the same, which then is not to find tokens left
over. -/
theorem readFirst_modes (limit : Nat) (source : String) :
    (∃ e rest, LeavesOver limit source e rest)
      ∨ (readFirst limit true source = readFirst limit false source
        ∧ ∀ tokens, readFirst limit true source
            ≠ .error (ReadFault.trailingTokens tokens).stop) := by
  cases hparse : parse limit (tokenize source) with
  | error reason =>
      have hboth : ∀ strict, readFirst limit strict source = .error reason := by
        intro strict
        simp [readFirst, hparse]
      refine Or.inr ⟨(hboth true).trans (hboth false).symm, fun tokens heq => ?_⟩
      cases (hboth true).symm.trans heq
      exact parse_ne_trailingTokens tokens hparse
  | ok pair =>
      obtain ⟨e, rest⟩ := pair
      by_cases hrest : rest = []
      · subst hrest
        have hboth : ∀ strict, readFirst limit strict source = .ok e := by
          intro strict
          simp [readFirst, hparse]
        refine Or.inr ⟨(hboth true).trans (hboth false).symm, fun tokens heq => ?_⟩
        rw [hboth true] at heq
        cases heq
      · exact Or.inl ⟨e, rest, leavesOver_iff.mpr ⟨hparse, hrest⟩⟩

theorem readFirst_eq_trailingTokens_iff {tokens : List String} :
    readFirst limit true source = .error (ReadFault.trailingTokens tokens).stop ↔
      ∃ e rest, LeavesOver limit source e rest ∧ tokens = rest.map Token.text := by
  constructor
  · intro h
    rcases readFirst_modes limit source with ⟨e, rest, hover⟩ | ⟨-, hnone⟩
    · cases hover.readFirst_strict.symm.trans h
      exact ⟨e, rest, hover, rfl⟩
    · exact absurd h (hnone tokens)
  · rintro ⟨e, rest, hover, rfl⟩
    exact hover.readFirst_strict

end

/-! ## One line -/

/-- The line was reported for the tokens behind its expression. -/
def Event.refused (tokens : List String) : Event := .reported (.reading (.trailingTokens tokens))

theorem Event.refused_not_mem_of_isWork {events : List Event} {tokens : List String}
    (h : ∀ event ∈ events, event.isWork = true) : .refused tokens ∉ events :=
  fun hmem => Bool.false_ne_true (h _ hmem)

namespace Repl

/-- The same loop, strict or not. -/
def inMode (repl : Repl) (strict : Bool) : Repl :=
  { repl with interpreter := { repl.interpreter with strict } }

theorem eval_inMode (repl : Repl) (strict : Bool) (line : String) :
    (repl.inMode strict).interpreter.eval line
      = evaluateText repl.interpreter.limit repl.interpreter.env strict line := rfl

/-- What happens at a line that the strict loop refuses. -/
def refusal (repl : Repl) (rest : List Token) : List Event :=
  [.prompted repl.prompt, .refused (rest.map Token.text),
    .answered ((trailing rest).stop.report repl.color)]

variable {repl : Repl} {store : Store}

section

variable {line : String} {e : Expr} {rest : List Token}
  (h : LeavesOver repl.interpreter.limit line e rest)
include h

theorem isBlankText_of_leavesOver : Text.isBlankText line = false := by
  obtain ⟨hparse, -⟩ := leavesOver_iff.mp h
  cases hblank : Text.isBlankText line with
  | false => rfl
  | true =>
      rw [tokenize_of_isBlankText hblank] at hparse
      cases hparse

theorem unread_of_leavesOver : (repl.inMode true).Unread line :=
  Or.inr ⟨_, h.readFirst_strict⟩

/-- The strict loop evaluates nothing of the line. -/
theorem turn_of_leavesOver (store : Store) :
    (repl.inMode true).turn (.line line) store = ⟨.ok none, store, repl.refusal rest⟩ := by
  obtain ⟨own, hown, hturn⟩ := turn_of_unread (unread_of_leavesOver h)
  rw [hturn store]
  cases hown with
  | blank hblank => exact absurd (isBlankText_of_leavesOver h) (by simp [hblank])
  | fault _ hfault =>
      cases h.readFirst_strict.symm.trans hfault
      rfl

/-- The lenient loop evaluates the expression. -/
theorem evaluation?_of_leavesOver (store : Store) :
    (repl.inMode false).evaluation? store (.line line)
      = some (evaluate repl.interpreter.limit repl.interpreter.env e store) := by
  rw [evaluation?_of_line (unread_of_leavesOver h).not_isQuit (isBlankText_of_leavesOver h),
    eval_inMode, evaluateText, h.reads]
  rfl

end

theorem evaluation?_eq_some {input : Input} {r : Run Expr}
    (h : repl.evaluation? store input = some r) :
    ∃ line, input = .line line ∧ repl.interpreter.eval line store = r := by
  cases input with
  | interrupt => cases h
  | line text =>
      refine ⟨text, rfl, ?_⟩
      rw [evaluation?] at h
      split at h
      · cases h
      · exact Option.some.inj h

theorem outcome_of_reported {input : Input} {fault : Fault}
    (h : .reported fault ∈ repl.reports store input) :
    ∃ r, repl.evaluation? store input = some r ∧ r.outcome = .error (.fault fault) := by
  unfold reports at h
  split at h
  · rename_i other hother
    cases List.mem_singleton.mp h
    exact Option.map_eq_some_iff.mp hother
  · cases h

theorem mem_reports_of_refused {input : Input} {tokens : List String}
    (h : .refused tokens ∈ (repl.turn input store).events) :
    .refused tokens ∈ repl.reports store input := by
  have hwork : .refused tokens ∉ repl.work store input :=
    Event.refused_not_mem_of_isWork (work_isWork input)
  unfold Event.refused at h hwork ⊢
  rcases @turn_apply repl store input with ⟨-, hturn⟩ | ⟨-, hturn⟩
  · simp [hturn, hwork] at h
  · simpa [hturn, entry, hwork] using h

/-- Only a line that could not be read for the tokens behind its expression is
reported so: no evaluation fails like that. -/
theorem readFirst_of_refused {input : Input} {tokens : List String}
    (h : .refused tokens ∈ (repl.turn input store).events) :
    ∃ line, input = .line line ∧ readFirst repl.interpreter.limit repl.interpreter.strict line
      = .error (ReadFault.trailingTokens tokens).stop := by
  obtain ⟨r, hr, hfault⟩ := outcome_of_reported (mem_reports_of_refused h)
  obtain ⟨line, rfl, rfl⟩ := evaluation?_eq_some hr
  exact ⟨line, rfl, readFirst_of_isReading (.fault _) hfault⟩

/-! ## Turn by turn -/

/-- An input that the strict loop does not refuse makes no difference. -/
theorem turn_modes (repl : Repl) (input : Input) :
    (∃ line e rest, input = .line line ∧ LeavesOver repl.interpreter.limit line e rest)
      ∨ ∀ store, (repl.inMode true).turn input store = (repl.inMode false).turn input store
        ∧ ∀ tokens, .refused tokens ∉ ((repl.inMode true).turn input store).events := by
  cases input with
  | interrupt =>
      refine Or.inr fun store => ⟨rfl, fun tokens h => ?_⟩
      obtain ⟨line, hline, -⟩ := readFirst_of_refused h
      cases hline
  | line text =>
      rcases readFirst_modes repl.interpreter.limit text with ⟨e, rest, hover⟩ | ⟨hsame, hnone⟩
      · exact Or.inl ⟨text, e, rest, rfl, hover⟩
      · refine Or.inr fun store => ⟨?_, fun tokens h => ?_⟩
        · have heval : (repl.inMode true).interpreter.eval text
              = (repl.inMode false).interpreter.eval text := by
            rw [eval_inMode, eval_inMode, evaluateText, evaluateText, hsame]
          simp only [turn, step, heval]
          rfl
        · obtain ⟨line, hline, hread⟩ := readFirst_of_refused h
          cases hline
          exact hnone tokens hread

/-- Both loops get through the inputs alike: to one store, with the same events, none of
them a refusal. They go on with what comes next, each in its mode. -/
structure Lockstep (repl : Repl) (inputs : List Input) (store after : Store)
    (events : List Event) : Prop where
  turns_append : ∀ strict rest, (repl.inMode strict).turns (inputs ++ rest) store =
    ⟨((repl.inMode strict).turns rest after).outcome,
      ((repl.inMode strict).turns rest after).store,
      events ++ ((repl.inMode strict).turns rest after).events⟩
  not_refused : ∀ tokens, .refused tokens ∉ events

theorem Lockstep.nil (repl : Repl) (store : Store) : repl.Lockstep [] store store [] where
  turns_append _ _ := rfl
  not_refused _ := List.not_mem_nil

theorem Lockstep.cons {input : Input} {inputs : List Input} {mid after : Store}
    {first events : List Event}
    (hturn : ∀ strict, (repl.inMode strict).turn input store = ⟨.ok none, mid, first⟩)
    (hfirst : ∀ tokens, .refused tokens ∉ first) (h : repl.Lockstep inputs mid after events) :
    repl.Lockstep (input :: inputs) store after (first ++ events) where
  turns_append strict rest := by
    rw [List.cons_append, turns_cons_of_none (hturn strict), h.turns_append, List.append_assoc]
  not_refused tokens := List.not_mem_append (hfirst tokens) (h.not_refused tokens)

/-- **The two modes of the loop.** They do the same to the end and nothing is refused, or
they do so up to a line that leaves tokens over. By induction on the inputs: as long as
none is such a line, the turns are the same. -/
theorem turns_modes (repl : Repl) (inputs : List Input) (store : Store) :
    ((repl.inMode true).turns inputs store = (repl.inMode false).turns inputs store
        ∧ ∀ tokens, .refused tokens ∉ ((repl.inMode true).turns inputs store).events)
      ∨ ∃ before line after e rest mid events, inputs = before ++ .line line :: after
        ∧ LeavesOver repl.interpreter.limit line e rest
        ∧ repl.Lockstep before store mid events := by
  induction inputs generalizing store with
  | nil =>
      refine Or.inl ⟨rfl, fun tokens h => ?_⟩
      cases List.mem_singleton.mp h
  | cons input inputs ih =>
      rcases repl.turn_modes input with ⟨line, e, rest, rfl, hover⟩ | hsame
      · exact Or.inr ⟨[], line, inputs, e, rest, store, [], rfl, hover, .nil repl store⟩
      obtain ⟨heq, hrefused⟩ := hsame store
      generalize hturn : (repl.inMode true).turn input store = r at heq hrefused
      obtain ⟨reason | _ | status, mid, first⟩ := r
      · rw [turns_cons_of_error hturn, turns_cons_of_error heq.symm]
        exact Or.inl ⟨rfl, hrefused⟩
      · rcases ih mid with ⟨hrest, hnone⟩ | ⟨before, line, after, e, rest, last, events, rfl,
          hover, hlock⟩
        · rw [turns_cons_of_none hturn, turns_cons_of_none heq.symm, hrest]
          rw [hrest] at hnone
          exact Or.inl ⟨rfl, fun tokens => List.not_mem_append (hrefused tokens) (hnone tokens)⟩
        · refine Or.inr ⟨input :: before, line, after, e, rest, last, first ++ events, rfl,
            hover, hlock.cons (fun strict => ?_) hrefused⟩
          cases strict with
          | true => exact hturn
          | false => exact heq.symm
      · rw [turns_cons_of_some hturn, turns_cons_of_some heq.symm]
        exact Or.inl ⟨rfl, hrefused⟩

/-! ## The whole loop -/

/-- The loop that has caused the events and is now at the store, with the inputs to
come. -/
def resume (repl : Repl) (events : List Event) (inputs : List Input) (store : Store) : Run Int :=
  let r := repl.turns inputs store
  ⟨r.outcome, r.store, .loopStarted :: (events ++ (r.events
    ++ (r.outcome.toOption.map Event.loopStopped).toList))⟩

theorem resume_cons_of_none {input : Input} {mid : Store} {first : List Event}
    (h : repl.turn input store = ⟨.ok none, mid, first⟩) (events : List Event)
    (inputs : List Input) :
    repl.resume events (input :: inputs) store = repl.resume (events ++ first) inputs mid := by
  simp [resume, turns_cons_of_none h]

theorem Lockstep.run_append {inputs : List Input} {after : Store} {events : List Event}
    (h : repl.Lockstep inputs store after events) (strict : Bool) (rest : List Input) :
    (repl.inMode strict).run (inputs ++ rest) store
      = (repl.inMode strict).resume events rest after := by
  simp [run_apply, resume, h.turns_append]

/-- At the line that it refuses, the strict loop goes on with the next. -/
theorem Lockstep.run_refused {inputs after : List Input} {mid : Store} {events : List Event}
    (h : repl.Lockstep inputs store mid events) {line : String} {e : Expr} {rest : List Token}
    (hover : LeavesOver repl.interpreter.limit line e rest) :
    (repl.inMode true).run (inputs ++ .line line :: after) store
      = (repl.inMode true).resume (events ++ repl.refusal rest) after mid := by
  rw [h.run_append, resume_cons_of_none (turn_of_leavesOver hover mid)]

theorem refused_mem_run {inputs : List Input} {tokens : List String} :
    .refused tokens ∈ (repl.run inputs store).events ↔
      .refused tokens ∈ (repl.turns inputs store).events := by
  rw [run_apply]
  cases (repl.turns inputs store).outcome <;> simp [Event.refused]

end Repl

/-- **Strict and lenient differ on trailing tokens only.** The strict reader refuses a text
exactly if the lenient one reads an expression and leaves tokens over, and it names these
tokens in their order; on every other text they do the same. So a strict loop in which no
line is refused is the lenient loop: the status, all that is shown or logged and the store
are the same. In any case the two loops do the same up to the first line that is refused.
There the strict loop goes on from the store it is at, with nothing but the refusal, and
the lenient one evaluates the expression. -/
theorem strict_refuses_trailing_only (limit : Nat) :
    (∀ source tokens, readFirst limit true source = .error (ReadFault.trailingTokens tokens).stop ↔
        ∃ e rest, LeavesOver limit source e rest ∧ tokens = rest.map Token.text)
      ∧ (∀ source, (¬ ∃ e rest, LeavesOver limit source e rest) →
          readFirst limit true source = readFirst limit false source)
      ∧ ∀ env prompt color inputs store,
          let strict : Repl := ⟨⟨env, true, limit⟩, prompt, color⟩
          let lenient : Repl := ⟨⟨env, false, limit⟩, prompt, color⟩
          ((∀ tokens, .refused tokens ∉ (strict.run inputs store).events) →
              strict.run inputs store = lenient.run inputs store)
            ∧ ∀ tokens, .refused tokens ∈ (strict.run inputs store).events →
                ∃ before line after e rest mid events,
                  inputs = before ++ .line line :: after
                    ∧ LeavesOver limit line e rest
                    ∧ (∀ tokens, .refused tokens ∉ events)
                    ∧ strict.run inputs store
                        = strict.resume (events ++ strict.refusal rest) after mid
                    ∧ lenient.run inputs store
                        = lenient.resume events (.line line :: after) mid
                    ∧ lenient.evaluation? mid (.line line) = some (evaluate limit env e mid) := by
  refine ⟨fun _ _ => readFirst_eq_trailingTokens_iff, fun source hnone => ?_, ?_⟩
  · rcases readFirst_modes limit source with hover | ⟨hsame, -⟩
    · exact absurd hover hnone
    · exact hsame
  intro env prompt color inputs store strict lenient
  -- the strict loop stands for both: the modes of either are the two loops
  have hmodes := strict.turns_modes inputs store
  constructor
  · intro hnone
    rcases hmodes with ⟨hsame, -⟩ | ⟨before, line, after, e, rest, mid, events, rfl, hover, hlock⟩
    · show (strict.inMode true).run inputs store = (strict.inMode false).run inputs store
      rw [Repl.run_apply, Repl.run_apply, hsame]
    · refine absurd ?_ (hnone (rest.map Token.text))
      show _ ∈ ((strict.inMode true).run _ store).events
      rw [hlock.run_refused hover]
      simp [Repl.resume, Repl.refusal]
  · intro tokens hmem
    rcases hmodes with ⟨-, hnone⟩ | ⟨before, line, after, e, rest, mid, events, rfl, hover, hlock⟩
    · exact absurd (Repl.refused_mem_run.mp hmem) (hnone tokens)
    · exact ⟨before, line, after, e, rest, mid, events, rfl, hover, hlock.not_refused,
        hlock.run_refused hover, hlock.run_append false _, Repl.evaluation?_of_leavesOver hover mid⟩

/-- A definition with too much behind it. Both loops get there with `x` bound to `env`.
The strict one leaves it at that, in the lenient one `x` becomes `echo`. -/
theorem strict_refuses_trailing_only_define :
    let bindings : List (String × Expr) :=
      [("def", .fn "def" (.define 0)), ("echo", .fn "echo" (.echo 0)),
        ("env", .fn "env" (.listing 0))]
    let store : Store := ⟨[⟨bindings⟩]⟩
    let strict : Repl := ⟨⟨0, true, nestingLimit⟩, "> ", false⟩
    let lenient : Repl := ⟨⟨0, false, nestingLimit⟩, "> ", false⟩
    let first := Input.line "(def 'x' env)"
    let second := Input.line "(def 'x' echo) ) y"
    LeavesOver nestingLimit "(def 'x' echo) ) y"
        (.list [.symbol "def", .literal "x", .symbol "echo"]) [.closing, .word "y"]
      ∧ readFirst nestingLimit true "(def 'x' echo) ) y"
          = .error (ReadFault.trailingTokens [")", "y"]).stop
      ∧ strict.run [first, .interrupt] store = lenient.run [first, .interrupt] store
      ∧ .refused [")", "y"] ∈ (strict.run [first, second] store).events
      ∧ ∃ before line after e rest mid events, [first, second] = before ++ .line line :: after
          ∧ LeavesOver nestingLimit line e rest
          ∧ strict.run [first, second] store
              = strict.resume (events ++ strict.refusal rest) after mid
          ∧ lenient.run [first, second] store
              = lenient.resume events (.line line :: after) mid := by
  intro bindings store strict lenient first second
  obtain ⟨hread, -, hloop⟩ := strict_refuses_trailing_only nestingLimit
  have hover : LeavesOver nestingLimit "(def 'x' echo) ) y"
      (.list [.symbol "def", .literal "x", .symbol "echo"]) [.closing, .word "y"] :=
    leavesOver_iff.mpr ⟨by cbv, List.cons_ne_nil _ _⟩
  let after : Store := ⟨[⟨bindings ++ [("x", .fn "env" (.listing 0))]⟩]⟩
  have heval : strict.interpreter.eval "(def 'x' env)" store
      = ⟨.ok (.fn "env" (.listing 0)), after,
        [.applied "def" (.define 0) [.literal "x", .fn "env" (.listing 0)],
          .bound 0 "x" (.fn "env" (.listing 0))]⟩ := by cbv
  have hturn := @Repl.turn_of_answer strict store _ (by decide) _ _ _
    (Repl.step_of_value (by decide) rfl heval)
  have hbreak : (strict.turns [.interrupt] after).events
      = [.prompted "> ", .answered "", .prompted "> "] := rfl
  have hlong : .refused [")", "y"] ∈ (strict.run [first, second] store).events := by
    have hrefused : strict.turn second after = ⟨_, _, _⟩ :=
      @Repl.turn_of_leavesOver strict _ _ _ hover after
    rw [Repl.refused_mem_run, Repl.turns_cons_of_none hturn, Repl.turns_cons_of_none hrefused]
    simp [Repl.refusal, Token.text]
  obtain ⟨hsame, -⟩ := hloop 0 "> " false [first, .interrupt] store
  obtain ⟨-, hsplit⟩ := hloop 0 "> " false [first, second] store
  obtain ⟨before, line, after, e, rest, mid, events, heq, hline, -, hstrict, hlenient, -⟩ :=
    hsplit [")", "y"] hlong
  refine ⟨hover, (hread _ _).mpr ⟨_, _, hover, rfl⟩, hsame fun tokens hmem => ?_, hlong,
    before, line, after, e, rest, mid, events, heq, hline, hstrict, hlenient⟩
  rw [Repl.refused_mem_run, Repl.turns_cons_of_none hturn, hbreak] at hmem
  simp [Event.refused] at hmem

end TinyLisp
