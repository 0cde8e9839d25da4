import TinyLisp.Proofs.Loop
import TinyLisp.Proofs.Reading
import TinyLisp.Proofs.Values

/-!
# How many levels a text needs

Reading and evaluating go down a limited number of levels, and fail with a
fault of its own when they run out of them. How many levels a text needs shows
in its parentheses: one more than are ever open at once. The headline is
`nesting_bounded_by_text`, for every session that is driven by text.

The reader opens a list at each opening parenthesis, and the depth of what it
has read is reached by a prefix of the tokens (`Derives.exists_prefix`). The
evaluator takes a level for each list, and `echo` takes one more for a value.
That one is always there, since a value of a session is no list
(`evaluate_fits`): a bound list could send `echo` down without end.
-/

namespace TinyLisp

/-! ## Open parentheses -/

namespace Token

/-- How many of the opening parentheses wait for a closing one. -/
def unclosed (ts : List Token) : Nat := ts.count .opening - ts.count .closing

/-- Nowhere in the tokens are more parentheses open than the bound says. -/
def OpensAtMost (bound : Nat) (ts : List Token) : Prop := ∀ p, p <+: ts → unclosed p ≤ bound

instance (bound : Nat) (ts : List Token) : Decidable (OpensAtMost bound ts) :=
  decidable_of_iff (∀ p ∈ ts.inits, unclosed p ≤ bound) (by
    simp only [List.mem_inits, OpensAtMost])

end Token

theorem le_of_opensAtMost {bound n : Nat} {ts p : List Token} (hts : Token.OpensAtMost bound ts)
    (hp : p <+: ts) (hcount : p.count .opening = p.count .closing + n) : n ≤ bound := by
  have hbound := hts p hp
  unfold Token.unclosed at hbound
  omega

mutual

theorem Derives.balanced : ∀ {p : List Token} {e : Expr}, Derives p e →
    p.count .opening = p.count .closing
  | _, _, .atom _ => by simp
  | _, _, .list hs => by
      have hitems := hs.balanced
      simp [hitems]

theorem DerivesAll.balanced : ∀ {p : List Token} {es : List Expr}, DerivesAll p es →
    p.count .opening = p.count .closing
  | _, _, .nil => rfl
  | _, _, .cons h hs => by rw [List.count_append, List.count_append, h.balanced, hs.balanced]

end

mutual

/-- As many parentheses as an expression is deep are open at some place
inside it. -/
theorem Derives.exists_prefix : ∀ {p : List Token} {e : Expr}, Derives p e →
    ∃ q, q <+: p ∧ q.count .opening = q.count .closing + e.depth
  | _, _, .atom h => ⟨[], List.nil_prefix, by rw [readAtom_depth h]; rfl⟩
  | _, _, .list hs => by
      obtain ⟨q, hq, hcount⟩ := hs.exists_prefix
      have hopen : .opening :: q <+: .opening :: (_ ++ [.closing]) :=
        List.cons_prefix_cons.mpr ⟨rfl, hq.trans (List.prefix_append ..)⟩
      refine ⟨.opening :: q, hopen, ?_⟩
      simp [Expr.depth, hcount, Nat.add_assoc]

theorem DerivesAll.exists_prefix : ∀ {p : List Token} {es : List Expr}, DerivesAll p es →
    ∃ q, q <+: p ∧ q.count .opening = q.count .closing + Expr.depthAll es
  | _, _, .nil => ⟨[], List.nil_prefix, rfl⟩
  | _, _, @DerivesAll.cons p _ e es h hs => by
      rcases Nat.le_total e.depth (Expr.depthAll es) with hle | hle
      · -- a later item is the deepest, and before it all is closed again
        obtain ⟨q, hq, hcount⟩ := hs.exists_prefix
        refine ⟨p ++ q, (List.prefix_append_right_inj p).mpr hq, ?_⟩
        rw [List.count_append, List.count_append, h.balanced, hcount, Expr.depthAll,
          Nat.max_eq_right hle, Nat.add_assoc]
      · obtain ⟨q, hq, hcount⟩ := h.exists_prefix
        refine ⟨q, hq.trans (List.prefix_append ..), ?_⟩
        rw [hcount, Expr.depthAll, Nat.max_eq_left hle]

end

/-! ## Levels of the reader -/

theorem readAtom_ne_nesting {text stage : String} :
    readAtom text ≠ .error (.fault (.nesting stage)) := by
  intro h
  rcases readAtom_eq_error h with ⟨-, hreason⟩ | hreason | hreason <;> cases hreason

/-- The reader runs out of levels only where that many lists are open: by
induction on the tokens, each parenthesis moves the room that is left. -/
theorem readList_nesting : ∀ {ts : List Token} {room : Nat} {items : List Expr}
    {outer : List (List Expr)} {stage : String},
    readList room items outer ts = .error (.fault (.nesting stage)) →
    ∃ p, p <+: ts ∧ p.count .opening = p.count .closing + (room + 1)
  | [], _, _, _, _, h => by
      rw [readList] at h
      cases h
  | .opening :: ts, 0, _, _, _, _ => ⟨[.opening], List.prefix_append [_] ts, rfl⟩
  | .opening :: ts, room + 1, _, _, _, h => by
      rw [readList] at h
      obtain ⟨p, hp, hcount⟩ := readList_nesting h
      refine ⟨.opening :: p, List.cons_prefix_cons.mpr ⟨rfl, hp⟩, ?_⟩
      simp [hcount, Nat.add_assoc]
  | .closing :: ts, _, _, [], _, h => by
      rw [readList] at h
      cases h
  | .closing :: ts, room, _, _ :: _, _, h => by
      rw [readList] at h
      obtain ⟨p, hp, hcount⟩ := readList_nesting h
      refine ⟨.closing :: p, List.cons_prefix_cons.mpr ⟨rfl, hp⟩, ?_⟩
      simp [hcount]
      omega
  | .word text :: ts, _, _, _, _, h => by
      rw [readList] at h
      cases hatom : readAtom text with
      | error reason =>
          rw [hatom] at h
          cases h
          exact absurd hatom readAtom_ne_nesting
      | ok atom =>
          rw [hatom] at h
          obtain ⟨p, hp, hcount⟩ := readList_nesting h
          exact ⟨.word text :: p, List.cons_prefix_cons.mpr ⟨rfl, hp⟩, by simpa using hcount⟩

theorem parse_nesting {limit : Nat} {ts : List Token} {stage : String}
    (h : parse limit ts = .error (.fault (.nesting stage))) :
    ∃ p, p <+: ts ∧ p.count .opening = p.count .closing + (limit + 1) := by
  match ts, limit with
  | [], _ => cases h
  | .opening :: ts, 0 => exact ⟨[.opening], List.prefix_append [_] ts, rfl⟩
  | .opening :: ts, room + 1 =>
      obtain ⟨p, hp, hcount⟩ := readList_nesting h
      refine ⟨.opening :: p, List.cons_prefix_cons.mpr ⟨rfl, hp⟩, ?_⟩
      simp [hcount, Nat.add_assoc]
  | .closing :: ts, _ => cases h
  | .word text :: ts, _ =>
      rw [parse] at h
      cases hatom : readAtom text with
      | ok atom => rw [hatom] at h; cases h
      | error reason =>
          rw [hatom] at h
          cases h
          exact absurd hatom readAtom_ne_nesting

section

variable {limit bound : Nat} {strict : Bool} {source : String}
  (hsource : Token.OpensAtMost bound (tokenize source))
include hsource

theorem readFirst_ne_nesting (hlimit : bound ≤ limit) {stage : String} :
    readFirst limit strict source ≠ .error (.fault (.nesting stage)) := by
  intro h
  unfold readFirst at h
  split at h
  · rename_i reason hparse
    cases h
    obtain ⟨p, hp, hcount⟩ := parse_nesting hparse
    have := le_of_opensAtMost hsource hp hcount
    omega
  · split at h <;> cases h

theorem depth_of_readFirst {e : Expr} (h : readFirst limit strict source = .ok e) :
    e.depth ≤ bound := by
  obtain ⟨rest, hparse⟩ := readFirst_eq_ok h
  obtain ⟨p, heq, hp, -⟩ := parse_eq_ok_iff.mp hparse
  obtain ⟨q, hq, hcount⟩ := hp.exists_prefix
  exact le_of_opensAtMost hsource (heq ▸ hq.trans (List.prefix_append ..)) hcount

end

/-! ## Levels of the evaluator -/

/-- The run did not end for lack of levels. -/
def Run.Fits {α : Type} (r : Run α) : Prop :=
  ∀ stage, r.outcome ≠ .error (.fault (.nesting stage))

namespace Run.Fits

variable {α β : Type} {r : Run α}

theorem of_ok {a : α} (h : r.outcome = .ok a) : r.Fits := by
  intro stage hstage
  rw [h] at hstage
  cases hstage

theorem of_fault {cause : EvalFault} (h : r.outcome = .error cause.stop) : r.Fits := by
  intro stage hstage
  rw [h] at hstage
  cases hstage

theorem bind {first : Action α} {next : α → Action β} {s : Store} (hfirst : (first s).Fits)
    (hnext : ∀ a, (first s).outcome = .ok a → (next a (first s).store).Fits) :
    ((first >>= next) s).Fits := by
  cases h : (first s).outcome with
  | ok a =>
      rw [Action.bind_of_ok next h]
      exact hnext a h
  | error reason =>
      rw [Action.bind_of_error next h]
      intro stage hstage
      cases hstage
      exact hfirst stage h

end Run.Fits

theorem lookup_fits (env : EnvId) (name : String) (s : Store) :
    (Action.lookup env name s).Fits := by
  cases h : (s.get env).lookup? name with
  | some value => exact .of_ok (by rw [Action.lookup_of_some h])
  | none => exact .of_fault (by rw [Action.lookup_of_none h])

theorem numbers_fits (function : String) (args : List Expr) (s : Store) :
    (Action.ofExcept (numbers function args) s).Fits := by
  show ∀ stage, numbers function args ≠ _
  intro stage h
  obtain ⟨tag, -, hreason⟩ := numbers_eq_error h
  cases hreason

theorem applyDefine_fits (home : EnvId) (args : List Expr) (s : Store) :
    (applyDefine home args s).Fits := by
  unfold applyDefine
  split
  · exact .bind (.of_ok rfl) fun _ _ => .of_ok rfl
  · exact .of_fault rfl
  · exact .of_fault rfl

theorem exitStop_ne_nesting {args : List Expr} {stage : String} :
    exitStop args ≠ .fault (.nesting stage) := by
  unfold exitStop
  split <;> exact fun h => nomatch h

section

variable {home : EnvId} {limit : Nat}

/-- Evaluating a value once more takes one level: there is nothing inside. -/
theorem evaluate_value_fits (hlimit : 0 < limit) {v : Expr} (hv : IsValue home v)
    (env : EnvId) (s : Store) : (evaluate limit env v s).Fits := by
  obtain ⟨limit, rfl⟩ : ∃ n, limit = n + 1 := ⟨limit - 1, by omega⟩
  cases hv with
  | number | literal => exact .of_ok rfl
  | null | add | subtract | define | echo | listing | exit => exact .of_fault rfl

theorem applyOperation_fits (hlimit : 0 < limit) {name : String} {operation : Operation}
    (hfn : IsValue home (.fn name operation)) {args : List Expr}
    (hargs : ∀ v ∈ args, IsValue home v) {s : Store} (hs : HoldsValues home s) :
    (applyOperation (evaluate limit) operation args s).Fits := by
  cases operation with
  | add => exact (numbers_fits "+" args s).bind fun _ _ => .of_ok rfl
  | subtract => exact (numbers_fits "-" args s).bind fun _ _ => .of_ok rfl
  | define env => exact applyDefine_fits env args s
  | echo env =>
      match args with
      | [v] => exact evaluate_value_fits hlimit (hargs v (List.mem_singleton_self v)) env s
      | [] => exact .of_fault rfl
      | _ :: _ :: _ => exact .of_fault rfl
  | listing env =>
      obtain rfl : env = home := hfn.home_eq rfl
      refine .of_ok (a := .null) ?_
      rw [applyOperation, applyListing, listEnv_apply, hs.isRenderable, if_pos rfl]
  | exit => exact fun stage h => exitStop_ne_nesting (Except.error.inj h)
  | interrupt =>
      intro stage h
      cases h

theorem evaluateArgs_fits {es : List Expr}
    (hes : ∀ e ∈ es, ∀ s, HoldsValues home s → (evaluate limit home e s).Fits) {s : Store}
    (hs : HoldsValues home s) : (evaluateArgs (evaluate limit home) es s).Fits := by
  induction es generalizing s with
  | nil => exact .of_ok rfl
  | cons e rest ih =>
      obtain ⟨he, hrest⟩ := List.forall_mem_cons.mp hes
      refine (he s hs).bind fun _ _ => ?_
      have hkept := (valuePolicy home).evaluate_keeps limit rfl (e := e) trivial hs
      exact (ih hrest hkept.store).bind fun _ _ => .of_ok rfl

/-- An environment that holds values only gives each expression all the levels
it needs: one for each list around the innermost place, and one for that place
or for a value that `echo` evaluates there. -/
theorem evaluate_fits {e : Expr} (hdepth : e.depth < limit) {s : Store}
    (hs : HoldsValues home s) : (evaluate limit home e s).Fits := by
  induction limit generalizing e s with
  | zero => exact absurd hdepth (Nat.not_lt_zero _)
  | succ limit ih =>
      match e with
      | .symbol name => exact lookup_fits home name s
      | .literal text => exact .of_ok rfl
      | .number x => exact .of_ok rfl
      | .fn name operation => exact .of_fault rfl
      | .null => exact .of_fault rfl
      | .list [] => exact .of_fault rfl
      | .list (head :: tail) =>
          have hitems : ∀ item ∈ head :: tail, item.depth < limit := fun item hitem =>
            Nat.lt_of_lt_of_le (Expr.depth_lt_of_mem hitem) (Nat.le_of_lt_succ hdepth)
          obtain ⟨hhead, htail⟩ := List.forall_mem_cons.mp hitems
          refine (ih hhead hs).bind fun value hvalue => ?_
          have hkept := (valuePolicy home).evaluate_keeps limit rfl (e := head) trivial hs
          cases value with
          | fn name operation =>
              have htail' := evaluateArgs_fits (fun arg harg s hs => ih (htail arg harg) hs)
                hkept.store
              refine htail'.bind fun args hargs => .bind (.of_ok rfl) fun _ _ => ?_
              have hcode : ∀ arg ∈ tail, (valuePolicy home).code arg := fun _ _ => trivial
              have hkept' := (valuePolicy home).evaluateArgs_keeps limit rfl hcode hkept.store
              exact applyOperation_fits (Nat.zero_lt_of_lt hhead) (hkept.value _ hvalue)
                (hkept'.value args hargs) hkept'.store
          | symbol | literal | number | list | null => exact .of_fault rfl

end

/-! ## The answer of a step -/

/-- A report starts with the kind of the fault, after a mark that depends on
the colour only. -/
theorem Stop.report_toList (stop : Stop) (color : Bool) :
    ∃ rest, (stop.report color).toList =
      (bif color then "\x1b[91mError: " else "Error: ").toList
        ++ ((stop.kinds.headD "").toList ++ rest) := by
  cases color with
  | false =>
      refine ⟨": ".toList ++ stop.message.toList, ?_⟩
      simp [Stop.report]
  | true =>
      refine ⟨": ".toList ++ stop.message.toList ++ "\x1b[0m".toList, ?_⟩
      simp [Stop.report, Text.paint, Text.Color.code]

theorem report_ne_nesting {fault : Fault} (h : ∀ stage, fault ≠ .nesting stage)
    (color : Bool) (stage : String) :
    (Stop.fault fault).report color ≠ (Stop.fault (.nesting stage)).report color := by
  intro heq
  obtain ⟨rest, hleft⟩ := (Stop.fault fault).report_toList color
  obtain ⟨rest', hright⟩ := (Stop.fault (.nesting stage)).report_toList color
  rw [heq, hright] at hleft
  have hkinds := List.append_cancel_left hleft
  -- no other kind starts as this one does
  cases fault with
  | general message => simp [Stop.kinds, Fault.kinds] at hkinds
  | reading cause => cases cause <;> simp [Stop.kinds, Fault.kinds, ReadFault.kinds] at hkinds
  | evaluation cause => cases cause <;> simp [Stop.kinds, Fault.kinds, EvalFault.kinds] at hkinds
  | nesting stage => exact h stage rfl

theorem render_ne_report (e : Expr) (stop : Stop) (color : Bool) :
    e.render color ≠ stop.report color := by
  intro heq
  obtain ⟨rest, hreport⟩ := stop.report_toList color
  rw [← heq] at hreport
  cases color <;> simp [Expr.render] at hreport

/-! ## Texts -/

theorem evaluateText_fits {home : EnvId} {limit bound : Nat} {source : String}
    (hsource : Token.OpensAtMost bound (tokenize source)) (hlimit : bound < limit)
    (strict : Bool) {s : Store} (hs : HoldsValues home s) :
    (evaluateText limit home strict source s).Fits := by
  refine .bind (fun stage => readFirst_ne_nesting hsource (Nat.le_of_lt hlimit)) fun e he => ?_
  exact evaluate_fits (Nat.lt_of_le_of_lt (depth_of_readFirst hsource he) hlimit) hs

/-- A step of the loop that neither ended for lack of levels nor says so, to
the user or in the log. -/
structure Run.StepFits (color : Bool) (r : Run (Option String)) : Prop where
  fits : r.Fits
  reported : ∀ stage, .reported (.nesting stage) ∉ r.events
  answer : ∀ stage, r.outcome ≠ .ok (some ((Stop.fault (.nesting stage)).report color))

theorem Repl.step_fits (repl : Repl) {line : String} {s : Store}
    (h : (repl.interpreter.eval line s).Fits) : (repl.step line s).StepFits repl.color := by
  cases hblank : Text.isBlankText line with
  | true =>
      rw [step, hblank, if_pos rfl, Action.pure_apply]
      refine ⟨.of_ok rfl, fun _ => List.not_mem_nil, fun _ hsome => ?_⟩
      cases hsome
  | false =>
      -- the evaluation reports nothing; what the step may report is how it ended
      have hwork := evaluateText_isWork repl.interpreter.limit repl.interpreter.env
        repl.interpreter.strict line s
      change ∀ event ∈ (repl.interpreter.eval line s).events, _ at hwork
      have hstep : StepOf repl.color (repl.interpreter.eval line s) (repl.step line s) :=
        stepOf_eval hblank
      generalize repl.interpreter.eval line s = r at h hwork hstep
      generalize repl.step line s = t at hstep
      have hquiet : ∀ stage, .reported (.nesting stage) ∉ r.events := by
        intro stage hevent
        cases hwork _ hevent
      cases hstep with
      | @value v =>
          refine ⟨.of_ok rfl, hquiet, fun stage hsome => ?_⟩
          exact render_ne_report v _ repl.color (Option.some.inj (Except.ok.inj hsome))
      | @fault fault =>
          have hfault : ∀ stage, fault ≠ .nesting stage := fun stage heq => h stage (heq ▸ rfl)
          refine ⟨.of_ok rfl, fun stage hevent => ?_, fun stage hsome => ?_⟩
          · rcases List.mem_append.mp hevent with hevent | hevent
            · exact hquiet stage hevent
            · exact hfault stage (Event.reported.inj (List.mem_singleton.mp hevent)).symm
          · exact report_ne_nesting hfault repl.color stage
              (Option.some.inj (Except.ok.inj hsome))
      | unshown | exit | interrupted =>
          refine ⟨fun stage hstage => ?_, hquiet, fun stage hsome => ?_⟩
          · cases hstage
          · cases hsome

/-- **A text needs one level more than it ever has parentheses open.** A new
interpreter is asked anything, any number of times, whatever that defines and
however it ends. A text in which no more than `bound` parentheses are open at
any place is then read and evaluated without running out of levels, in either
mode and as a line of the loop, if there are more than `bound` of them. The
length of the text, the number of bindings and the calls of `echo` make no
difference. -/
theorem nesting_bounded_by_text (store : Store) (strict : Bool) :
    ∃ made, (Interpreter.create {} strict store).outcome = .ok made
      ∧ ∀ calls : List Call, (∀ call ∈ calls, call.env = made.env) →
        ∀ interpreter : Interpreter, interpreter.env = made.env →
        ∀ (bound : Nat) (source : String), Token.OpensAtMost bound (tokenize source) →
          bound + 1 ≤ interpreter.limit →
          let session := (Interpreter.create {} strict store).store.after calls
          (interpreter.eval source session).Fits
            ∧ (∀ mode, (evaluateText interpreter.limit interpreter.env mode source session).Fits)
            ∧ ∀ prompt color,
              ((Repl.mk interpreter prompt color).step source session).StepFits color := by
  refine ⟨⟨store.fresh, strict, nestingLimit⟩, by rw [Interpreter.create_apply], ?_⟩
  intro calls hcalls interpreter henv bound source hsource hlimit session
  have hsession : HoldsValues interpreter.env session := by
    rw [henv]
    exact Policy.after_keeps (valuePolicy_permissive store.fresh) hcalls
      (holdsValues_create strict store)
  have hfits := fun mode => evaluateText_fits hsource hlimit mode hsession
  exact ⟨hfits interpreter.strict, hfits, fun prompt color =>
    Repl.step_fits ⟨interpreter, prompt, color⟩ (hfits interpreter.strict)⟩

/-- A line that calls `echo` under a second name, twice, one call inside the
other: three levels are enough for it and two are not. -/
theorem nesting_bounded_by_text_echo :
    let start := (Interpreter.create {} false {}).store
    let calls := [Call.mk ⟨0, false, nestingLimit⟩ (fun _ => .error .notFound)
      (.eval "(def 'x' echo)")]
    let line := "(x (x 'a'))"
    (∀ call ∈ calls, call.env = 0)
      ∧ Token.OpensAtMost 2 (tokenize line)
      ∧ (Interpreter.eval ⟨0, false, 3⟩ line (start.after calls)).Fits
      ∧ ((Repl.mk ⟨0, false, 3⟩ "" false).step line (start.after calls)).StepFits false
      ∧ (Interpreter.eval ⟨0, false, 3⟩ line (start.after calls)).outcome = .ok (.literal "a")
      ∧ (Interpreter.eval ⟨0, false, 2⟩ line (start.after calls)).outcome
          = .error (.fault (.nesting "evaluate")) := by
  intro start calls line
  obtain ⟨made, hmade, h⟩ := nesting_bounded_by_text {} false
  rw [Interpreter.create_apply] at hmade
  cases hmade
  have hcalls : ∀ call ∈ calls, call.env = 0 := List.forall_mem_singleton.mpr rfl
  have htokens : tokenize line = [.opening, .word "x", .opening, .word "x", .word "'a'",
      .closing, .closing] := by cbv
  have hline : Token.OpensAtMost 2 (tokenize line) := by
    rw [htokens]
    decide
  obtain ⟨heval, -, hstep⟩ := h calls hcalls ⟨0, false, 3⟩ rfl 2 line hline (Nat.le_refl 3)
  exact ⟨hcalls, hline, heval, hstep "" false, by cbv, by cbv⟩

end TinyLisp
