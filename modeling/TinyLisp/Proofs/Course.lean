import TinyLisp.Proofs.Batch
import TinyLisp.Proofs.Calls

/-!
# Three loops over a text

A text can be evaluated to its end in three ways: all values are collected, the
last one is kept when a file is loaded, or each is printed as soon as it is
known, when a file is run as a program. The three loops are written apart, and
all of them evaluate while the text is still being read. They agree: a text has
one `Course` from a store on, and each loop runs it, up to the same end and with
the same work. The headline is `batch_loops_agree`, with what a program that is
run from a file shows to the user.

A course names the expressions that have a value, in order, each with what its
evaluation did. The last expression of a course may have done something too
before it stopped.
-/

namespace TinyLisp

/-! ## Courses -/

/-- An expression that was evaluated, with its value and what that caused. -/
structure Leg where
  form : Expr
  value : Expr
  events : List Event

/-- The legs lead from one store to another. -/
inductive Walked (limit : Nat) (env : EnvId) : Store → List Leg → Store → Prop where
  | nil (s : Store) : Walked limit env s [] s
  | cons {s t u : Store} {leg : Leg} {legs : List Leg}
      (h : evaluate limit env leg.form s = ⟨.ok leg.value, t, leg.events⟩)
      (hs : Walked limit env t legs u) : Walked limit env s (leg :: legs) u

/-- How the evaluation of a text goes. -/
structure Course where
  legs : List Leg
  /-- What the expression did that stopped the course, if one did. -/
  last : List Event
  /-- Why the course does not reach the end of the text, if it does not. -/
  stop : Option Stop
  after : Store

namespace Course

variable {α : Type}

def values (course : Course) : List Expr := course.legs.map (·.value)

def events (course : Course) : List Event := course.legs.flatMap (·.events) ++ course.last

/-- The end of a loop that has a value if it gets through. -/
def ending (course : Course) (value : α) : Except Stop α :=
  match course.stop with
  | none => .ok value
  | some reason => .error reason

theorem map_ending {β : Type} (course : Course) (f : α → β) (value : α) :
    f <$> course.ending value = course.ending (f value) := by
  unfold ending
  cases course.stop <;> rfl

end Course

/-- The course of a text: all expressions have a value, and the text is read to
its end or breaks off; or one of the expressions has none. -/
inductive Interpreter.Follows (interpreter : Interpreter) (source : String) (store : Store) :
    Course → Prop where
  | through {legs : List Leg} {stop : Option Stop} {after : Store}
      (hlegs : Walked interpreter.limit interpreter.env store legs after)
      (hread : readAll interpreter.limit source = ⟨legs.map (·.form), stop⟩) :
      Follows interpreter source store ⟨legs, [], stop, after⟩
  | stopped {legs : List Leg} {e : Expr} {behind : List Expr} {failure : Option Stop}
      {mid after : Store} {reason : Stop} {last : List Event}
      (hlegs : Walked interpreter.limit interpreter.env store legs mid)
      (hread : readAll interpreter.limit source = ⟨legs.map (·.form) ++ e :: behind, failure⟩)
      (hstop : evaluate interpreter.limit interpreter.env e mid = ⟨.error reason, after, last⟩) :
      Follows interpreter source store ⟨legs, last, some reason, after⟩

/-- By induction on the expressions: as long as they have values, they are
legs. -/
theorem exists_walked (limit : Nat) (env : EnvId) (es : List Expr) (s : Store) :
    ∃ legs mid, Walked limit env s legs mid
      ∧ (es = legs.map (·.form)
        ∨ ∃ e behind reason after last, es = legs.map (·.form) ++ e :: behind
          ∧ evaluate limit env e mid = ⟨.error reason, after, last⟩) := by
  induction es generalizing s with
  | nil => exact ⟨[], s, .nil s, Or.inl rfl⟩
  | cons e es ih =>
      rcases hfirst : evaluate limit env e s with ⟨reason | value, t, events⟩
      · exact ⟨[], s, .nil s, Or.inr ⟨e, es, reason, t, events, rfl, hfirst⟩⟩
      · obtain ⟨legs, mid, hlegs, hend⟩ := ih t
        refine ⟨⟨e, value, events⟩ :: legs, mid, .cons hfirst hlegs, ?_⟩
        rcases hend with rfl | ⟨stopping, behind, reason, after, last, rfl, hstop⟩
        · exact Or.inl rfl
        · exact Or.inr ⟨stopping, behind, reason, after, last, rfl, hstop⟩

theorem exists_follows (interpreter : Interpreter) (source : String) (store : Store) :
    ∃ course, interpreter.Follows source store course := by
  obtain ⟨legs, mid, hlegs, hend⟩ := exists_walked interpreter.limit interpreter.env
    (readAll interpreter.limit source).forms store
  rcases hend with hforms | ⟨e, behind, reason, after, last, hforms, hstop⟩
  · exact ⟨_, .through hlegs (by rw [← hforms])⟩
  · exact ⟨_, .stopped hlegs (by rw [← hforms]) hstop⟩

/-! ## Collecting the values -/

theorem Walked.evaluateForms_append {limit : Nat} {env : EnvId} {s t : Store} {legs : List Leg}
    (h : Walked limit env s legs t) (es : List Expr) :
    evaluateForms limit env (legs.map (·.form) ++ es) s =
      ⟨(legs.map (·.value) ++ ·) <$> (evaluateForms limit env es t).outcome,
        (evaluateForms limit env es t).store,
        legs.flatMap (·.events) ++ (evaluateForms limit env es t).events⟩ := by
  induction h with
  | nil s =>
      show _ = (⟨id <$> _, _, _⟩ : Run _)
      rw [id_map]
      rfl
  | @cons s t u leg legs hleg _ ih =>
      rw [List.map_cons, List.cons_append, evaluateForms_cons_of_ok hleg, ih]
      dsimp only
      rw [← comp_map, List.flatMap_cons, List.append_assoc]
      rfl

namespace Interpreter.Follows

variable {interpreter : Interpreter} {source : String} {store : Store} {course : Course}

theorem evalAll_eq (h : interpreter.Follows source store course) :
    interpreter.evalAll source store =
      ⟨course.ending course.values, course.after, course.events⟩ := by
  cases h with
  | @through legs stop after hlegs hread =>
      have hforms := hlegs.evaluateForms_append []
      change _ = (⟨.ok (_ ++ []), _, _ ++ []⟩ : Run _) at hforms
      rw [List.append_nil, List.append_nil, List.append_nil] at hforms
      rw [evalAll_eq_runScript, hread, runScript, Action.bind_of_ok _ (by rw [hforms]), hforms]
      cases stop <;> rfl
  | @stopped legs e behind failure mid after reason last hlegs hread hstop =>
      have hforms := hlegs.evaluateForms_append (e :: behind)
      rw [evaluateForms_cons_of_error hstop] at hforms
      rw [evalAll_eq_runScript, hread, runScript, Action.bind_of_error _ (by rw [hforms]; rfl),
        hforms]
      rfl

theorem load_eq (h : interpreter.Follows source store course) {files : Files} {path : Path}
    (hfile : files.readText path = .ok source) :
    interpreter.load files path store =
      ⟨course.ending (course.values.getLastD .null), course.after,
        .loading path.text :: course.events⟩ := by
  rw [load_apply hfile, h.evalAll_eq, course.map_ending]

end Interpreter.Follows

/-! ## Printing the values -/

/-- The line that is printed for an expression. -/
def Leg.line (leg : Leg) : String := Text.stripAnsi (leg.value.render false)

/-- What a course causes if each value is printed when it is known. -/
def Course.shown (course : Course) : List Event :=
  course.legs.flatMap (fun leg => leg.events ++ [.answered leg.line]) ++ course.last

theorem Interpreter.outcome_create :
    (Interpreter.create {} false {}).outcome = .ok ⟨0, false, nestingLimit⟩ := by
  rw [Interpreter.create_apply]
  rfl

namespace CommandLine

section

variable {limit : Nat} {env : EnvId} {store after : Store} {events : List Event}

theorem printForms_cons_of_ok {e value : Expr}
    (h : evaluate limit env e store = ⟨.ok value, after, events⟩) (es : List Expr) :
    printForms limit env (e :: es) store =
      ⟨(printForms limit env es after).outcome, (printForms limit env es after).store,
        events ++ .answered (Text.stripAnsi (value.render false))
          :: (printForms limit env es after).events⟩ := by
  rw [printForms, Action.bind_of_ok _ (by rw [h]), h, say, Action.emit_bind_apply]

theorem printForms_cons_of_error {e : Expr} {reason : Stop}
    (h : evaluate limit env e store = ⟨.error reason, after, events⟩) (es : List Expr) :
    printForms limit env (e :: es) store = ⟨.error reason, after, events⟩ := by
  rw [printForms, Action.bind_of_error _ (by rw [h]), h]

theorem printForms_append_of_walked {legs : List Leg} (h : Walked limit env store legs after)
    (es : List Expr) :
    printForms limit env (legs.map (·.form) ++ es) store =
      ⟨(printForms limit env es after).outcome, (printForms limit env es after).store,
        legs.flatMap (fun leg => leg.events ++ [.answered leg.line])
          ++ (printForms limit env es after).events⟩ := by
  induction h with
  | nil s => rfl
  | @cons s t u leg legs hleg _ ih =>
      rw [List.map_cons, List.cons_append, printForms_cons_of_ok hleg, ih, List.flatMap_cons,
        List.append_assoc, List.append_assoc, List.singleton_append]
      rfl

end

theorem printAll_eq {interpreter : Interpreter} {source : String} {store : Store} {course : Course}
    (h : interpreter.Follows source store course) :
    printAll interpreter source store = ⟨course.ending (), course.after, course.shown⟩ := by
  cases h with
  | @through legs stop after hlegs hread =>
      have hforms := printForms_append_of_walked hlegs []
      change _ = (⟨.ok (), _, _ ++ []⟩ : Run _) at hforms
      rw [List.append_nil, List.append_nil] at hforms
      rw [printAll, hread, Action.bind_of_ok _ (by rw [hforms]), hforms]
      cases stop <;> rfl
  | @stopped legs e behind failure mid after reason last hlegs hread hstop =>
      have hforms := printForms_append_of_walked hlegs (e :: behind)
      rw [printForms_cons_of_error hstop] at hforms
      rw [printAll, hread, Action.bind_of_error _ (by rw [hforms]), hforms]
      rfl

/-! ## Running a file -/

/-- How a program that is run ends after its course. -/
def verdictOf : Option Stop → Verdict
  | none => ⟨0, none⟩
  | some reason => stopped (·.report false) reason

theorem runFile_apply {files : Files} {path source : String} {bytes : List UInt8}
    {course : Course} (hpath : files path = .ok bytes)
    (hfile : files.readText (.ofText path) = .ok source)
    (h : Interpreter.Follows ⟨0, false, nestingLimit⟩ source
      (Interpreter.create {} false {}).store course) :
    runFile files path {} =
      ⟨.ok (verdictOf course.stop), course.after,
        (Interpreter.create {} false {}).events ++ course.shown⟩ := by
  rw [runFile, hpath]
  dsimp only
  rw [Action.bind_of_ok _ Interpreter.outcome_create, hfile]
  dsimp only
  rw [Action.attempt_bind_apply, printAll_eq h]
  obtain ⟨legs, last, stop, after⟩ := course
  cases stop
  all_goals
    show (⟨_, _, _ ++ (_ ++ [])⟩ : Run _) = _
    rw [List.append_nil]
    rfl

end CommandLine

/-! ### What is on the screen and in the log -/

theorem screen_of_isWork {events : List Event} (h : ∀ event ∈ events, event.isWork = true) :
    String.join (events.map Event.screen) = listedText events := by
  induction events with
  | nil => rfl
  | cons event rest ih =>
      obtain ⟨hevent, hrest⟩ := List.forall_mem_cons.mp h
      rw [List.map_cons, String.join_cons, ih hrest]
      cases event with
      | listed env name value =>
          show _ = String.join (_ :: _)
          rw [String.join_cons]
          rfl
      | bound | applied => exact String.empty_append
      | loading | loopStarted | loopStopped | reported | prompted | answered => cases hevent

theorem Walked.isWork {limit : Nat} {env : EnvId} {s t : Store} {legs : List Leg}
    (h : Walked limit env s legs t) :
    ∀ leg ∈ legs, ∀ event ∈ leg.events, event.isWork = true := by
  induction h with
  | nil s => exact fun _ hleg => absurd hleg List.not_mem_nil
  | cons hleg _ ih => exact List.forall_mem_cons.mpr ⟨evaluate_isWork hleg, ih⟩

/-- The listings of each leg and then its line. -/
theorem screen_legs {legs : List Leg}
    (h : ∀ leg ∈ legs, ∀ event ∈ leg.events, event.isWork = true) :
    String.join ((legs.flatMap fun leg => leg.events ++ [.answered leg.line]).map Event.screen) =
      String.join (legs.map fun leg => listedText leg.events ++ (leg.line ++ "\n")) := by
  induction legs with
  | nil => rfl
  | cons leg legs ih =>
      obtain ⟨hleg, hlegs⟩ := List.forall_mem_cons.mp h
      have hline : String.join ([Event.answered leg.line].map Event.screen) = leg.line ++ "\n" := by
        rw [List.map_singleton, String.join_cons, String.join_nil, String.append_empty,
          Event.screen]
      rw [List.flatMap_cons, List.map_append, List.map_append, String.join_append,
        String.join_append, screen_of_isWork hleg, hline, ih hlegs, List.map_cons, String.join_cons]

theorem screen_shown {interpreter : Interpreter} {source : String} {store : Store}
    {course : Course} (h : interpreter.Follows source store course) :
    String.join (course.shown.map Event.screen) =
      String.join (course.legs.map fun leg => listedText leg.events ++ (leg.line ++ "\n"))
        ++ listedText course.last := by
  rw [Course.shown, List.map_append, String.join_append]
  cases h with
  | through hlegs _ =>
      rw [screen_legs hlegs.isWork]
      rfl
  | stopped hlegs _ hstop => rw [screen_legs hlegs.isWork, screen_of_isWork (evaluate_isWork hstop)]

theorem logLines_shown (level : Level) (course : Course) :
    logLines level course.shown = logLines level course.events := by
  obtain ⟨legs, last, stop, after⟩ := course
  unfold Course.shown Course.events logLines
  rw [List.filterMap_append, List.filterMap_append]
  congr 1
  induction legs with
  | nil => rfl
  | cons leg legs ih =>
      rw [List.flatMap_cons, List.flatMap_cons, List.filterMap_append, List.filterMap_append,
        List.filterMap_append, ih]
      show _ ++ [] ++ _ = _
      rw [List.append_nil]

theorem logLines_append (level : Level) (xs ys : List Event) :
    logLines level (xs ++ ys) = logLines level xs ++ logLines level ys :=
  List.filterMap_append

theorem outcome_run {world : CommandLine.World} {path source : String} {bytes : List UInt8}
    {course : Course} (hpath : world.files path = .ok bytes)
    (hfile : world.files.readText (.ofText path) = .ok source)
    (h : Interpreter.Follows ⟨0, false, nestingLimit⟩ source
      (Interpreter.create {} false {}).store course) (level : Level) :
    (CommandLine.Invocation.command level (.run path)).outcome world =
      { status := (CommandLine.verdictOf course.stop).status
        stdout :=
          String.join (course.legs.map fun leg => listedText leg.events ++ (leg.line ++ "\n"))
            ++ listedText course.last
        stderr :=
          String.join ((logLines level ((Interpreter.create {} false {}).events
            ++ course.events)).map (· ++ "\n"))
            ++ CommandLine.lineOf (CommandLine.verdictOf course.stop).complaint } := by
  show CommandLine.Outcome.ofRun level (CommandLine.runFile world.files path {}) = _
  rw [CommandLine.runFile_apply hpath hfile h, CommandLine.Outcome.ofRun]
  dsimp only
  rw [logLines_append, logLines_shown, ← logLines_append, List.map_append, String.join_append,
    screen_shown h]
  congr 1

/-- **Three loops, one course.** From every store a text has a course, and it is
what happens when all its values are collected, when it is loaded from a file and
when its values are printed: the same expressions are evaluated in the same
order, with the same work, and leave the same store. The first loop ends with all
values of the course, the second with the last of them, and the three stop for the
same reason, also if that is an end that cannot be read. A file that is run as a
program follows the course of its text for a new interpreter. It shows the
listings of each evaluation and then the value, without escape sequences, up to
where the course stops. Its status is 0 if all values can be collected, the one
asked for if the course ends with a request to exit, and 1 if it ends with a
fault, which is then reported, without escape sequences, after the log. -/
theorem batch_loops_agree (source : String) :
    (∀ (interpreter : Interpreter) (store : Store), ∃ course,
        interpreter.Follows source store course
          ∧ interpreter.evalAll source store =
              ⟨course.ending course.values, course.after, course.events⟩
          ∧ (∀ files path, files.readText path = .ok source →
              interpreter.load files path store =
                ⟨course.ending (course.values.getLastD .null), course.after,
                  .loading path.text :: course.events⟩)
          ∧ CommandLine.printAll interpreter source store =
              ⟨course.ending (), course.after, course.shown⟩)
      ∧ let start := Interpreter.create {} false {}
        ∃ made, start.outcome = .ok made
          ∧ ∀ world path bytes level course, world.files path = .ok bytes →
            world.files.readText (.ofText path) = .ok source →
            made.Follows source start.store course →
            let batch := made.evalAll source start.store
            let program := (CommandLine.Invocation.command level (.run path)).outcome world
            let log := String.join ((logLines level (start.events ++ batch.events)).map (· ++ "\n"))
            program.stdout =
                String.join (course.legs.map fun leg =>
                  listedText leg.events ++ (Text.stripAnsi (leg.value.render false) ++ "\n"))
                  ++ listedText course.last
              ∧ (∀ values, batch.outcome = .ok values →
                  program.status = 0 ∧ program.stderr = log)
              ∧ (∀ status, batch.outcome = .error (.exit status) →
                  program.status = status ∧ program.stderr = log)
              ∧ ∀ fault, batch.outcome = .error (.fault fault) →
                  program.status = 1
                    ∧ program.stderr
                      = log ++ (Text.stripAnsi ((Stop.fault fault).report false) ++ "\n") := by
  refine ⟨fun interpreter store => ?_, _, Interpreter.outcome_create, ?_⟩
  · obtain ⟨course, hcourse⟩ := exists_follows interpreter source store
    exact ⟨course, hcourse, hcourse.evalAll_eq, fun _ _ hfile => hcourse.load_eq hfile,
      CommandLine.printAll_eq hcourse⟩
  · intro world path bytes level course hpath hfile hcourse batch program log
    have hbatch : batch = _ := hcourse.evalAll_eq
    have hprogram : program = _ := outcome_run hpath hfile hcourse level
    have hlog : log = String.join ((logLines level ((Interpreter.create {} false {}).events
        ++ course.events)).map (· ++ "\n")) := by
      show String.join ((logLines level (_ ++ batch.events)).map _) = _
      rw [hbatch]
    rw [← hlog] at hprogram
    rw [hprogram, hbatch, Course.ending]
    refine ⟨rfl, fun values hvalues => ?_, fun status hstatus => ?_, fun fault hfault => ?_⟩
    · cases hstop : course.stop with
      | none => exact ⟨rfl, String.append_empty⟩
      | some reason => rw [hstop] at hvalues; cases hvalues
    · cases hstop : course.stop with
      | none => rw [hstop] at hstatus; cases hstatus
      | some reason =>
          rw [hstop] at hstatus
          cases hstatus
          exact ⟨rfl, String.append_empty⟩
    · cases hstop : course.stop with
      | none => rw [hstop] at hfault; cases hfault
      | some reason =>
          rw [hstop] at hfault
          cases hfault
          exact ⟨rfl, rfl⟩

/-- A world in which every file holds the text. -/
private def programWorld (text : String) : CommandLine.World :=
  ⟨[], fun _ => .ok (text.toList.map fun c => c.toNat.toUInt8), ""⟩

/-- A literal with an escape sequence in it, and then a stray parenthesis: the
literal is printed, without the escape sequence, and then the fault is
reported. -/
theorem batch_loops_agree_stray :
    let source := "'\x1b[1mb' )"
    let start := Interpreter.create {} false {}
    let program := (CommandLine.Invocation.command .warning (.run "p")).outcome
      (programWorld source)
    Interpreter.Follows ⟨0, false, nestingLimit⟩ source start.store
        ⟨[⟨.literal "\x1b[1mb", .literal "\x1b[1mb", []⟩], [],
          some ReadFault.strayClose.stop, start.store⟩
      ∧ program.status = 1 ∧ program.stdout = "(LITERAL, b)\n"
      ∧ program.stderr = "Error: UnmatchedCloseParen: Unexpected ')'\n" := by
  intro source start program
  let leg : Leg := ⟨.literal "\x1b[1mb", .literal "\x1b[1mb", []⟩
  have hread : readAll nestingLimit source = ⟨[leg.form], some ReadFault.strayClose.stop⟩ := by cbv
  have hcourse : Interpreter.Follows ⟨0, false, nestingLimit⟩ source start.store
      ⟨[leg], [], some ReadFault.strayClose.stop, start.store⟩ :=
    .through (.cons rfl (.nil _)) hread
  have hfile : (programWorld source).files.readText (.ofText "p") = .ok source := by cbv
  obtain ⟨-, made, hmade, h⟩ := batch_loops_agree source
  obtain rfl := Except.ok.inj (Interpreter.outcome_create.symm.trans hmade)
  obtain ⟨hstdout, -, -, hfault⟩ := h _ "p" _ .warning _ rfl hfile hcourse
  obtain ⟨hstatus, hstderr⟩ := hfault (.reading .strayClose) (by rw [hcourse.evalAll_eq]; rfl)
  refine ⟨hcourse, hstatus, hstdout.trans (by decide +kernel), hstderr.trans ?_⟩
  rw [hcourse.evalAll_eq]
  decide +kernel

/-- What is printed is not always how the values are rendered: here the second
one has an escape sequence in it, and nothing is listed. -/
theorem run_drops_escapes :
    let source := "'a' '\x1b[1mb'"
    let batch := Interpreter.evalAll ⟨0, false, nestingLimit⟩ source
      (Interpreter.create {} false {}).store
    let program := (CommandLine.Invocation.command .warning (.run "p")).outcome
      (programWorld source)
    batch.outcome = .ok [.literal "a", .literal "\x1b[1mb"] ∧ batch.events = []
      ∧ program.stdout = "(LITERAL, a)\n(LITERAL, b)\n"
      ∧ program.stdout ≠ String.join
          ([.literal "a", .literal "\x1b[1mb"].map fun value : Expr =>
            value.render false ++ "\n") := by
  intro source batch program
  let first : Leg := ⟨.literal "a", .literal "a", []⟩
  let second : Leg := ⟨.literal "\x1b[1mb", .literal "\x1b[1mb", []⟩
  have hread : readAll nestingLimit source = ⟨[first.form, second.form], none⟩ := by cbv
  have hcourse : Interpreter.Follows ⟨0, false, nestingLimit⟩ source
      (Interpreter.create {} false {}).store ⟨[first, second], [], none, _⟩ :=
    .through (.cons rfl (.cons rfl (.nil _))) hread
  have hfile : (programWorld source).files.readText (.ofText "p") = .ok source := by cbv
  have hbatch : batch = _ := hcourse.evalAll_eq
  have hstdout : program.stdout = "(LITERAL, a)\n(LITERAL, b)\n" := by
    show (CommandLine.Invocation.outcome _ _).stdout = _
    rw [outcome_run rfl hfile hcourse]
    decide +kernel
  refine ⟨by rw [hbatch]; rfl, by rw [hbatch]; rfl, hstdout, ?_⟩
  rw [hstdout]
  decide +kernel

end TinyLisp
