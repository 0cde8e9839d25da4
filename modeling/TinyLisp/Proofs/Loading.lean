import Mathlib.Data.List.Forall2
import TinyLisp.CommandLine.Execution
import TinyLisp.Proofs.Run
import TinyLisp.Proofs.Script

/-!
# Loading one text after another

Evaluating a text and then a second one is evaluating both as one text with a
line break between them, as long as the first does not end inside an
expression. If the first completes, the second goes on where it ended; if it
stops, the second is never reached. The headline is `loading_compositional`,
with what follows for files: loading them in order does what loading one file
with all their texts does.

The reader reads ahead of evaluation here, while effects happen in order. So
the argument is on scripts: `Script.Continues` says what the reader makes of
both texts, and running it is one case for each way the first can end.
-/

namespace TinyLisp

/-! ## Running a script -/

theorem evaluateForms_append (limit : Nat) (env : EnvId) (es es' : List Expr) :
    evaluateForms limit env (es ++ es') = do
      let values ← evaluateForms limit env es
      let values' ← evaluateForms limit env es'
      return values ++ values' := by
  induction es with
  | nil => simp [evaluateForms]
  | cons e rest ih => simp [evaluateForms, ih]

/-- The value of the last expression is the last of the values. -/
theorem evaluateLast_eq (limit : Nat) (env : EnvId) (last : Expr) (es : List Expr) :
    evaluateLast limit env last es =
      (fun values => values.getLastD last) <$> evaluateForms limit env es := by
  induction es generalizing last with
  | nil => simp [evaluateForms, evaluateLast]
  | cons e rest ih =>
      simp [evaluateForms, evaluateLast, ih, List.getLastD_cons, -List.getLastD_eq_getLast?]

namespace Interpreter

/-- Evaluates the expressions of a script and stops where it cannot be
read. -/
def runScript (interpreter : Interpreter) (script : Script) : Action (List Expr) := do
  let values ← evaluateForms interpreter.limit interpreter.env script.forms
  script.finish
  return values

theorem evalAll_eq_runScript (interpreter : Interpreter) (source : String) :
    interpreter.evalAll source = interpreter.runScript (readAll interpreter.limit source) :=
  rfl

variable {interpreter : Interpreter} {store : Store}

theorem runScript_append (forms : List Expr) (second : Script) :
    interpreter.runScript ⟨forms ++ second.forms, second.failure⟩ = do
      let values ← interpreter.runScript ⟨forms, none⟩
      let values' ← interpreter.runScript second
      return values ++ values' := by
  simp [runScript, Script.finish, evaluateForms_append]

/-- A script that completes was read to its end. -/
theorem failure_of_runScript_ok {script : Script} {values : List Expr}
    (h : (interpreter.runScript script store).outcome = .ok values) :
    script.failure = none := by
  cases hforms : (evaluateForms interpreter.limit interpreter.env script.forms store).outcome with
  | error reason =>
      rw [runScript, Action.bind_of_error _ hforms] at h
      cases h
  | ok found =>
      rw [runScript, Action.bind_of_ok _ hforms, Script.finish] at h
      cases hfailure : script.failure with
      | none => rfl
      | some reason =>
          rw [hfailure] at h
          cases h

/-- A script that stops for another reason than the one it was broken off for
stops in an expression, and then nothing behind it matters. -/
theorem runScript_of_stopped {forms more : List Expr} {reason : Stop} {failure : Option Stop}
    {broken : Stop}
    (h : (interpreter.runScript ⟨forms, some broken⟩ store).outcome = .error reason)
    (hne : reason ≠ broken) :
    interpreter.runScript ⟨forms ++ more, failure⟩ store
      = interpreter.runScript ⟨forms, some broken⟩ store := by
  cases hforms : (evaluateForms interpreter.limit interpreter.env forms store).outcome with
  | error cause =>
      have hmore : (evaluateForms interpreter.limit interpreter.env (forms ++ more) store)
          = ⟨.error cause,
            (evaluateForms interpreter.limit interpreter.env forms store).store,
            (evaluateForms interpreter.limit interpreter.env forms store).events⟩ := by
        rw [evaluateForms_append, Action.bind_of_error _ hforms]
      rw [runScript, runScript, Action.bind_of_error _ hforms,
        Action.bind_of_error _ (by rw [hmore]), hmore]
  | ok values =>
      rw [runScript, Action.bind_of_ok _ hforms] at h
      cases h
      exact absurd rfl hne

/-! ## Two texts -/

theorem evalAll_append_of_ok {a : String} {values : List Expr}
    (h : (interpreter.evalAll a store).outcome = .ok values) (b : String) :
    interpreter.evalAll (a ++ "\n" ++ b) store =
      ⟨(values ++ ·) <$> (interpreter.evalAll b (interpreter.evalAll a store).store).outcome,
        (interpreter.evalAll b (interpreter.evalAll a store).store).store,
        (interpreter.evalAll a store).events
          ++ (interpreter.evalAll b (interpreter.evalAll a store).store).events⟩ := by
  have hwhole := failure_of_runScript_ok h
  have hcontinues := readAll_append_newline interpreter.limit a b
  rw [evalAll_eq_runScript] at h ⊢
  rw [evalAll_eq_runScript, evalAll_eq_runScript]
  generalize readAll interpreter.limit a = first at *
  generalize readAll interpreter.limit (a ++ "\n" ++ b) = joined at *
  cases hcontinues with
  | whole forms =>
      rw [runScript_append, Action.bind_of_ok _ h, bind_pure_comp, Action.map_apply]
  | broken forms hreason => cases hwhole
  | unended forms more failure hreason => cases hwhole

theorem evalAll_append_of_error {a : String} {reason : Stop}
    (h : (interpreter.evalAll a store).outcome = .error reason)
    (hreason : ¬ reason.IsEndOfInput) (b : String) :
    interpreter.evalAll (a ++ "\n" ++ b) store = interpreter.evalAll a store := by
  have hcontinues := readAll_append_newline interpreter.limit a b
  rw [evalAll_eq_runScript] at h ⊢
  rw [evalAll_eq_runScript]
  generalize readAll interpreter.limit a = first at *
  generalize readAll interpreter.limit (a ++ "\n" ++ b) = joined at *
  cases hcontinues with
  | whole forms =>
      rw [runScript_append, Action.bind_of_error _ h, ← h]
  | broken forms _ => rfl
  | unended forms more failure hend =>
      refine runScript_of_stopped h ?_
      rintro rfl
      exact hreason hend

/-! ## Files -/

theorem load_eq (files : Files) (path : Path) :
    interpreter.load files path = (do
      Action.emit (.loading path.text)
      let source ← Action.ofExcept (files.readText path)
      (·.getLastD .null) <$> interpreter.evalAll source) := by
  simp [load, evalAll, evaluateLast_eq]

/-- Loading a file is evaluating its text; of the values the last is kept. -/
theorem load_apply {files : Files} {path : Path} {source : String}
    (h : files.readText path = .ok source) :
    interpreter.load files path store =
      ⟨(·.getLastD .null) <$> (interpreter.evalAll source store).outcome,
        (interpreter.evalAll source store).store,
        .loading path.text :: (interpreter.evalAll source store).events⟩ := by
  have hsource : (Action.ofExcept (.ok source) : Action String) = pure source := rfl
  rw [load_eq, h, hsource, pure_bind, Action.emit_bind_apply, Action.map_apply]

end Interpreter

namespace CommandLine

/-- How the command ends after the load of a file ended: it goes on, or it
has a verdict. -/
def loadVerdict {α : Type} (path : Path) : Except Stop α → Option Verdict
  | .ok _ => none
  | .error reason =>
      some (stopped (fun r => "Failed to load " ++ path.text ++ ": " ++ r.message) reason)

theorem loadVerdict_map {α β : Type} (path : Path) (f : α → β) (outcome : Except Stop α) :
    loadVerdict path (f <$> outcome) = loadVerdict path outcome := by
  cases outcome <;> rfl

def isLoading : Event → Bool
  | .loading _ => true
  | _ => false

variable {interpreter : Interpreter} {files : Files}

theorem loadAll_cons_of_ok {path : Path} {store : Store} {value : Expr}
    (h : (interpreter.load files path store).outcome = .ok value) (rest : List Path) :
    loadAll interpreter files (path :: rest) store =
      ⟨(loadAll interpreter files rest (interpreter.load files path store).store).outcome,
        (loadAll interpreter files rest (interpreter.load files path store).store).store,
        (interpreter.load files path store).events
          ++ (loadAll interpreter files rest
            (interpreter.load files path store).store).events⟩ := by
  rw [loadAll, Action.bind_of_ok _ (show (Action.attempt _ store).outcome = .ok _ from rfl), h]
  rfl

theorem loadAll_cons_of_error {path : Path} {store : Store} {reason : Stop}
    (h : (interpreter.load files path store).outcome = .error reason) (rest : List Path) :
    loadAll interpreter files (path :: rest) store =
      ⟨.ok (loadVerdict path (.error reason : Except Stop Expr)),
        (interpreter.load files path store).store,
        (interpreter.load files path store).events⟩ := by
  rw [loadAll, Action.bind_of_ok _ (show (Action.attempt _ store).outcome = .ok _ from rfl), h]
  show (⟨_, _, _ ++ []⟩ : Run _) = _
  rw [List.append_nil]
  rfl

theorem loadAll_single (path : Path) (store : Store) :
    loadAll interpreter files [path] store =
      ⟨.ok (loadVerdict path (interpreter.load files path store).outcome),
        (interpreter.load files path store).store,
        (interpreter.load files path store).events⟩ := by
  cases h : (interpreter.load files path store).outcome with
  | error reason => exact loadAll_cons_of_error h []
  | ok value =>
      rw [loadAll_cons_of_ok h]
      show (⟨_, _, _ ++ []⟩ : Run _) = _
      rw [List.append_nil]
      rfl

/-- Files in order against the text of all of them. By induction on the files
that load completely: the first of them is the first part of the text. -/
theorem loadAll_eq_evalAll {paths : List Path} {texts : List String}
    (hpaths : List.Forall₂ (fun path text => files.readText path = .ok text) paths texts)
    {last : Path} {text : String} (hlast : files.readText last = .ok text) {store : Store}
    (hok : (loadAll interpreter files paths store).outcome = .ok none) :
    let apart := loadAll interpreter files (paths ++ [last]) store
    let whole := interpreter.evalAll ("\n".intercalate (texts ++ [text])) store
    apart.store = whole.store
      ∧ apart.outcome = .ok (loadVerdict last whole.outcome)
      ∧ apart.events.filter (!isLoading ·) = whole.events.filter (!isLoading ·) := by
  induction hpaths generalizing store with
  | nil =>
      intro apart whole
      have hwhole : whole = interpreter.evalAll text store := by
        simp only [whole, List.nil_append, String.intercalate_singleton]
      have hapart : apart = _ := loadAll_single last store
      rw [Interpreter.load_apply hlast, loadVerdict_map, ← hwhole] at hapart
      rw [hapart]
      exact ⟨rfl, rfl, rfl⟩
  | @cons path source paths texts hpath _ ih =>
      intro apart whole
      cases hload : (interpreter.load files path store).outcome with
      | error reason =>
          rw [loadAll_cons_of_error hload] at hok
          cases hok
      | ok value =>
          have hrest := hok
          rw [loadAll_cons_of_ok hload] at hrest
          obtain ⟨hstore, houtcome, hevents⟩ := ih hrest
          have happly := @Interpreter.load_apply interpreter store _ _ _ hpath
          cases hfirst : (interpreter.evalAll source store).outcome with
          | error reason =>
              rw [happly, hfirst] at hload
              cases hload
          | ok values =>
              have hwhole := Interpreter.evalAll_append_of_ok hfirst
                ("\n".intercalate (texts ++ [text]))
              rw [← String.intercalate_cons_of_ne_nil (by simp), ← List.cons_append] at hwhole
              change whole = _ at hwhole
              have hapart : apart = _ := loadAll_cons_of_ok hload (paths ++ [last])
              rw [happly] at hapart hstore houtcome hevents
              rw [hapart, hwhole]
              refine ⟨hstore, ?_, ?_⟩
              · rw [loadVerdict_map]
                exact houtcome
              · show List.filter _ (_ :: _ ++ _) = _
                rw [List.cons_append, List.filter_cons_of_neg (by simp [isLoading]),
                  List.filter_append, List.filter_append, hevents]

end CommandLine

/-- **Loading is compositional.** Two texts with a line break between them are
evaluated like the first and then, on the store it leaves, the second, if the
first completes. If it stops, then the second makes no difference, unless the
first ended inside an expression. So files that are loaded in order, all but
the last completely, leave the store and end the way that one file with all
their texts does, and apart from the records of the loads themselves the
events are the same. -/
theorem loading_compositional (interpreter : Interpreter) (store : Store) :
    (∀ a b values, (interpreter.evalAll a store).outcome = .ok values →
        let first := interpreter.evalAll a store
        let second := interpreter.evalAll b first.store
        interpreter.evalAll (a ++ "\n" ++ b) store =
          ⟨(values ++ ·) <$> second.outcome, second.store, first.events ++ second.events⟩)
      ∧ (∀ a b reason, (interpreter.evalAll a store).outcome = .error reason →
          ¬ reason.IsEndOfInput →
          interpreter.evalAll (a ++ "\n" ++ b) store = interpreter.evalAll a store)
      ∧ ∀ (files files' : Files) paths texts last text joined,
          List.Forall₂ (fun path text => files.readText path = .ok text) paths texts →
          files.readText last = .ok text →
          files'.readText joined = .ok ("\n".intercalate (texts ++ [text])) →
          (CommandLine.loadAll interpreter files paths store).outcome = .ok none →
          let apart := CommandLine.loadAll interpreter files (paths ++ [last]) store
          let whole := interpreter.load files' joined store
          apart.store = whole.store
            ∧ apart.outcome = .ok (CommandLine.loadVerdict last whole.outcome)
            ∧ apart.events.filter (!CommandLine.isLoading ·)
                = whole.events.filter (!CommandLine.isLoading ·) := by
  refine ⟨fun a b values h => Interpreter.evalAll_append_of_ok h b,
    fun a b reason h hreason => Interpreter.evalAll_append_of_error h hreason b, ?_⟩
  intro files files' paths texts last text joined hpaths hlast hjoined hok apart whole
  have hwhole : whole = _ := Interpreter.load_apply hjoined
  obtain ⟨hstore, houtcome, hevents⟩ := CommandLine.loadAll_eq_evalAll hpaths hlast hok
  rw [hwhole]
  refine ⟨hstore, ?_, hevents⟩
  rw [CommandLine.loadVerdict_map]
  exact houtcome

/-- Two small programs in the files `a` and `b`, and both in any other. -/
private def echoFiles : Files
  | "a" => .ok ("(def 'x' echo)".toList.map fun c => c.toNat.toUInt8)
  | "b" => .ok ("(x x)".toList.map fun c => c.toNat.toUInt8)
  | _ => .ok ("(def 'x' echo)\n(x x)".toList.map fun c => c.toNat.toUInt8)

/-- A text that names `echo` anew, before one that uses the name wrongly; one
that breaks off at a stray parenthesis, before an open list; and the first two
as files. -/
theorem loading_compositional_echo :
    let store := (Interpreter.create {} false {}).store
    let interpreter : Interpreter := ⟨0, false, nestingLimit⟩
    let first := interpreter.evalAll "(def 'x' echo)" store
    let second := interpreter.evalAll "(x x)" first.store
    interpreter.evalAll ("(def 'x' echo)" ++ "\n" ++ "(x x)") store =
        ⟨([.fn "echo" (.echo 0)] ++ ·) <$> second.outcome, second.store,
          first.events ++ second.events⟩
      ∧ interpreter.evalAll ("echo )" ++ "\n" ++ "(") store
          = interpreter.evalAll "echo )" store
      ∧ (CommandLine.loadAll interpreter echoFiles [.ofText "a", .ofText "b"] store).store
          = (interpreter.load echoFiles (.ofText "c") store).store
      ∧ (CommandLine.loadAll interpreter echoFiles [.ofText "a", .ofText "b"] store).outcome
          = .ok (CommandLine.loadVerdict (.ofText "b") (.error
              EvalFault.unexpectedFunction.stop : Except Stop Expr)) := by
  intro store interpreter first second
  obtain ⟨hok, herror, hfiles⟩ := loading_compositional interpreter store
  have hfirst : (interpreter.evalAll "(def 'x' echo)" store).outcome
      = .ok [.fn "echo" (.echo 0)] := by cbv
  have hstray : (interpreter.evalAll "echo )" store).outcome
      = .error ReadFault.strayClose.stop := by cbv
  have ha : echoFiles.readText (.ofText "a") = .ok "(def 'x' echo)" := by cbv
  have hb : echoFiles.readText (.ofText "b") = .ok "(x x)" := by cbv
  have hc : echoFiles.readText (.ofText "c")
      = .ok ("\n".intercalate (["(def 'x' echo)"] ++ ["(x x)"])) := by cbv
  have hloaded : (CommandLine.loadAll interpreter echoFiles [.ofText "a"] store).outcome
      = .ok none := by cbv
  have hwhole : (interpreter.load echoFiles (.ofText "c") store).outcome
      = .error EvalFault.unexpectedFunction.stop := by cbv
  obtain ⟨hstore, houtcome, -⟩ := hfiles echoFiles echoFiles [.ofText "a"]
    ["(def 'x' echo)"] (.ofText "b") "(x x)" (.ofText "c") (.cons ha .nil) hb hc hloaded
  rw [hwhole] at houtcome
  exact ⟨hok _ _ _ hfirst, herror _ _ _ hstray id, hstore, houtcome⟩

end TinyLisp
