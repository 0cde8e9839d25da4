import TinyLisp.Proofs.Policy
import TinyLisp.Proofs.Reading
import TinyLisp.Session

/-!
# Sessions of text

A `Call` asks something of an interpreter with text alone, in one of the five
ways there are: the first expression of a text, in the interpreter's own mode
or in a given one, all its expressions, those of a file, or a line of the
interactive loop. The interpreter of a call says on which environment and how
deep it may go, and the files it finds may be others than those of the call
before. `Store.after` is what a session of calls leaves behind, whether they
succeed, fail or ask to exit.

Calls correspond as evaluations do (`Simulation.call_relates`), if all that
can be read may be evaluated.
-/

namespace TinyLisp

inductive TextRequest where
  | eval (source : String)
  | evalAll (source : String)
  | evalAs (strict : Bool) (source : String)
  | load (path : String)
  | step (color : Bool) (line : String)

def TextRequest.request : TextRequest → Request
  | .eval source => .eval source
  | .evalAll source => .evalAll source
  | .evalAs strict source => .evalAs strict source
  | .load path => .load path
  | .step color line => .step color line

structure Call where
  interpreter : Interpreter
  /-- The files there are at the time of the call. -/
  files : Files
  asked : TextRequest

namespace Call

def env (call : Call) : EnvId := call.interpreter.env

def action (call : Call) : Action Reply :=
  call.interpreter.perform call.files call.asked.request

/-- The same call on another environment. -/
def onEnv (call : Call) (env : EnvId) : Call :=
  { call with interpreter := { call.interpreter with env } }

end Call

/-- The store that a session of calls leaves behind. -/
def Store.after (store : Store) : List Call → Store
  | [] => store
  | call :: rest => (call.action store).store.after rest

/-! ## New interpreters -/

namespace Interpreter

theorem create_apply (bindings : Env) (strict : Bool) (store : Store) :
    create bindings strict store =
      ⟨.ok { env := store.fresh, strict },
        Action.storeBinding store.fresh (predefined store.fresh)
          (store.put store.fresh bindings),
        (predefined store.fresh).map fun pair => .bound store.fresh pair.1 pair.2⟩ := by
  rw [create, Action.bind_of_ok _
    (show (Action.newEnv bindings store).outcome = .ok store.fresh from rfl), on,
    Action.bind_of_ok _ (by rw [Action.bindNames_apply]), Action.bindNames_apply]
  rfl

/-- A new interpreter finds the predefined functions and nothing else. -/
theorem bindings_create (strict : Bool) (store : Store) :
    ((create {} strict store).store.get store.fresh).bindings = predefined store.fresh := by
  rw [create_apply, Action.get_storeBinding, if_pos rfl, Store.get_put, if_pos rfl]
  rfl

/-- Making an interpreter leaves all other environments as they are. -/
theorem get_create_of_ne (bindings : Env) (strict : Bool) {store : Store} {id : EnvId}
    (h : id ≠ store.fresh) : (create bindings strict store).store.get id = store.get id := by
  rw [create_apply, Action.get_storeBinding, if_neg h, Store.get_put, if_neg h]

end Interpreter

namespace Simulation

variable {σ : Simulation} {α β γ δ : Type}

/-! ## Reading and then evaluating -/

theorem Relates.map {mid : α → β → Prop} {post : γ → δ → Prop} {f : α → γ} {g : β → δ}
    {a : Action α} {b : Action β} (hab : σ.Relates mid a b)
    (hfg : ∀ x y, mid x y → post (f x) (g y)) : σ.Relates post (f <$> a) (g <$> b) := by
  rw [map_eq_pure_bind, map_eq_pure_bind]
  exact hab.bind fun x y h => .pure (hfg x y h)

theorem Relates.attempt {post : α → β → Prop} {a : Action α} {b : Action β}
    (hab : σ.Relates post a b) :
    σ.Relates (SameEnd post σ.stop) a.attempt b.attempt :=
  fun s t hst => (hab s t hst).imp_right fun hmeet => ⟨hmeet.store, hmeet.events, .ok hmeet.ends⟩

section

variable {i j : EnvId} (henv : σ.env i j)
include henv

theorem evaluateText_relates {limit : Nat} {strict : Bool} {source : String}
    (hread : SameEnd σ.code σ.stop (readFirst limit strict source)
      (readFirst limit strict source)) :
    σ.Relates σ.value (evaluateText limit i strict source)
      (evaluateText limit j strict source) :=
  .bind (.ofExcept hread) fun _ _ h => σ.evaluate_relates limit henv h

theorem evaluateForms_relates (limit : Nat) {es es' : List Expr}
    (hes : List.Forall₂ σ.code es es') :
    σ.Relates (List.Forall₂ σ.value) (evaluateForms limit i es)
      (evaluateForms limit j es') := by
  induction hes with
  | nil => exact .pure .nil
  | cons he _ ih =>
      exact .bind (σ.evaluate_relates limit henv he) fun _ _ hv =>
        .bind ih fun _ _ hvs => .pure (.cons hv hvs)

theorem evaluateLast_relates (limit : Nat) {v w : Expr} (hlast : σ.value v w)
    {es es' : List Expr} (hes : List.Forall₂ σ.code es es') :
    σ.Relates σ.value (evaluateLast limit i v es) (evaluateLast limit j w es') := by
  induction hes generalizing v w with
  | nil => exact .pure hlast
  | cons he _ ih => exact .bind (σ.evaluate_relates limit henv he) fun _ _ hv => ih hv

end

theorem finish_relates {script : Script}
    (hstop : ∀ reason, script.failure = some reason → σ.stop reason) :
    σ.Relates (fun _ _ => True) script.finish script.finish := by
  unfold Script.finish
  split
  · rename_i reason hreason
    exact .stop (hstop reason hreason)
  · exact .pure trivial

/-- All expressions of a text, if what is read from it may be evaluated. -/
theorem evalAll_relates_of_read {i j : EnvId} (henv : σ.env i j) {limit : Nat} {strict : Bool}
    {source : String} (hforms : ∀ e ∈ (readAll limit source).forms, σ.code e e)
    (hstop : ∀ reason, (readAll limit source).failure = some reason → σ.stop reason) :
    σ.Relates (List.Forall₂ σ.value) (Interpreter.evalAll ⟨i, strict, limit⟩ source)
      (Interpreter.evalAll ⟨j, strict, limit⟩ source) :=
  .bind (evaluateForms_relates henv limit (List.forall₂_same.mpr hforms)) fun _ _ hvs =>
    .bind (finish_relates hstop) fun _ _ _ => .pure hvs

/-! ## Calls -/

/-- All that can be read may be evaluated, and every reason to stop is
allowed. -/
structure Permissive (σ : Simulation) : Prop where
  code : ∀ e, e.Written → σ.code e e
  stop : ∀ reason, σ.stop reason
  loading : ∀ path, σ.events [.loading path] [.loading path]
  reported : ∀ fault, σ.events [.reported fault] [.reported fault]

/-- Replies that belong together: values that do, or answers that show such
values or report one fault. -/
inductive Replies (σ : Simulation) : Reply → Reply → Prop where
  | value {v w : Expr} (h : σ.value v w) : Replies σ (.value v) (.value w)
  | values {vs ws : List Expr} (h : List.Forall₂ σ.value vs ws) :
      Replies σ (.values vs) (.values ws)
  | blank : Replies σ (.answer none) (.answer none)
  | shown {v w : Expr} (color : Bool) (h : σ.value v w) :
      Replies σ (.answer (some (v.render color))) (.answer (some (w.render color)))
  | reported (color : Bool) (fault : Fault) :
      Replies σ (.answer (some ((Stop.fault fault).report color)))
        (.answer (some ((Stop.fault fault).report color)))

/-- A step of the loop, if what is read from the line may be evaluated and what cannot be
shown may break it off. -/
theorem step_relates_of_read (hreported : ∀ fault, σ.events [.reported fault] [.reported fault])
    (hshown : ∀ {v w}, σ.value v w → v.isRenderable = false → σ.stop .exhausted)
    {i j : EnvId} (henv : σ.env i j) {limit : Nat} {strict color : Bool} {prompt line : String}
    (hread : SameEnd σ.code σ.stop (readFirst limit strict line) (readFirst limit strict line)) :
    σ.Relates (fun a b => σ.Replies (.answer a) (.answer b))
      (Repl.step ⟨⟨i, strict, limit⟩, prompt, color⟩ line)
      (Repl.step ⟨⟨j, strict, limit⟩, prompt, color⟩ line) := by
  unfold Repl.step
  split
  · exact .pure .blank
  · refine .bind (evaluateText_relates henv hread).attempt fun x y hend => ?_
    cases hend with
    | ok hvalue =>
        refine .bind (.ofExcept (shown_sameEnd hvalue (hshown hvalue) color)) fun x y hxy => ?_
        rw [hxy.1, hxy.2]
        exact .pure (.shown color hvalue)
    | @error reason hstop =>
        cases reason with
        | fault fault =>
            exact .bind (.emit (hreported fault)) fun _ _ _ => .pure (.reported color fault)
        | exit | interrupted | emptyToken | overflow | notFunction | unreadable | exhausted =>
            exact .stop hstop

namespace Permissive

variable (hσ : σ.Permissive)
include hσ

theorem readFirst_sameEnd (limit : Nat) (strict : Bool) (source : String) :
    SameEnd σ.code σ.stop (readFirst limit strict source) (readFirst limit strict source) := by
  cases h : readFirst limit strict source with
  | ok e => exact .ok (hσ.code e (readFirst_written h))
  | error reason => exact .error (hσ.stop reason)

theorem readAll_forms (limit : Nat) (source : String) :
    ∀ e ∈ (readAll limit source).forms, σ.code e e :=
  fun e he => hσ.code e (readAll_written e he)

variable {i j : EnvId} (henv : σ.env i j)
include henv

theorem evalAll_relates (limit : Nat) (strict : Bool) (source : String) :
    σ.Relates (List.Forall₂ σ.value) (Interpreter.evalAll ⟨i, strict, limit⟩ source)
      (Interpreter.evalAll ⟨j, strict, limit⟩ source) :=
  evalAll_relates_of_read henv (hσ.readAll_forms limit source) fun reason _ => hσ.stop reason

theorem load_relates (limit : Nat) (strict : Bool) (files : Files) (path : Path) :
    σ.Relates σ.value (Interpreter.load ⟨i, strict, limit⟩ files path)
      (Interpreter.load ⟨j, strict, limit⟩ files path) := by
  refine .bind (.emit (hσ.loading path.text)) fun _ _ _ => ?_
  have hsource : SameEnd (· = ·) σ.stop (files.readText path) (files.readText path) := by
    cases files.readText path with
    | ok source => exact .ok rfl
    | error reason => exact .error (hσ.stop reason)
  refine .bind (.ofExcept hsource) fun source _ heq => ?_
  subst heq
  have hforms := List.forall₂_same.mpr (hσ.readAll_forms limit source)
  exact .bind (evaluateLast_relates henv limit σ.null hforms) fun _ _ hv =>
    .bind (finish_relates fun reason _ => hσ.stop reason) fun _ _ _ => .pure hv

theorem step_relates (limit : Nat) (strict color : Bool) (line : String) :
    σ.Relates (fun a b => σ.Replies (.answer a) (.answer b))
      (Repl.step ⟨⟨i, strict, limit⟩, "", color⟩ line)
      (Repl.step ⟨⟨j, strict, limit⟩, "", color⟩ line) :=
  step_relates_of_read hσ.reported (fun _ _ => hσ.stop .exhausted) henv
    (hσ.readFirst_sameEnd limit strict line)

end Permissive

/-- **Calls correspond**: one and the same thing is asked of two interpreters
on environments that belong together. -/
theorem call_relates (hσ : σ.Permissive) (call : Call) {i j : EnvId} (henv : σ.env i j) :
    σ.Relates σ.Replies (call.onEnv i).action (call.onEnv j).action := by
  obtain ⟨⟨_, strict, limit⟩, files, asked⟩ := call
  cases asked with
  | eval source =>
      have hread := hσ.readFirst_sameEnd limit strict source
      exact (evaluateText_relates henv hread).map fun _ _ h => .value h
  | evalAll source =>
      exact (hσ.evalAll_relates henv limit strict source).map fun _ _ h => .values h
  | evalAs strict source =>
      have hread := hσ.readFirst_sameEnd limit strict source
      exact (evaluateText_relates henv hread).map fun _ _ h => .value h
  | load path =>
      exact (hσ.load_relates henv limit strict files (Path.ofText path)).map
        fun _ _ h => .value h
  | step color line =>
      exact (hσ.step_relates henv limit strict color line).map fun _ _ h => h

end Simulation

/-! ## Calls that keep to a policy -/

/-- A reply holds no other values than those wanted: they are its values, or
its answer shows one of them. An answer may also report a fault. -/
def Reply.Holds (value : Expr → Prop) : Reply → Prop
  | .value v => value v
  | .values vs => ∀ v ∈ vs, value v
  | .answer none => True
  | .answer (some line) =>
      (∃ v color, value v ∧ line = v.render color)
        ∨ ∃ fault color, line = (Stop.fault fault).report color
  | _ => False

theorem Reply.Holds.imp {value value' : Expr → Prop} (himp : ∀ v, value v → value' v)
    {reply : Reply} (h : reply.Holds value) : reply.Holds value' := by
  cases reply with
  | value v => exact himp v h
  | values vs => exact fun v hv => himp v (h v hv)
  | answer line =>
      cases line with
      | none => trivial
      | some line =>
          refine Or.imp_left ?_ h
          rintro ⟨v, color, hv, hline⟩
          exact ⟨v, color, himp v hv, hline⟩
  | done | truth | items | text | created => exact h

namespace Policy

variable {P : Policy}

structure Permissive (P : Policy) : Prop where
  code : ∀ e, e.Written → P.code e
  stop : ∀ reason, P.stop reason
  loading : ∀ path, P.event (.loading path)
  reported : ∀ fault, P.event (.reported fault)

theorem Permissive.twins (hP : P.Permissive) : P.twins.Permissive where
  code e he := ⟨hP.code e he, rfl⟩
  stop := hP.stop
  loading path := ⟨fun _ h => List.mem_singleton.mp h ▸ hP.loading path, rfl⟩
  reported fault := ⟨fun _ h => List.mem_singleton.mp h ▸ hP.reported fault, rfl⟩

theorem holds_of_replies {x y : Reply} (h : P.twins.Replies x y) :
    x.Holds P.value ∧ x = y := by
  cases h with
  | value h => exact ⟨h.1, by rw [h.2]⟩
  | values h =>
      obtain ⟨hvs, rfl⟩ := forall₂_and_eq.mp h
      exact ⟨hvs, rfl⟩
  | blank => exact ⟨trivial, rfl⟩
  | shown color h => exact ⟨Or.inl ⟨_, color, h.1, rfl⟩, by rw [h.2]⟩
  | reported color fault => exact ⟨Or.inr ⟨fault, color, rfl⟩, rfl⟩

theorem call_relates (hP : P.Permissive) (call : Call) (henv : P.env call.env) :
    P.twins.Relates (fun x y => x.Holds P.value ∧ x = y) call.action call.action := by
  have hcall := Simulation.call_relates hP.twins call (i := call.env) ⟨henv, rfl⟩
  exact hcall.imp fun _ _ => holds_of_replies

/-- One call keeps to the policy, and replies with what it allows. -/
theorem call_keeps (hP : P.Permissive) (call : Call) (henv : P.env call.env) {s : Store}
    (hs : P.store s) : P.Keeps (Reply.Holds P.value) (call.action s) :=
  keeps_of_relates (call_relates hP call henv) hs

/-- One call depends only on the environments that it may act on. -/
theorem call_same (hP : P.Permissive) (call : Call) (henv : P.env call.env) {s t : Store}
    (hs : P.store s) (ht : P.store t) (hagree : P.Agree s t) :
    P.Same (call.action s) (call.action t) :=
  same_of_relates (call_relates hP call henv) hs ht hagree

/-- A session of calls leaves a store that the policy allows. -/
theorem after_keeps (hP : P.Permissive) {calls : List Call}
    (henv : ∀ call ∈ calls, P.env call.env) {s : Store} (hs : P.store s) :
    P.store (s.after calls) := by
  induction calls generalizing s with
  | nil => exact hs
  | cons call rest ih =>
      have hcall := call_keeps hP call (henv call (List.mem_cons_self ..)) hs
      exact ih (fun c hc => henv c (List.mem_cons_of_mem _ hc)) hcall.store

end Policy

end TinyLisp
