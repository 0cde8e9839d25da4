import Mathlib
import TinyLisp.Proofs.Calls

/-!
# The values of a session

The reader makes symbols and lists everywhere, but a session that is driven by
text never holds one: whatever is bound or returned is a number, a literal,
null or one of the six predefined functions of the session's own environment.
The headline is `session_holds_values`, for every session that starts from a
new interpreter.

The invariant is on the bindings of the one environment (`HoldsValues`). It
does not depend on what is evaluated, only on what evaluation can hand out: a
list or a function that stands in the code is never a value itself.
-/

namespace TinyLisp

/-- Numbers, literals, null, and the functions that are predefined in an
environment, each under its own name and with that environment as its home,
if it has one. -/
inductive IsValue (home : EnvId) : Expr → Prop where
  | number (x : Double) : IsValue home (.number x)
  | literal (text : String) : IsValue home (.literal text)
  | null : IsValue home .null
  | add : IsValue home (.fn "+" .add)
  | subtract : IsValue home (.fn "-" .subtract)
  | define : IsValue home (.fn "def" (.define home))
  | echo : IsValue home (.fn "echo" (.echo home))
  | listing : IsValue home (.fn "env" (.listing home))
  | exit : IsValue home (.fn "exit" .exit)

theorem isValue_predefined {home : EnvId} {b : String × Expr} (h : b ∈ predefined home) :
    IsValue home b.2 := by
  simp only [predefined, List.mem_cons, List.not_mem_nil, or_false] at h
  rcases h with rfl | rfl | rfl | rfl | rfl | rfl
  · exact .add
  · exact .subtract
  · exact .define
  · exact .echo
  · exact .listing
  · exact .exit

theorem IsValue.home_eq {home i : EnvId} {name : String} {f : Operation}
    (h : IsValue home (.fn name f)) (hhome : f.home? = some i) : i = home := by
  cases h <;> cases hhome <;> rfl

theorem IsValue.isRenderable {home : EnvId} {v : Expr} (h : IsValue home v) :
    v.isRenderable = true := by
  cases h <;> rfl

/-- Every value that the environment binds is a value of it. -/
def HoldsValues (home : EnvId) (store : Store) : Prop :=
  ∀ b ∈ (store.get home).bindings, IsValue home b.2

theorem HoldsValues.bind {home : EnvId} {store : Store} (h : HoldsValues home store)
    (name : String) {v : Expr} (hv : IsValue home v) :
    HoldsValues home (store.put home ((store.get home).bind name v)) :=
  Store.forall_bindings_bind h home name hv

/-- A listing of values is never cut short. -/
theorem HoldsValues.isRenderable {home : EnvId} {store : Store} (h : HoldsValues home store) :
    (store.get home).isRenderable = true :=
  List.all_eq_true.mpr fun b hb => (h b hb).isRenderable

/-- Evaluation in an environment that holds values only. -/
def valuePolicy (home : EnvId) : Policy where
  env i := i = home
  code _ := True
  value := IsValue home
  store := HoldsValues home
  event _ := True
  stop _ := True
  items _ _ _ := trivial
  code_of_value _ := trivial
  number _ := .number _
  literal := .literal
  null := .null
  binding := by
    rintro i s rfl hs
    exact hs
  home := IsValue.home_eq
  sum _ := .number _
  difference _ := .number _
  applied _ _ := trivial
  bound _ _ _ := trivial
  bind := by
    rintro i v s name rfl hv hs
    exact hs.bind name hv
  listed _ _ _ _ := trivial
  fault _ := trivial
  nesting := trivial
  exit _ := trivial
  interrupt _ := trivial

theorem valuePolicy_permissive (home : EnvId) : (valuePolicy home).Permissive where
  code _ _ := trivial
  stop _ := trivial
  loading _ := trivial
  reported _ := trivial

theorem evaluateText_isValue {home : EnvId} {store : Store} (hstore : HoldsValues home store)
    {limit : Nat} {strict : Bool} {source : String} {v : Expr}
    (h : (evaluateText limit home strict source store).outcome = .ok v) : IsValue home v := by
  rw [evaluateText] at h
  cases hread : readFirst limit strict source with
  | ok e =>
      rw [hread] at h
      exact ((valuePolicy home).evaluate_keeps limit rfl trivial hstore).value v h
  | error reason =>
      rw [hread] at h
      cases h

theorem holdsValues_create (strict : Bool) (store : Store) :
    HoldsValues store.fresh (Interpreter.create {} strict store).store := by
  intro b hb
  rw [Interpreter.bindings_create] at hb
  exact isValue_predefined hb

/-- **A session of text holds values only.** A new interpreter is asked
anything, any number of times, with whatever files, strictness and depth, and
each call may succeed, fail or ask to exit. Then its environment binds values
only, and the next call replies with values only. -/
theorem session_holds_values (store : Store) (strict : Bool) :
    ∃ interpreter, (Interpreter.create {} strict store).outcome = .ok interpreter
      ∧ ∀ calls : List Call, (∀ call ∈ calls, call.env = interpreter.env) →
        HoldsValues interpreter.env ((Interpreter.create {} strict store).store.after calls)
        ∧ ∀ call : Call, call.env = interpreter.env → ∀ reply : Reply,
          (call.action ((Interpreter.create {} strict store).store.after calls)).outcome
              = .ok reply →
            reply.Holds (IsValue interpreter.env) := by
  refine ⟨⟨store.fresh, strict, nestingLimit⟩, by rw [Interpreter.create_apply], ?_⟩
  intro calls hcalls
  have hafter : HoldsValues store.fresh
      ((Interpreter.create {} strict store).store.after calls) :=
    Policy.after_keeps (valuePolicy_permissive store.fresh) hcalls
      (holdsValues_create strict store)
  refine ⟨hafter, fun call hcall reply hreply => ?_⟩
  exact (Policy.call_keeps (valuePolicy_permissive store.fresh) call hcall hafter).value
    reply hreply

/-- A session in which `echo` gets a second name, is used under it and at last
returned. -/
theorem session_holds_values_echo :
    let start := (Interpreter.create {} false {}).store
    let call := fun source =>
      Call.mk ⟨0, false, nestingLimit⟩ (fun _ => .error .notFound) (.eval source)
    let calls := [call "(def 'x' echo)", call "(x (exit))"]
    (∀ call ∈ calls, call.env = 0)
      ∧ HoldsValues 0 (start.after calls)
      ∧ ((call "x").action (start.after calls)).outcome = .ok (.value (.fn "echo" (.echo 0)))
      ∧ IsValue 0 (.fn "echo" (.echo 0)) := by
  intro start call calls
  obtain ⟨interpreter, hmade, h⟩ := session_holds_values {} false
  rw [Interpreter.create_apply] at hmade
  cases hmade
  have hcalls : ∀ call ∈ calls, call.env = 0 := by
    intro c hc
    simp only [calls, List.mem_cons, List.not_mem_nil, or_false] at hc
    rcases hc with rfl | rfl <;> rfl
  obtain ⟨hholds, hreply⟩ := h calls hcalls
  have hvalue : ((call "x").action (start.after calls)).outcome
      = .ok (.value (.fn "echo" (.echo 0))) := by cbv
  exact ⟨hcalls, hholds, hvalue, hreply (call "x") rfl _ hvalue⟩

end TinyLisp
