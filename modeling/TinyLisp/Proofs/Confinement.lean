import Mathlib
import TinyLisp.Proofs.Calls
import TinyLisp.Proofs.Trail

/-!
# Environments apart

A function acts on its home, wherever it is applied from. So binding one
environment's `define` in another lets evaluations in the second write to the
first. This file says how far that reaches: no farther than the bindings do. A
set of environments is *closed* if every function that one of them binds has
its home in the set, or none. An evaluation in a closed set leaves everything
outside as it is, lists nothing from outside, returns no function from
outside and keeps the set closed.

Only what is bound directly counts. A function inside a list is never
applied, because a list is evaluated item by item and a function that stands
in the code has no value. So neither the evaluated expression nor the lists
that an environment binds need to be looked into.

The headline is `evaluation_confined`, with what follows for sessions:
interpreters on disjoint closed sets do not notice each other, whatever is
asked of them and in which order. A session on one of them goes on as if the
calls on the other had never been made.
-/

namespace TinyLisp

/-! ## Closed sets of environments -/

/-- A function has its home in the set, or none. Nothing is asked of any
other expression, of lists that hold functions neither. -/
def Expr.Confined (S : Set EnvId) : Expr → Prop
  | .fn _ operation => ∀ home, operation.home? = some home → home ∈ S
  | _ => True

def Store.Closed (store : Store) (S : Set EnvId) : Prop :=
  ∀ id ∈ S, ∀ b ∈ (store.get id).bindings, b.2.Confined S

namespace Store.Closed

variable {store other : Store} {S : Set EnvId}

theorem of_agree (h : store.Closed S) (hagree : ∀ id ∈ S, store.get id = other.get id) :
    other.Closed S := by
  intro id hid b hb
  rw [← hagree id hid] at hb
  exact h id hid b hb

theorem bind (h : store.Closed S) (id : EnvId) (name : String) {value : Expr}
    (hvalue : value.Confined S) :
    (store.put id ((store.get id).bind name value)).Closed S :=
  fun k hk => Store.forall_bindings_bind (h k hk) id name hvalue

end Store.Closed

/-- A new interpreter on no bindings of its own reaches only itself. -/
theorem closed_create (strict : Bool) (store : Store) :
    (Interpreter.create {} strict store).store.Closed {store.fresh} := by
  rintro _ rfl b hb
  rw [Interpreter.bindings_create] at hb
  simp only [predefined, List.mem_cons, List.not_mem_nil, or_false] at hb
  rcases hb with rfl | rfl | rfl | rfl | rfl | rfl <;> intro home hhome <;> cases hhome <;> rfl

/-! ## Evaluation in a closed set -/

/-- The environment that an event is about is in the set. -/
def Event.Within (S : Set EnvId) : Event → Prop
  | .bound id _ _ | .listed id _ _ => id ∈ S
  | _ => True

/-- Evaluation in a closed set, beside anything else that is true of the store
and stays true when environments of the set change. -/
def confinedPolicy (S : Set EnvId) (kept : Store → Prop)
    (hkept : ∀ s i env, i ∈ S → kept s → kept (s.put i env)) : Policy where
  env i := i ∈ S
  code _ := True
  value := Expr.Confined S
  store s := s.Closed S ∧ kept s
  event := Event.Within S
  stop _ := True
  items _ _ _ := trivial
  code_of_value _ := trivial
  number _ := trivial
  literal _ := trivial
  null := trivial
  binding := fun henv hs b hb => hs.1 _ henv b hb
  home := fun hvalue hhome => hvalue _ hhome
  sum _ := trivial
  difference _ := trivial
  applied _ _ := trivial
  bound _ henv _ := henv
  bind := fun name henv hvalue hs => ⟨hs.1.bind _ name hvalue, hkept _ _ _ henv hs.2⟩
  listed := fun henv _ _ _ => henv
  fault _ := trivial
  nesting := trivial
  exit _ := trivial
  interrupt _ := trivial

theorem confinedPolicy_permissive (S : Set EnvId) (kept : Store → Prop)
    (hkept : ∀ s i env, i ∈ S → kept s → kept (s.put i env)) :
    (confinedPolicy S kept hkept).Permissive where
  code _ _ := trivial
  stop _ := trivial
  loading _ := trivial
  reported _ := trivial

/-- The confined evaluations that leave everything outside the set as it is in
a given store. -/
def framePolicy (S : Set EnvId) (store : Store) : Policy :=
  confinedPolicy S (fun s => ∀ id, id ∉ S → s.get id = store.get id) <| by
    intro s i env hi hs id hid
    have hne : id ≠ i := fun heq => hid (by rwa [heq])
    rw [Store.get_put, if_neg hne]
    exact hs id hid

theorem framePolicy_permissive (S : Set EnvId) (store : Store) :
    (framePolicy S store).Permissive :=
  confinedPolicy_permissive S _ _

/-- A run that went no farther than a closed set: what it left alone, what it
listed and what it returned. A binding was listed only while it was there, in
the store that the events before had led to. -/
structure ConfinedRun (S : Set EnvId) (store : Store) (r : Run Expr) : Prop where
  outside : ∀ id, id ∉ S → r.store.get id = store.get id
  listed : ∀ first id name value last, r.events = first ++ .listed id name value :: last →
    id ∈ S ∧ (name, value) ∈ ((store.replay first).get id).bindings
  closed : r.store.Closed S
  value : ∀ v, r.outcome = .ok v → v.Confined S

theorem evaluate_confinedRun {S : Set EnvId} {store : Store} (hclosed : store.Closed S)
    (limit : Nat) {id : EnvId} (hid : id ∈ S) (e : Expr) :
    ConfinedRun S store (evaluate limit id e store) := by
  have hkeeps := (framePolicy S store).evaluate_keeps limit hid (e := e) trivial
    ⟨hclosed, fun _ _ => rfl⟩
  refine ⟨hkeeps.store.2, ?_, hkeeps.store.1, hkeeps.value⟩
  intro first k name value last hevents
  have hmem : Event.listed k name value ∈ (evaluate limit id e store).events := by
    rw [hevents]
    exact List.mem_append_right _ (List.mem_cons_self ..)
  have hshows := (evaluate_trail limit id e store).shows
  rw [hevents] at hshows
  exact ⟨hkeeps.events _ hmem, hshows.mem_bindings⟩

/-! ## Sessions on two closed sets -/

theorem call_outside {S : Set EnvId} {store : Store} (hclosed : store.Closed S) (call : Call)
    (henv : call.env ∈ S) :
    (call.action store).store.Closed S
      ∧ ∀ id, id ∉ S → (call.action store).store.get id = store.get id :=
  (Policy.call_keeps (framePolicy_permissive S store) call henv
    ⟨hclosed, fun _ _ => rfl⟩).store

/-- A call in a closed set depends on the environments of the set only. -/
theorem call_local {S : Set EnvId} {s t : Store} (hclosed : s.Closed S)
    (hagree : ∀ id ∈ S, s.get id = t.get id) (call : Call) (henv : call.env ∈ S) :
    (call.action s).outcome = (call.action t).outcome
      ∧ (call.action s).events = (call.action t).events
      ∧ ∀ id ∈ S, (call.action s).store.get id = (call.action t).store.get id := by
  have hsame := Policy.call_same
    (confinedPolicy_permissive S (fun _ => True) fun _ _ _ _ _ => trivial) call henv
    ⟨hclosed, trivial⟩ ⟨hclosed.of_agree hagree, trivial⟩ hagree
  exact ⟨hsame.outcome, hsame.events, hsame.store⟩

/-- A store with two closed sets, and one in which only the first of them
need look the same. -/
structure Apart (S T : Set EnvId) (s t : Store) : Prop where
  mine : s.Closed S
  yours : s.Closed T
  agree : ∀ id ∈ S, s.get id = t.get id

namespace Apart

variable {S T : Set EnvId} {s t : Store}

/-- The same call on both sides. -/
theorem call_mine (h : Apart S T s t) (hdisjoint : Disjoint S T) (call : Call)
    (henv : call.env ∈ S) : Apart S T (call.action s).store (call.action t).store := by
  obtain ⟨hclosed, houtside⟩ := call_outside h.mine call henv
  refine ⟨hclosed, ?_, (call_local h.mine h.agree call henv).2.2⟩
  exact h.yours.of_agree fun id hid =>
    (houtside id fun hmine => Set.disjoint_left.mp hdisjoint hmine hid).symm

/-- A call on the other set, on one side only. -/
theorem call_yours (h : Apart S T s t) (hdisjoint : Disjoint S T) (call : Call)
    (henv : call.env ∈ T) : Apart S T (call.action s).store t := by
  obtain ⟨hclosed, houtside⟩ := call_outside h.yours call henv
  have hmine : ∀ id ∈ S, (call.action s).store.get id = s.get id :=
    fun id hid => houtside id (Set.disjoint_left.mp hdisjoint hid)
  refine ⟨h.mine.of_agree fun id hid => (hmine id hid).symm, hclosed, fun id hid => ?_⟩
  rw [hmine id hid, h.agree id hid]

theorem after (h : Apart S T s t) (hdisjoint : Disjoint S T) {a b : EnvId} (ha : a ∈ S)
    (hb : b ∈ T) {calls : List Call} (hcalls : ∀ call ∈ calls, call.env = a ∨ call.env = b) :
    Apart S T (s.after calls) (t.after (calls.filter (·.env = a))) := by
  induction calls generalizing s t with
  | nil => exact h
  | cons call rest ih =>
      have hrest : ∀ c ∈ rest, c.env = a ∨ c.env = b :=
        fun c hc => hcalls c (List.mem_cons_of_mem _ hc)
      by_cases hmine : call.env = a
      · rw [List.filter_cons_of_pos (by simpa using hmine)]
        exact ih (h.call_mine hdisjoint call (hmine ▸ ha)) hrest
      · have hyours : call.env = b := (hcalls call (List.mem_cons_self ..)).resolve_left hmine
        rw [List.filter_cons_of_neg (by simpa using hmine)]
        exact ih (h.call_yours hdisjoint call (hyours ▸ hb)) hrest

end Apart

/-- **Evaluation is confined to closed sets.** Whatever is evaluated in an
environment of the set, embedded functions included, and however it ends, the
run goes no farther than the set. So two interpreters on disjoint closed sets
do not notice each other: after any session of calls on both, the environments
of the one are as its own calls alone would have left them, and its next call
ends, and shows, the same. -/
theorem evaluation_confined {store : Store} {S : Set EnvId} (hS : store.Closed S) :
    (∀ limit, ∀ id ∈ S, ∀ e, ConfinedRun S store (evaluate limit id e store))
      ∧ ∀ T, store.Closed T → Disjoint S T → ∀ a ∈ S, ∀ b ∈ T, ∀ calls : List Call,
        (∀ call ∈ calls, call.env = a ∨ call.env = b) →
        let alone := store.after (calls.filter (·.env = a))
        (∀ id ∈ S, (store.after calls).get id = alone.get id)
          ∧ ∀ call : Call, call.env = a →
            (call.action (store.after calls)).outcome = (call.action alone).outcome
              ∧ (call.action (store.after calls)).events = (call.action alone).events := by
  refine ⟨fun limit id hid e => evaluate_confinedRun hS limit hid e, ?_⟩
  intro T hT hdisjoint a ha b hb calls hcalls alone
  have hapart : Apart S T (store.after calls) alone :=
    Apart.after ⟨hS, hT, fun _ _ => rfl⟩ hdisjoint ha hb hcalls
  refine ⟨hapart.agree, fun call hcall => ?_⟩
  obtain ⟨houtcome, hevents, -⟩ := call_local hapart.mine hapart.agree call (hcall ▸ ha)
  exact ⟨houtcome, hevents⟩

/-- Two new interpreters. The one is handed an expression with the other's
`define` in it, which it does not apply, and both bind the same name. -/
theorem evaluation_confined_two :
    let store := (Interpreter.create {} false (Interpreter.create {} false {}).store).store
    let call := fun env source =>
      Call.mk ⟨env, false, nestingLimit⟩ (fun _ => .error .notFound) (.eval source)
    let calls := [call 0 "(def 'x' echo)", call 1 "(def 'x' env)"]
    store.Closed {0} ∧ store.Closed {1}
      ∧ ConfinedRun {0} store (evaluate nestingLimit 0
          (.list [.fn "def" (.define 1), .literal "x", .null]) store)
      ∧ ((call 0 "x").action (store.after calls)).outcome
          = ((call 0 "x").action (store.after [call 0 "(def 'x' echo)"])).outcome
      ∧ ((call 0 "x").action (store.after calls)).outcome
          = .ok (.value (.fn "echo" (.echo 0))) := by
  intro store call calls
  have hfirst : store.Closed {0} := by
    refine (closed_create false {}).of_agree ?_
    rintro _ rfl
    exact (Interpreter.get_create_of_ne {} false (by decide)).symm
  have hsecond : store.Closed {1} :=
    closed_create false (Interpreter.create {} false {}).store
  obtain ⟨hrun, hsession⟩ := evaluation_confined hfirst
  have hdisjoint : Disjoint ({0} : Set EnvId) {1} := by
    refine Set.disjoint_left.mpr ?_
    rintro _ rfl h
    exact absurd h (by decide : ¬ (0 : EnvId) = 1)
  have hcalls : ∀ c ∈ calls, c.env = 0 ∨ c.env = 1 := by
    intro c hc
    simp only [calls, List.mem_cons, List.not_mem_nil, or_false] at hc
    rcases hc with rfl | rfl
    · exact Or.inl rfl
    · exact Or.inr rfl
  obtain ⟨-, hnext⟩ := hsession {1} hsecond hdisjoint 0 rfl 1 rfl calls hcalls
  refine ⟨hfirst, hsecond, hrun nestingLimit 0 rfl _, (hnext (call 0 "x") rfl).1, ?_⟩
  cbv

end TinyLisp
