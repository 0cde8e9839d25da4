import TinyLisp.Proofs.Simulation

/-!
# What an evaluation keeps to

A `Policy` says which environments an evaluation may act on, which
expressions it may meet, which values, stores and events may arise and for
which reasons it may stop. It holds the proof that every single thing an
evaluation does keeps to this. The headline is `Policy.evaluate_keeps`: then
whole evaluations do, also those that fail, run out of levels or exit.

It is a simulation of an evaluation by itself. The two sides may even start
from different stores, if these agree where the policy lets them act
(`Policy.twins`): what an evaluation may not act on, it does not read either.
-/

namespace TinyLisp

/-! ## Where a binding comes from -/

namespace Env

theorem mem_of_lookup? {env : Env} {name : String} {value : Expr}
    (h : env.lookup? name = some value) : (name, value) ∈ env.bindings := by
  unfold lookup? at h
  generalize env.bindings = bindings at h
  induction bindings with
  | nil => cases h
  | cons binding rest ih =>
      obtain ⟨n, v⟩ := binding
      rw [lookupIn] at h
      split at h
      · rename_i hname
        cases h
        rw [hname]
        exact List.mem_cons_self ..
      · exact List.mem_cons_of_mem _ (ih h)

/-- Binding a name brings no other binding with it. -/
theorem mem_bind {env : Env} {name : String} {value : Expr} {binding : String × Expr}
    (h : binding ∈ (env.bind name value).bindings) :
    binding ∈ env.bindings ∨ binding = (name, value) := by
  show binding ∈ env.bindings ∨ _
  change binding ∈ bindIn name value env.bindings at h
  generalize env.bindings = bindings at h
  induction bindings with
  | nil => exact Or.inr (List.mem_singleton.mp h)
  | cons first rest ih =>
      obtain ⟨n, v⟩ := first
      rw [bindIn] at h
      split at h
      · rename_i hname
        rcases List.mem_cons.mp h with rfl | hrest
        · exact Or.inr (by rw [hname])
        · exact Or.inl (List.mem_cons_of_mem _ hrest)
      · rcases List.mem_cons.mp h with rfl | hrest
        · exact Or.inl (List.mem_cons_self ..)
        · exact (ih hrest).imp_left (List.mem_cons_of_mem _)

end Env

/-- What is true of all values that an environment binds stays true, if it is
true of a new one, wherever that is bound. -/
theorem Store.forall_bindings_bind {p : Expr → Prop} {store : Store} {id : EnvId}
    (h : ∀ b ∈ (store.get id).bindings, p b.2) (i : EnvId) (name : String) {value : Expr}
    (hvalue : p value) :
    ∀ b ∈ ((store.put i ((store.get i).bind name value)).get id).bindings, p b.2 := by
  intro b hb
  rw [Store.get_put] at hb
  split at hb
  · rename_i hid
    subst hid
    rcases Env.mem_bind hb with hold | rfl
    · exact h b hold
    · exact hvalue
  · exact h b hb

/-! ## Policies -/

/-- What an evaluation may act on, hold, show and stop for, with the proof
that every single thing it does keeps to this. -/
structure Policy where
  /-- Environments that may be acted on. -/
  env : EnvId → Prop
  /-- Expressions that may be evaluated. -/
  code : Expr → Prop
  /-- Values that may arise. -/
  value : Expr → Prop
  store : Store → Prop
  event : Event → Prop
  stop : Stop → Prop
  items : ∀ {es}, code (.list es) → ∀ e ∈ es, code e
  code_of_value : ∀ {v}, value v → code v
  number : ∀ {x}, code (.number x) → value (.number x)
  literal : ∀ text, value (.literal text)
  null : value .null
  binding : ∀ {i s}, env i → store s → ∀ b ∈ (s.get i).bindings, value b.2
  home : ∀ {name f i}, value (.fn name f) → f.home? = some i → env i
  sum : ∀ {xs : List Double}, (∀ x ∈ xs, value (.number x)) →
    value (.number (xs.foldl Double.add .zero))
  difference : ∀ {xs : List Double}, (∀ x ∈ xs, value (.number x)) →
    value (.number (xs.foldl Double.sub .zero))
  applied : ∀ {name f args}, value (.fn name f) → (∀ a ∈ args, value a) →
    event (.applied name f args)
  bound : ∀ {i v} (name), env i → value v → event (.bound i name v)
  bind : ∀ {i v s} (name), env i → value v → store s →
    store (s.put i ((s.get i).bind name v))
  listed : ∀ {i s}, env i → store s → ∀ b ∈ (s.get i).bindings, event (.listed i b.1 b.2)
  fault : ∀ cause : EvalFault, stop cause.stop
  nesting : stop (.fault (.nesting "evaluate"))
  exit : ∀ status, stop (.exit status)
  interrupt : ∀ {name}, value (.fn name .interrupt) → stop .interrupted

namespace Policy

variable {P : Policy} {α : Type}

theorem forall₂_and_eq {p : α → Prop} {xs ys : List α} :
    List.Forall₂ (fun x y => p x ∧ x = y) xs ys ↔ (∀ x ∈ xs, p x) ∧ xs = ys := by
  rw [List.forall₂_and_left, List.forall₂_eq_eq_eq]

theorem forall₂_number {p : Expr → Prop} {xs ys : List Double} :
    List.Forall₂ (fun x y => p (.number x) ∧ Expr.number x = .number y) xs ys ↔
      (∀ x ∈ xs, p (.number x)) ∧ xs = ys := by
  simp only [Expr.number.injEq]
  exact forall₂_and_eq

theorem operation_matches {env : EnvId → Prop} {f : Operation}
    (h : ∀ i, f.home? = some i → env i) : f.Matches (fun i j => env i ∧ i = j) f := by
  cases f with
  | add => exact .add
  | subtract => exact .subtract
  | define home => exact .define ⟨h home rfl, rfl⟩
  | echo home => exact .echo ⟨h home rfl, rfl⟩
  | listing home => exact .listing ⟨h home rfl, rfl⟩
  | exit => exact .exit
  | interrupt => exact .interrupt

/-- Two stores agree on the environments that may be acted on. -/
def Agree (P : Policy) (s t : Store) : Prop := ∀ i, P.env i → s.get i = t.get i

theorem Agree.put {s t : Store} (h : P.Agree s t) {i : EnvId} (henv : P.env i)
    (f : Env → Env) : P.Agree (s.put i (f (s.get i))) (t.put i (f (t.get i))) := by
  intro k hk
  rw [Store.get_put, Store.get_put, h i henv, h k hk]

/-- Evaluations of the same code correspond, if they start from stores that
the policy allows and that agree where it lets them act. -/
def twins (P : Policy) : Simulation where
  env i j := P.env i ∧ i = j
  code e e' := P.code e ∧ e = e'
  value v w := P.value v ∧ v = w
  store s t := P.store s ∧ P.store t ∧ P.Agree s t
  events xs ys := (∀ event ∈ xs, P.event event) ∧ xs = ys
  stop := P.stop
  excuses _ := False
  alike := by
    rintro e _ ⟨h, rfl⟩
    refine .refl e fun items heq x hx => ⟨?_, rfl⟩
    subst heq
    exact P.items h x hx
  code_of_value := fun ⟨h, heq⟩ => ⟨P.code_of_value h, heq⟩
  number := fun ⟨h, heq⟩ => ⟨P.number h, heq⟩
  literal text := ⟨P.literal text, rfl⟩
  null := ⟨P.null, rfl⟩
  lookup := by
    rintro name i _ s t - ⟨henv, rfl⟩ ⟨hs, -, hagree⟩
    rw [← hagree i henv]
    cases hfound : (s.get i).lookup? name with
    | none => exact .none
    | some v => exact .some ⟨P.binding henv hs _ (Env.mem_of_lookup? hfound), rfl⟩
  operation := by
    rintro name _ f _ ⟨h, heq⟩
    cases heq
    exact operation_matches fun _ hhome => P.home h hhome
  sum := by
    intro xs ys h
    obtain ⟨hxs, rfl⟩ := forall₂_number.mp h
    exact ⟨P.sum hxs, rfl⟩
  difference := by
    intro xs ys h
    obtain ⟨hxs, rfl⟩ := forall₂_number.mp h
    exact ⟨P.difference hxs, rfl⟩
  truncate := fun h => by rw [Expr.number.inj h.2]
  nil := ⟨fun _ h => absurd h List.not_mem_nil, rfl⟩
  append := by
    rintro xs xs' _ _ ⟨h, rfl⟩ ⟨h', rfl⟩
    exact ⟨fun event hevent => (List.mem_append.mp hevent).elim (h event) (h' event), rfl⟩
  applied := by
    rintro name _ f _ args args' ⟨hfn, heq⟩ hargs
    obtain ⟨hvalues, rfl⟩ := forall₂_and_eq.mp hargs
    cases heq
    exact ⟨fun event hevent => List.mem_singleton.mp hevent ▸ P.applied hfn hvalues, rfl⟩
  bound := by
    rintro i _ v _ name ⟨henv, rfl⟩ ⟨hvalue, rfl⟩
    exact ⟨fun event hevent => List.mem_singleton.mp hevent ▸ P.bound name henv hvalue, rfl⟩
  bind := by
    rintro i _ v _ s t name ⟨henv, rfl⟩ ⟨hvalue, rfl⟩ ⟨hs, ht, hagree⟩
    exact ⟨P.bind name henv hvalue hs, P.bind name henv hvalue ht,
      hagree.put henv (·.bind name v)⟩
  listing := by
    rintro _ i _ _ s t - ⟨henv, rfl⟩ ⟨hs, -, hagree⟩
    refine ⟨fun event hevent => ?_, by rw [hagree i henv]⟩
    obtain ⟨b, hb, rfl⟩ := Env.exists_of_mem_listing hevent
    exact P.listed henv hs b hb
  renderable := by
    rintro _ i _ _ s t - ⟨henv, rfl⟩ ⟨-, -, hagree⟩
    rw [hagree i henv]
  fault := P.fault
  nesting := P.nesting
  exit := P.exit
  interrupt := fun ⟨h, _⟩ => P.interrupt h

/-! ## One run, and two from stores that agree -/

/-- A run that kept to the policy and whose value, if it has one, is as
wanted. -/
structure Keeps (P : Policy) (post : α → Prop) (r : Run α) : Prop where
  store : P.store r.store
  events : ∀ event ∈ r.events, P.event event
  value : ∀ a, r.outcome = .ok a → post a
  stop : ∀ reason, r.outcome = .error reason → P.stop reason

/-- Two runs that cannot be told apart where the policy lets them act. -/
structure Same (P : Policy) (r r' : Run α) : Prop where
  outcome : r.outcome = r'.outcome
  events : r.events = r'.events
  store : P.Agree r.store r'.store

theorem meet_of_relates {post : α → α → Prop} {a : Action α} (h : P.twins.Relates post a a)
    {s t : Store} (hst : P.twins.store s t) : P.twins.Meet post (a s) (a t) :=
  (h s t hst).resolve_left fun ⟨_, _, hnever⟩ => hnever

theorem keeps_of_relates {post : α → Prop} {a : Action α}
    (h : P.twins.Relates (fun x y => post x ∧ x = y) a a) {s : Store} (hs : P.store s) :
    P.Keeps post (a s) := by
  obtain ⟨⟨hstore, -⟩, ⟨hevents, -⟩, hend⟩ :=
    meet_of_relates h ⟨hs, hs, fun _ _ => rfl⟩
  refine ⟨hstore, hevents, fun x hx => ?_, fun reason hx => ?_⟩
  · rw [hx] at hend
    cases hend with
    | ok h => exact h.1
  · rw [hx] at hend
    cases hend with
    | error h => exact h

theorem same_of_relates {post : α → Prop} {a : Action α}
    (h : P.twins.Relates (fun x y => post x ∧ x = y) a a) {s t : Store} (hs : P.store s)
    (ht : P.store t) (hagree : P.Agree s t) : P.Same (a s) (a t) := by
  obtain ⟨⟨-, -, hstore⟩, ⟨-, hevents⟩, hend⟩ := meet_of_relates h ⟨hs, ht, hagree⟩
  refine ⟨?_, hevents, hstore⟩
  generalize (a s).outcome = x at hend ⊢
  generalize (a t).outcome = y at hend ⊢
  cases hend with
  | ok h => rw [h.2]
  | error _ => rfl

/-- **An evaluation keeps to its policy**, however it ends. -/
theorem evaluate_keeps (P : Policy) (limit : Nat) {i : EnvId} (henv : P.env i) {e : Expr}
    (hcode : P.code e) {s : Store} (hs : P.store s) :
    P.Keeps P.value (evaluate limit i e s) :=
  keeps_of_relates (P.twins.evaluate_relates limit ⟨henv, rfl⟩ ⟨hcode, rfl⟩) hs

theorem evaluateArgs_keeps (P : Policy) (limit : Nat) {i : EnvId} (henv : P.env i)
    {es : List Expr} (hcode : ∀ e ∈ es, P.code e) {s : Store} (hs : P.store s) :
    P.Keeps (fun vs => ∀ v ∈ vs, P.value v) (evaluateArgs (evaluate limit i) es s) := by
  have hargs := Simulation.evaluateArgs_relates
    (P.twins.evaluate_relates limit (i := i) ⟨henv, rfl⟩) (forall₂_and_eq.mpr ⟨hcode, rfl⟩)
  exact keeps_of_relates (hargs.imp fun _ _ => forall₂_and_eq.mp) hs

end Policy

end TinyLisp
