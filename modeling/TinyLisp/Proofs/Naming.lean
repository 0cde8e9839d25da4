import TinyLisp.Proofs.Batch
import TinyLisp.Proofs.Layout
import TinyLisp.Proofs.Levels

/-!
# Giving a value a name

A text around which `(def 'n' ...)` is written is evaluated as it is alone, and
then its value is bound to the name and nothing else is done. The headline is
`definition_text_binds`, for any text that is one expression, with whatever
effects, also when it binds the name, or `def` itself, anew.

Two things make it so. The tokens of the text stay as they are between the name
and the closing parenthesis (`tokenize_definition`), and the head of a list is
evaluated before its arguments, so the function that binds is the one from before
(`evaluate_definition_of_ok`). The list around the text takes one level, which
must be there (`Run.Fits`).
-/

namespace TinyLisp

/-! ## Reading a definition -/

theorem readsAs_iff {limit : Nat} {source : String} {e : Expr} :
    ReadsAs limit source e ↔ Derives (tokenize source) e ∧ e.depth ≤ limit := by
  rw [ReadsAs, parse_eq_ok_iff]
  constructor
  · rintro ⟨p, hp, hderives, hdepth⟩
    rw [hp, List.append_nil]
    exact ⟨hderives, hdepth⟩
  · rintro ⟨hderives, hdepth⟩
    exact ⟨_, (List.append_nil _).symm, hderives, hdepth⟩

theorem tokenize_definition {n : String} (hn : IsLiteralText n) (source : String) :
    tokenize ("(def '" ++ n ++ "' " ++ source ++ ")") =
      .opening :: .word "def" :: .word ("'" ++ n ++ "'") :: (tokenize source ++ [.closing]) := by
  have htext : "(def '" ++ n ++ "' " ++ source ++ ")" =
      "(def" ++ String.singleton ' '
        ++ ("'" ++ n ++ "'" ++ String.singleton ' ' ++ (source ++ ")")) := by
    apply String.toList_inj.mp
    simp
  have hstart : tokenize "(def" = [.opening, .word "def"] := by cbv
  rw [htext, tokenize_append_blank (by decide), tokenize_append_blank (by decide), hstart,
    tokenize_of_isWord (isWord_literalText hn), tokenize_append_closing]
  rfl

theorem readsAs_definition {limit : Nat} {n source : String} {e : Expr} (hn : IsLiteralText n)
    (h : ReadsAs limit source e) :
    ReadsAs (limit + 1) ("(def '" ++ n ++ "' " ++ source ++ ")")
      (.list [.symbol "def", .literal n, e]) := by
  obtain ⟨hderives, hdepth⟩ := readsAs_iff.mp h
  have hname : readAtom "def" = .ok (.symbol "def") := by cbv
  refine readsAs_iff.mpr ⟨?_, ?_⟩
  · rw [tokenize_definition hn]
    have hitems := DerivesAll.cons (.atom hname)
      (.cons (.atom (readAtom_literalText hn)) (.cons hderives .nil))
    rw [List.append_nil] at hitems
    exact .list hitems
  · simpa [Expr.depth, Expr.depthAll] using hdepth

/-! ## Evaluating a definition -/

section

variable {limit : Nat} {env : EnvId} {store : Store} {function : String}
  (hdef : (store.get env).lookup? "def" = some (.fn function (.define env)))
include hdef

/-- Before its last argument a definition does nothing: the head is looked up and
the name stands for itself. -/
theorem evaluate_definition (n : String) (e : Expr) :
    evaluate (limit + 2) env (.list [.symbol "def", .literal n, e]) store =
      (evaluate (limit + 1) env e >>= fun v => do
        Action.emit (.applied function (.define env) [.literal n, v])
        applyDefine env [.literal n, v]) store := by
  have hhead : evaluate (limit + 1) env (.symbol "def") store
      = ⟨.ok (.fn function (.define env)), store, []⟩ := Action.lookup_of_some hdef
  have hname : evaluate (limit + 1) env (.literal n) = pure (.literal n) := rfl
  rw [evaluate, evaluateStep, Action.bind_of_quiet hhead]
  simp only [evaluateArgs, hname, pure_bind, bind_assoc, applyOperation]

theorem evaluate_definition_of_ok {n : String} {e v : Expr}
    (h : (evaluate (limit + 1) env e store).outcome = .ok v) :
    let run := evaluate (limit + 1) env e store
    evaluate (limit + 2) env (.list [.symbol "def", .literal n, e]) store =
      ⟨.ok v, run.store.put env ((run.store.get env).bind n v),
        run.events ++ [.applied function (.define env) [.literal n, v], .bound env n v]⟩ := by
  rw [evaluate_definition hdef, Action.bind_of_ok _ h]
  rfl

theorem evaluate_definition_of_error {n : String} {e : Expr} {reason : Stop}
    (h : (evaluate (limit + 1) env e store).outcome = .error reason) :
    evaluate (limit + 2) env (.list [.symbol "def", .literal n, e]) store =
      evaluate (limit + 1) env e store := by
  rw [evaluate_definition hdef, Action.bind_of_error _ h, ← h]

end

/-! ## Names afterwards -/

/-- Binding a name changes what one name stands for in one environment. -/
theorem Store.lookup?_bind (store : Store) (env id : EnvId) (n name : String) (v : Expr) :
    ((store.put env ((store.get env).bind n v)).get id).lookup? name =
      if id = env ∧ name = n then some v else (store.get id).lookup? name := by
  rw [Store.get_put]
  by_cases hid : id = env
  · subst hid
    rw [if_pos rfl, Env.lookup?_bind]
    simp only [true_and]
  · rw [if_neg hid, if_neg fun h => hid h.1]

theorem evaluateText_symbolName {limit : Nat} {env : EnvId} {store : Store} {n : String}
    {v : Expr} (hn : IsSymbolName n) (hv : (store.get env).lookup? n = some v) (strict : Bool) :
    evaluateText (limit + 1) env strict n store = ⟨.ok v, store, []⟩ := by
  have hreads : ReadsAs (limit + 1) n (.symbol n) := by
    rw [ReadsAs, tokenize_of_isWord hn.1, parse, readAtom_symbolName hn]
  rw [hreads.evaluateText_eq]
  exact Action.lookup_of_some hv

/-- **A definition evaluates its text and binds the value, and nothing more.** Let
`def` be bound to the function that binds in the interpreter's environment, and
let a text be one expression that needs one level less than there are. If the
text alone has a value, then so has the definition around it, the same one; the
store is the one that the text leaves, with the name bound to the value, and the
name is then evaluated to it, if it can be written. If the text stops, then the
definition has done what the text did, and stops for the same reason. -/
theorem definition_text_binds {limit : Nat} {env : EnvId} {strict : Bool} {store : Store}
    {function n source : String} {e : Expr}
    (hdef : (store.get env).lookup? "def" = some (.fn function (.define env)))
    (hn : IsLiteralText n) (hreads : ReadsAs limit source e)
    (hfits : (evaluateText limit env strict source store).Fits) :
    let interpreter : Interpreter := ⟨env, strict, limit + 1⟩
    let alone := interpreter.eval source store
    let whole := interpreter.eval ("(def '" ++ n ++ "' " ++ source ++ ")") store
    (∀ v, alone.outcome = .ok v →
        whole.outcome = .ok v
          ∧ whole.store = alone.store.put env ((alone.store.get env).bind n v)
          ∧ whole.events = alone.events
              ++ [.applied function (.define env) [.literal n, v], .bound env n v]
          ∧ (∀ id name, (whole.store.get id).lookup? name =
              if id = env ∧ name = n then some v else (alone.store.get id).lookup? name)
          ∧ (n ≠ "" → (∀ c, n.toList.head? = some c → Text.isAsciiDigit c = false) →
              interpreter.eval n whole.store = ⟨.ok v, whole.store, []⟩))
      ∧ ∀ reason, alone.outcome = .error reason → whole = alone := by
  intro interpreter alone whole
  have halone : alone = evaluate limit env e store := by
    rw [← hreads.evaluateText_eq env strict]
    exact (evaluateText_shortOf (Nat.le_succ limit) env strict source store).eq_of_fits hfits
  have hwhole : whole = evaluate (limit + 1) env (.list [.symbol "def", .literal n, e]) store :=
    congrFun ((readsAs_definition hn hreads).evaluateText_eq env strict) store
  rw [hreads.evaluateText_eq] at hfits
  obtain ⟨limit, rfl⟩ : ∃ m, limit = m + 1 := by
    cases limit with
    | zero => exact absurd rfl (hfits "evaluate")
    | succ m => exact ⟨m, rfl⟩
  refine ⟨fun v hv => ?_, fun reason hreason => ?_⟩
  · rw [halone] at hv
    have hrun := hwhole.trans (evaluate_definition_of_ok hdef hv)
    rw [hrun, halone]
    refine ⟨rfl, rfl, rfl, fun id name => ?_, fun hne hfirst => ?_⟩
    · exact Store.lookup?_bind ..
    · have hname : IsSymbolName n :=
        ⟨⟨hne, fun c hc => (hn c hc).1⟩,
          fun c hc => ⟨hfirst c hc, (hn c (List.mem_of_mem_head? hc)).2⟩⟩
      refine evaluateText_symbolName hname ?_ strict
      rw [Store.lookup?_bind, if_pos ⟨rfl, rfl⟩]
  · rw [halone] at hreason
    rw [hwhole, halone, evaluate_definition_of_error hdef hreason]

/-- A text that gives `echo` the name `def`, and is itself defined as `def`; and a
text that binds `y` and then asks to exit, defined as a name without characters. -/
theorem definition_text_binds_def :
    let store := (Interpreter.create {} false {}).store
    let interpreter : Interpreter := ⟨0, true, 4⟩
    let echo : Expr := .fn "echo" (.echo 0)
    let source := "(def 'def' echo)"
    let leaving := "(+ (def 'y' env) (exit))"
    let alone := interpreter.eval source store
    let whole := interpreter.eval ("(def '" ++ "def" ++ "' " ++ source ++ ")") store
    (store.get 0).lookup? "def" = some (.fn "def" (.define 0))
      ∧ IsLiteralText "def" ∧ IsLiteralText ""
      ∧ ReadsAs 3 source (.list [.symbol "def", .literal "def", .symbol "echo"])
      ∧ (evaluateText 3 0 true source store).Fits
      ∧ (evaluateText 3 0 true leaving store).Fits
      ∧ whole.outcome = .ok echo
      ∧ whole.store = alone.store.put 0 ((alone.store.get 0).bind "def" echo)
      ∧ interpreter.eval "def" whole.store = ⟨.ok echo, whole.store, []⟩
      ∧ (interpreter.eval leaving store).outcome = .error (.exit 0)
      ∧ interpreter.eval ("(def '" ++ "" ++ "' " ++ leaving ++ ")") store
          = interpreter.eval leaving store := by
  intro store interpreter echo source leaving alone whole
  have hdef : (store.get 0).lookup? "def" = some (.fn "def" (.define 0)) := rfl
  have hname : IsLiteralText "def" := by decide
  have hempty : IsLiteralText "" := by decide
  have hsource : ReadsAs 3 source (.list [.symbol "def", .literal "def", .symbol "echo"]) := by
    unfold ReadsAs; cbv
  have hleaving : ReadsAs 3 leaving (.list [.symbol "+", .list [.symbol "def", .literal "y",
      .symbol "env"], .list [.symbol "exit"]]) := by
    unfold ReadsAs; cbv
  have hvalue : (evaluateText 3 0 true source store).outcome = .ok echo := by cbv
  have hexit : (evaluateText 3 0 true leaving store).outcome = .error (.exit 0) := by cbv
  have hfits : (evaluateText 3 0 true source store).Fits := .of_ok hvalue
  have hfits' : (evaluateText 3 0 true leaving store).Fits := by
    intro stage hstage
    rw [hexit] at hstage
    cases hstage
  have hmore : ∀ text, (evaluateText 3 0 true text store).Fits →
      interpreter.eval text store = evaluateText 3 0 true text store :=
    fun text => (evaluateText_shortOf (Nat.le_succ 3) 0 true text store).eq_of_fits
  have hend : (interpreter.eval source store).outcome = .ok echo := by
    rw [hmore source hfits, hvalue]
  have hleft : (interpreter.eval leaving store).outcome = .error (.exit 0) := by
    rw [hmore leaving hfits', hexit]
  obtain ⟨hok, -⟩ := definition_text_binds hdef hname hsource hfits
  obtain ⟨hsame, hstore, -, -, hback⟩ := hok echo hend
  obtain ⟨-, herror⟩ := definition_text_binds hdef hempty hleaving hfits'
  refine ⟨hdef, hname, hempty, hsource, hfits, hfits', hsame, hstore, hback (by decide) ?_,
    hleft, herror _ hleft⟩
  intro c hc
  cases hc
  decide

end TinyLisp
