import TinyLisp.Proofs.Atomicity

/-!
# What becomes of each input of the loop

The interactive loop is over at the first input that is a command to quit, asks to exit,
or has a value that cannot be shown, which breaks it off (`Repl.EndsAt`). Each input before
it is asked for once, evaluated once in the store that the inputs before have led to, and
answered once, or not at all if it is blank. What it did to the store stays, also if it
failed or was broken off. What comes after the end is never looked at.

`Repl.run_of_endsAt` says all this in one equation, event by event: the loop is the
sum of what each input adds on its own (`Repl.tally`). The headline is
`loop_accounts_for_inputs`, which reads off it the prompts, the answers, the work, the
outcome and the store.
-/

namespace TinyLisp

def Input.isQuit : Input → Bool
  | .interrupt => false
  | .line text => Repl.isQuit text

namespace Repl

/-! ## One input -/

/-- The evaluation that an input asks for. A break, a command to quit and a blank line
ask for none. -/
def evaluation? (repl : Repl) (store : Store) : Input → Option (Run Expr)
  | .interrupt => none
  | .line text =>
      if isQuit text || Text.isBlankText text then none
      else some (repl.interpreter.eval text store)

/-- The store behind an input. What an evaluation did stays, however it ended. -/
def next (repl : Repl) (store : Store) (input : Input) : Store :=
  ((repl.evaluation? store input).map Run.store).getD store

/-- What is done for an input. -/
def work (repl : Repl) (store : Store) (input : Input) : List Event :=
  ((repl.evaluation? store input).map Run.events).getD []

/-- The answer to a line whose evaluation ended so. -/
def answerTo (repl : Repl) : Except Stop Expr → String
  | .ok value => value.render repl.color
  | .error .interrupted => "Interrupted"
  | .error reason => reason.report repl.color

/-- What an input is answered with, unless it ends the loop: an empty line for a break,
nothing for a blank line, and else one answer. -/
def shown (repl : Repl) (store : Store) : Input → List String
  | .interrupt => [""]
  | .line text =>
      ((repl.evaluation? store (.line text)).map fun r => repl.answerTo r.outcome).toList

/-- The fault that an evaluation ended with, for the log. -/
def reports (repl : Repl) (store : Store) (input : Input) : List Event :=
  match (repl.evaluation? store input).map Run.outcome with
  | some (.error (.fault fault)) => [.reported fault]
  | _ => []

/-- The status that an input asks to exit with, if it does. -/
def exit? (repl : Repl) (store : Store) (input : Input) : Option Int :=
  match (repl.evaluation? store input).map Run.outcome with
  | some (.error (.exit status)) => some status
  | _ => none

/-- Whether an input has a value that cannot be shown. -/
def isUnshown (repl : Repl) (store : Store) (input : Input) : Bool :=
  match (repl.evaluation? store input).map Run.outcome with
  | some (.ok value) => !value.isRenderable
  | _ => false

/-- An input ends the loop. -/
def Ends (repl : Repl) (store : Store) (input : Input) : Prop :=
  input.isQuit = true ∨ (repl.exit? store input).isSome = true
    ∨ repl.isUnshown store input = true

/-- How the loop ends with an input: broken off by a value that cannot be shown, or else with
the status asked for, or 0. -/
def ending (repl : Repl) (store : Store) (input : Input) : Except Stop Int :=
  if repl.isUnshown store input then .error .exhausted
  else .ok ((repl.exit? store input).getD 0)

/-- All that happens for an input that does not end the loop. -/
def entry (repl : Repl) (store : Store) (input : Input) : List Event :=
  .prompted repl.prompt :: (repl.work store input
    ++ (repl.reports store input ++ (repl.shown store input).map .answered))

/-! ## Inputs in a row -/

/-- The store behind a number of inputs. -/
def storeAfter (repl : Repl) (store : Store) (inputs : List Input) : Store :=
  inputs.foldl repl.next store

/-- What the inputs add up to, each of them in the store behind those before it. -/
def tally {α : Type} (repl : Repl) (part : Store → Input → List α) (store : Store) :
    List Input → List α
  | [] => []
  | input :: rest => part store input ++ repl.tally part (repl.next store input) rest

/-- The first `k` inputs do not end the loop, and the one behind them does, if there is
one. -/
structure EndsAt (repl : Repl) (store : Store) (inputs : List Input) (k : Nat) : Prop where
  le_length : k ≤ inputs.length
  not_before : ∀ j < k, ∀ input, inputs[j]? = some input →
    ¬ repl.Ends (repl.storeAfter store (inputs.take j)) input
  here : ∀ input, inputs[k]? = some input →
    repl.Ends (repl.storeAfter store (inputs.take k)) input

/-- How the loop ends with the input at place `k`, and with status 0 if there is none. -/
def endingAt (repl : Repl) (store : Store) (inputs : List Input) (k : Nat) : Except Stop Int :=
  (inputs[k]?.map (repl.ending (repl.storeAfter store (inputs.take k)))).getD (.ok 0)

variable {repl : Repl} {store : Store}

theorem tally_append {α : Type} (part : Store → Input → List α) (xs ys : List Input) :
    repl.tally part store (xs ++ ys) =
      repl.tally part store xs ++ repl.tally part (repl.storeAfter store xs) ys := by
  induction xs generalizing store with
  | nil => rfl
  | cons input xs ih =>
      simp only [List.cons_append, tally, ih, List.append_assoc]
      rfl

/-- What can be read off the sum can be read off its parts. -/
theorem map_tally {α β : Type} {part : Store → Input → List α}
    {part' : Store → Input → List β} (read : List α → List β) (hnil : read [] = [])
    (happend : ∀ xs ys, read (xs ++ ys) = read xs ++ read ys)
    (hpart : ∀ store input, read (part store input) = part' store input)
    (inputs : List Input) :
    read (repl.tally part store inputs) = repl.tally part' store inputs := by
  induction inputs generalizing store with
  | nil => exact hnil
  | cons input rest ih => rw [tally, tally, happend, hpart, ih]

theorem tally_const {α : Type} (a : α) (inputs : List Input) :
    repl.tally (fun _ _ => [a]) store inputs = List.replicate inputs.length a := by
  induction inputs generalizing store with
  | nil => rfl
  | cons input rest ih => rw [tally, ih, List.length_cons, List.replicate_succ]; rfl

/-! ## One turn -/

theorem work_isWork (input : Input) : ∀ event ∈ repl.work store input, event.isWork = true := by
  unfold work evaluation?
  cases input with
  | interrupt => exact fun _ hevent => absurd hevent List.not_mem_nil
  | line text =>
      dsimp only
      split
      · exact fun _ hevent => absurd hevent List.not_mem_nil
      · exact evaluateText_isWork _ _ _ text store

theorem turn_of_interrupted {line : String} {after : Store} {events : List Event}
    (hquit : isQuit line = false)
    (h : repl.step line store = ⟨.error .interrupted, after, events⟩) :
    repl.turn (.line line) store =
      ⟨.ok none, after, .prompted repl.prompt :: (events ++ [.answered "Interrupted"])⟩ := by
  rw [turn, Action.emit_bind_apply, hquit, if_neg Bool.false_ne_true,
    Action.attempt_bind_apply, h]
  dsimp only
  rw [Action.emit_bind_apply, Action.pure_apply]

theorem evaluation?_of_isQuit {text : String} (h : isQuit text = true) :
    repl.evaluation? store (.line text) = none := by
  rw [evaluation?, h, Bool.true_or, if_pos rfl]

theorem evaluation?_of_blank {text : String} (h : Text.isBlankText text = true) :
    repl.evaluation? store (.line text) = none := by
  rw [evaluation?, h, Bool.or_true, if_pos rfl]

theorem evaluation?_of_line {text : String} (hquit : isQuit text = false)
    (hblank : Text.isBlankText text = false) :
    repl.evaluation? store (.line text) = some (repl.interpreter.eval text store) := by
  rw [evaluation?, hquit, hblank, Bool.or_self, if_neg Bool.false_ne_true]

theorem not_ends_interrupt : ¬ repl.Ends store .interrupt := by
  rintro (h | h | h) <;> cases h

theorem not_ends_of_line {text : String} (hquit : isQuit text = false)
    (hexit : repl.exit? store (.line text) = none)
    (hshown : repl.isUnshown store (.line text) = false) : ¬ repl.Ends store (.line text) := by
  rintro (h | h | h)
  · exact Bool.false_ne_true (hquit.symm.trans h)
  · rw [hexit] at h
    cases h
  · exact Bool.false_ne_true (hshown.symm.trans h)

/-- The turn of an input: either it ends the loop, and then nothing is answered, or it
adds its entry. -/
theorem turn_apply (input : Input) :
    (repl.Ends store input ∧ repl.turn input store =
        ⟨some <$> repl.ending store input, repl.next store input,
          .prompted repl.prompt :: repl.work store input⟩)
      ∨ (¬ repl.Ends store input ∧ repl.turn input store =
        ⟨.ok none, repl.next store input, repl.entry store input⟩) := by
  cases input with
  | interrupt => exact Or.inr ⟨not_ends_interrupt, rfl⟩
  | line text =>
      cases hquit : isQuit text with
      | true =>
          refine Or.inl ⟨Or.inl hquit, ?_⟩
          rw [ending, isUnshown, exit?, next, work, evaluation?_of_isQuit hquit, turn,
            Action.emit_bind_apply, hquit, if_pos rfl]
          rfl
      | false =>
          cases hblank : Text.isBlankText text with
          | true =>
              have hnone : repl.evaluation? store (.line text) = none :=
                evaluation?_of_blank hblank
              refine Or.inr ⟨not_ends_of_line hquit (by rw [exit?, hnone]; rfl)
                (by rw [isUnshown, hnone]; rfl), ?_⟩
              rw [entry, next, work, reports, shown, hnone]
              exact turn_of_blank hblank hquit
          | false =>
              have hsome : repl.evaluation? store (.line text)
                  = some (repl.interpreter.eval text store) := evaluation?_of_line hquit hblank
              have hstep : StepOf repl.color (repl.interpreter.eval text store)
                  (repl.step text store) := stepOf_eval hblank
              generalize repl.interpreter.eval text store = r at hsome hstep
              generalize ht : repl.step text store = t at hstep
              cases hstep with
              | @exit status =>
                  have hexit : repl.exit? store (.line text) = some status := by
                    rw [exit?, hsome]; rfl
                  refine Or.inl ⟨Or.inr (Or.inl (by rw [hexit]; rfl)), ?_⟩
                  rw [ending, isUnshown, hexit, next, work, hsome]
                  exact turn_of_exit hquit ht
              | @unshown v _ _ hv =>
                  have hunshown : repl.isUnshown store (.line text) = true := by
                    rw [isUnshown, hsome]
                    exact congrArg not hv
                  refine Or.inl ⟨Or.inr (Or.inr hunshown), ?_⟩
                  rw [ending, if_pos hunshown, next, work, hsome]
                  exact turn_of_exhausted hquit ht
              | @value v _ _ hv =>
                  have hshown : repl.isUnshown store (.line text) = false := by
                    rw [isUnshown, hsome]
                    exact congrArg not hv
                  refine Or.inr ⟨not_ends_of_line hquit (by rw [exit?, hsome]; rfl) hshown, ?_⟩
                  rw [entry, next, work, reports, shown, hsome]
                  exact turn_of_answer hquit ht
              | fault =>
                  refine Or.inr ⟨not_ends_of_line hquit (by rw [exit?, hsome]; rfl)
                    (by rw [isUnshown, hsome]; rfl), ?_⟩
                  rw [entry, next, work, reports, shown, hsome, turn_of_answer hquit ht,
                    List.append_assoc]
                  rfl
              | interrupted =>
                  refine Or.inr ⟨not_ends_of_line hquit (by rw [exit?, hsome]; rfl)
                    (by rw [isUnshown, hsome]; rfl), ?_⟩
                  rw [entry, next, work, reports, shown, hsome]
                  exact turn_of_interrupted hquit ht

/-! ## Where the loop ends -/

theorem endsAt_cons_succ {input : Input} {rest : List Input} {k : Nat} :
    repl.EndsAt store (input :: rest) (k + 1) ↔
      ¬ repl.Ends store input ∧ repl.EndsAt (repl.next store input) rest k := by
  constructor
  · intro h
    refine ⟨h.not_before 0 (Nat.zero_lt_succ k) input rfl, ?_, ?_, ?_⟩
    · exact Nat.le_of_succ_le_succ h.le_length
    · exact fun j hj => h.not_before (j + 1) (Nat.succ_lt_succ hj)
    · exact h.here
  · rintro ⟨hfirst, hrest⟩
    refine ⟨Nat.succ_le_succ hrest.le_length, fun j hj other hother => ?_, hrest.here⟩
    cases j with
    | zero =>
        cases hother
        exact hfirst
    | succ j => exact hrest.not_before j (Nat.lt_of_succ_lt_succ hj) other hother

theorem Ends.endsAt_zero {input : Input} (h : repl.Ends store input) (rest : List Input) :
    repl.EndsAt store (input :: rest) 0 := by
  refine ⟨Nat.zero_le _, fun j hj => absurd hj (Nat.not_lt_zero j), fun other hother => ?_⟩
  cases hother
  exact h

theorem exists_endsAt (inputs : List Input) : ∃ k, repl.EndsAt store inputs k := by
  induction inputs generalizing store with
  | nil =>
      refine ⟨0, Nat.le_refl 0, fun j hj => absurd hj (Nat.not_lt_zero j), fun input hinput => ?_⟩
      cases hinput
  | cons input rest ih =>
      by_cases hends : repl.Ends store input
      · exact ⟨0, hends.endsAt_zero rest⟩
      · obtain ⟨k, hk⟩ : ∃ k, repl.EndsAt (repl.next store input) rest k := ih
        exact ⟨k + 1, endsAt_cons_succ.mpr ⟨hends, hk⟩⟩

theorem turns_cons_of_end {input : Input} {outcome : Except Stop Int} {after : Store}
    {events : List Event} (h : repl.turn input store = ⟨some <$> outcome, after, events⟩)
    (rest : List Input) : repl.turns (input :: rest) store = ⟨outcome, after, events⟩ := by
  cases outcome with
  | ok status => exact turns_cons_of_some h rest
  | error reason => exact turns_cons_of_error h rest

/-- By induction on the inputs: the turns before the end add their entries, and the last
one adds a prompt and the work of the input that ends the loop. -/
theorem turns_of_endsAt {inputs : List Input} {k : Nat} (h : repl.EndsAt store inputs k) :
    repl.turns inputs store =
      ⟨repl.endingAt store inputs k, repl.storeAfter store (inputs.take (k + 1)),
        repl.tally repl.entry store (inputs.take k) ++ .prompted repl.prompt
          :: repl.tally repl.work (repl.storeAfter store (inputs.take k)) inputs[k]?.toList⟩ := by
  induction inputs generalizing store k with
  | nil =>
      obtain rfl : k = 0 := Nat.le_zero.mp h.le_length
      rfl
  | cons input rest ih =>
      cases k with
      | zero =>
          have hends : repl.Ends store input := h.here input rfl
          rcases @turn_apply repl store input with ⟨-, hturn⟩ | ⟨hgoing, -⟩
          · rw [turns_cons_of_end hturn]
            simp [endingAt, storeAfter, tally]
          · exact absurd hends hgoing
      | succ k =>
          obtain ⟨hgoing, hrest⟩ := endsAt_cons_succ.mp h
          rcases @turn_apply repl store input with ⟨hends, -⟩ | ⟨-, hturn⟩
          · exact absurd hends hgoing
          · rw [turns_cons_of_none hturn, ih hrest]
            simp [endingAt, storeAfter, tally]

/-- **The loop, input by input.** -/
theorem run_of_endsAt {inputs : List Input} {k : Nat} (h : repl.EndsAt store inputs k) :
    repl.run inputs store =
      ⟨repl.endingAt store inputs k, repl.storeAfter store (inputs.take (k + 1)),
        .loopStarted :: (repl.tally repl.entry store (inputs.take k) ++ .prompted repl.prompt
          :: repl.tally repl.work (repl.storeAfter store (inputs.take k)) inputs[k]?.toList
          ++ ((repl.endingAt store inputs k).toOption.map Event.loopStopped).toList)⟩ := by
  rw [run_apply, turns_of_endsAt h]

theorem take_and_getElem?_of_take_succ {α : Type} {xs ys : List α} {k : Nat}
    (h : ys.take (k + 1) = xs.take (k + 1)) :
    ∀ j ≤ k, ys.take j = xs.take j ∧ ys[j]? = xs[j]? := by
  intro j hj
  have hmin : min j (k + 1) = j := Nat.min_eq_left (Nat.le_succ_of_le hj)
  constructor
  · rw [← hmin, ← List.take_take, h, List.take_take]
  · rw [← List.getElem?_take_of_lt (Nat.lt_succ_of_le hj), h,
      List.getElem?_take_of_lt (Nat.lt_succ_of_le hj)]

section

variable {xs ys : List Input} {k : Nat} (h : repl.EndsAt store xs k) (hk : k < xs.length)
  (heq : ys.take (k + 1) = xs.take (k + 1))
include h hk heq

/-- Only the inputs up to the one that ends the loop count. -/
theorem EndsAt.congr : repl.EndsAt store ys k := by
  have hsame := take_and_getElem?_of_take_succ heq
  have hlength : k < ys.length := by
    have := congrArg List.length heq
    simp only [List.length_take] at this
    omega
  refine ⟨Nat.le_of_lt hlength, fun j hj input hat => ?_, fun input hat => ?_⟩
  · obtain ⟨htake, hinput⟩ := hsame j (Nat.le_of_lt hj)
    rw [htake]
    exact h.not_before j hj input (hinput ▸ hat)
  · obtain ⟨htake, hinput⟩ := hsame k (Nat.le_refl k)
    rw [htake]
    exact h.here input (hinput ▸ hat)

theorem run_congr : repl.run ys store = repl.run xs store := by
  obtain ⟨htake, hinput⟩ := take_and_getElem?_of_take_succ heq k (Nat.le_refl k)
  rw [run_of_endsAt (h.congr hk heq), run_of_endsAt h]
  unfold endingAt
  rw [heq, htake, hinput]

end

end Repl

/-! ## Prompts, answers and work -/

/-- What the user was asked for lines with. -/
def prompts (events : List Event) : List String := events.filterMap Event.prompt?

theorem prompts_append (xs ys : List Event) : prompts (xs ++ ys) = prompts xs ++ prompts ys :=
  List.filterMap_append

theorem prompts_of_isWork {events : List Event} (h : ∀ event ∈ events, event.isWork = true) :
    prompts events = [] := by
  refine List.filterMap_eq_nil_iff.mpr fun event hevent => ?_
  cases event with
  | prompted => cases h _ hevent
  | bound | applied | listed | loading | loopStarted | loopStopped | reported | answered => rfl

namespace Repl

variable {repl : Repl} {store : Store}

theorem reports_cases (input : Input) :
    repl.reports store input = [] ∨ ∃ fault, repl.reports store input = [.reported fault] := by
  unfold reports
  split
  · exact Or.inr ⟨_, rfl⟩
  · exact Or.inl rfl

/-- What can be read off an entry: the report plays no part in it. -/
theorem read_entry {α : Type} (read : List Event → List α) (hnil : read [] = [])
    (happend : ∀ xs ys, read (xs ++ ys) = read xs ++ read ys)
    (hreported : ∀ fault, read [.reported fault] = []) (input : Input) :
    read (repl.entry store input) = read [.prompted repl.prompt]
      ++ (read (repl.work store input) ++ read ((repl.shown store input).map .answered)) := by
  have hreports : read (repl.reports store input) = [] := by
    rcases @reports_cases repl store input with h | ⟨fault, h⟩
    · rw [h, hnil]
    · rw [h, hreported]
  have hentry : repl.entry store input = [.prompted repl.prompt] ++ (repl.work store input
      ++ (repl.reports store input ++ (repl.shown store input).map .answered)) := rfl
  rw [hentry, happend, happend, happend, hreports, List.nil_append]

theorem prompts_entry (input : Input) : prompts (repl.entry store input) = [repl.prompt] := by
  have hshown : prompts ((repl.shown store input).map Event.answered) = [] := by
    simp [prompts, Event.prompt?]
  rw [read_entry prompts rfl prompts_append fun _ => rfl, prompts_of_isWork (work_isWork input),
    hshown]
  rfl

theorem answers_entry (input : Input) :
    answers (repl.entry store input) = repl.shown store input := by
  have hshown : answers ((repl.shown store input).map Event.answered)
      = repl.shown store input := by
    rw [answers, List.filterMap_map]
    exact List.filterMap_some
  rw [read_entry answers rfl answers_append fun _ => rfl, answers_of_isWork (work_isWork input),
    hshown]
  rfl

theorem work_entry (input : Input) :
    (repl.entry store input).filter Event.isWork = repl.work store input := by
  have hshown : ((repl.shown store input).map Event.answered).filter Event.isWork = [] := by
    simp [Event.isWork]
  rw [read_entry (List.filter Event.isWork) rfl (fun _ _ => List.filter_append ..) fun _ => rfl,
    List.filter_eq_self.mpr (work_isWork input), hshown]
  exact List.append_nil _

theorem tally_work_isWork (inputs : List Input) :
    ∀ event ∈ repl.tally repl.work store inputs, event.isWork = true := by
  induction inputs generalizing store with
  | nil => exact fun _ hevent => absurd hevent List.not_mem_nil
  | cons input rest ih => exact List.forall_mem_append.mpr ⟨work_isWork input, ih⟩

section

variable {inputs : List Input} {k : Nat} (h : repl.EndsAt store inputs k)
include h

theorem prompts_of_endsAt :
    prompts (repl.run inputs store).events = List.replicate (k + 1) repl.prompt := by
  have hbefore : prompts (repl.tally repl.entry store (inputs.take k))
      = List.replicate k repl.prompt := by
    rw [map_tally prompts rfl prompts_append fun _ input => prompts_entry input, tally_const,
      List.length_take, Nat.min_eq_left h.le_length]
  have hlast := prompts_of_isWork (@tally_work_isWork repl
    (repl.storeAfter store (inputs.take k)) inputs[k]?.toList)
  have hstopped : prompts ((repl.endingAt store inputs k).toOption.map
      Event.loopStopped).toList = [] := by
    cases repl.endingAt store inputs k <;> rfl
  unfold prompts at hbefore hlast hstopped
  rw [run_of_endsAt h, List.replicate_succ']
  simp only [prompts, List.filterMap_cons, List.filterMap_append, List.append_nil, Event.prompt?,
    hbefore, hlast, hstopped]

theorem answers_of_endsAt :
    answers (repl.run inputs store).events = repl.tally repl.shown store (inputs.take k) := by
  have hbefore : answers (repl.tally repl.entry store (inputs.take k))
      = repl.tally repl.shown store (inputs.take k) :=
    map_tally answers rfl answers_append (fun _ input => answers_entry input) _
  rw [answers_run, turns_of_endsAt h]
  show answers (_ ++ ([.prompted repl.prompt] ++ _)) = _
  simp only [answers_append, hbefore, answers_of_isWork (tally_work_isWork _)]
  exact List.append_nil _

theorem work_of_endsAt :
    (repl.run inputs store).events.filter Event.isWork
      = repl.tally repl.work store (inputs.take (k + 1)) := by
  have hbefore : (repl.tally repl.entry store (inputs.take k)).filter Event.isWork
      = repl.tally repl.work store (inputs.take k) :=
    map_tally (List.filter Event.isWork) rfl (fun _ _ => List.filter_append ..)
      (fun _ input => work_entry input) _
  rw [work_run, turns_of_endsAt h, List.take_add_one, tally_append]
  show List.filter _ (_ ++ ([Event.prompted repl.prompt] ++ _)) = _
  simp only [List.filter_append, hbefore, List.filter_eq_self.mpr (tally_work_isWork _)]
  rfl

end

end Repl

/-- **The loop accounts for its inputs.** The inputs are lines and breaks in the entry of
one, in any order, and then the input ends. Let `k` be the place of the first one that is
a command to quit, asks to exit or has a value that cannot be shown, if there is one, and the
end of the input otherwise. Then the user is asked `k + 1` times, always with the same prompt,
and gets the answers to the inputs before `k`, in order: nothing for a blank line, an empty
line for a break, and else one line each, with the value, with the fault, or saying that the
evaluation was interrupted. The status is the one asked for, or 0; a value that cannot be shown
breaks the loop off, without an answer or a status. The store is what the evaluations up to `k`
have led to, also those that did not come to a value, and nothing else is evaluated. What comes
behind `k` can be anything. -/
theorem loop_accounts_for_inputs (repl : Repl) (store : Store) (inputs : List Input) :
    (∃ k, repl.EndsAt store inputs k)
      ∧ ∀ k, repl.EndsAt store inputs k →
        let loop := repl.run inputs store
        prompts loop.events = List.replicate (k + 1) repl.prompt
          ∧ answers loop.events = repl.tally repl.shown store (inputs.take k)
          ∧ loop.outcome = repl.endingAt store inputs k
          ∧ loop.store = repl.storeAfter store (inputs.take (k + 1))
          ∧ loop.events.filter Event.isWork = repl.tally repl.work store (inputs.take (k + 1))
          ∧ (k < inputs.length →
              ∀ others, repl.run (inputs.take (k + 1) ++ others) store = loop) := by
  refine ⟨Repl.exists_endsAt inputs, fun k hk => ⟨Repl.prompts_of_endsAt hk,
    Repl.answers_of_endsAt hk, congrArg Run.outcome (Repl.run_of_endsAt hk),
    congrArg Run.store (Repl.run_of_endsAt hk), Repl.work_of_endsAt hk,
    fun hlength others => Repl.run_congr hk hlength ?_⟩⟩
  rw [List.take_append_of_le_length (by rw [List.length_take]; omega), List.take_take,
    Nat.min_self]

/-- `echo` gets a second name and an evaluation under it is broken off, then the entry of
a line. The loop is left with the status for failure, and what comes next is not looked
at. -/
theorem loop_accounts_for_inputs_mixed :
    let bindings : List (String × Expr) := [("def", .fn "def" (.define 0)),
      ("echo", .fn "echo" (.echo 0)), ("exit", .fn "exit" .exit), ("stop", .fn "stop" .interrupt),
      ("far", .number (.infinite false))]
    let store : Store := ⟨[⟨bindings⟩]⟩
    let repl : Repl := ⟨⟨0, false, nestingLimit⟩, "> ", false⟩
    let inputs : List Input := [.line "(def 'x' echo)", .line "(x (stop))", .interrupt,
      .line "(exit far)", .line "(def 'y' x)"]
    let loop := repl.run inputs store
    repl.EndsAt store inputs 3
      ∧ prompts loop.events = ["> ", "> ", "> ", "> "]
      ∧ answers loop.events = ["(FN, ...)", "Interrupted", ""]
      ∧ loop.outcome = .ok 1
      ∧ loop.store = ⟨[⟨bindings ++ [("x", .fn "echo" (.echo 0))]⟩]⟩ := by
  intro bindings store repl inputs loop
  let after : Store := ⟨[⟨bindings ++ [("x", .fn "echo" (.echo 0))]⟩]⟩
  have hdefine : repl.evaluation? store (.line "(def 'x' echo)")
      = some ⟨.ok (.fn "echo" (.echo 0)), after,
        [.applied "def" (.define 0) [.literal "x", .fn "echo" (.echo 0)],
          .bound 0 "x" (.fn "echo" (.echo 0))]⟩ :=
    (Repl.evaluation?_of_line (by decide) (by decide)).trans (congrArg some (by cbv))
  have hstop : repl.evaluation? after (.line "(x (stop))")
      = some ⟨.error .interrupted, after, [.applied "stop" .interrupt []]⟩ :=
    (Repl.evaluation?_of_line (by decide) (by decide)).trans (congrArg some (by cbv))
  have hexit : repl.evaluation? after (.line "(exit far)")
      = some ⟨.error (.exit 1), after, [.applied "exit" .exit [.number (.infinite false)]]⟩ :=
    (Repl.evaluation?_of_line (by decide) (by decide)).trans (congrArg some (by cbv))
  have hfirst : repl.next store (.line "(def 'x' echo)") = after := by rw [Repl.next, hdefine]; rfl
  have hsecond : repl.next after (.line "(x (stop))") = after := by rw [Repl.next, hstop]; rfl
  have hthird : repl.next after .interrupt = after := rfl
  have hlast : repl.next after (.line "(exit far)") = after := by rw [Repl.next, hexit]; rfl
  have hends : repl.EndsAt store inputs 3 := by
    refine Repl.endsAt_cons_succ.mpr
      ⟨Repl.not_ends_of_line (by decide) (by rw [Repl.exit?, hdefine]; rfl)
        (by rw [Repl.isUnshown, hdefine]; rfl), ?_⟩
    rw [hfirst]
    refine Repl.endsAt_cons_succ.mpr
      ⟨Repl.not_ends_of_line (by decide) (by rw [Repl.exit?, hstop]; rfl)
        (by rw [Repl.isUnshown, hstop]; rfl), ?_⟩
    rw [hsecond]
    refine Repl.endsAt_cons_succ.mpr ⟨Repl.not_ends_interrupt, ?_⟩
    rw [hthird]
    exact Repl.Ends.endsAt_zero (Or.inr (Or.inl (by rw [Repl.exit?, hexit]; rfl))) _
  obtain ⟨-, h⟩ := loop_accounts_for_inputs repl store inputs
  obtain ⟨hprompts, hanswers, hstatus, hstore, -⟩ := h 3 hends
  refine ⟨hends, hprompts, hanswers.trans ?_, hstatus.trans ?_, hstore.trans ?_⟩
  · simp only [inputs, List.take, Repl.tally, Repl.shown, hfirst, hdefine, hstop]
    cbv
  · simp only [Repl.endingAt, Repl.ending, Repl.isUnshown, Repl.storeAfter, inputs, List.take,
      List.foldl, hfirst, hsecond, hthird, List.getElem?_cons_succ, List.getElem?_cons_zero,
      Repl.exit?, hexit, Option.map_some, Option.getD_some, Bool.false_eq_true, if_false]
  · simp only [inputs, List.take, Repl.storeAfter, List.foldl, hfirst, hsecond, hthird, hlast,
      after]

/-- A line has a value that cannot be shown. There is no answer to it and no status, and the
user is not asked for another line. -/
theorem unshown_line_not_answered :
    let store : Store := ⟨[⟨[("ys", Expr.null.wrapped 1200)]⟩]⟩
    let repl : Repl := ⟨⟨0, false, nestingLimit⟩, "> ", false⟩
    let inputs : List Input := [.line "ys", .interrupt]
    let loop := repl.run inputs store
    Input.isQuit (.line "ys") = false
      ∧ repl.exit? store (.line "ys") = none
      ∧ prompts loop.events = ["> "]
      ∧ answers loop.events = []
      ∧ loop.outcome = .error .exhausted := by
  have hnot : (Expr.null.wrapped 1200).isRenderable = false :=
    Expr.not_isRenderable_wrapped (by decide) _
  have hread : readFirst nestingLimit false "ys" = .ok (.symbol "ys") := by cbv
  generalize Expr.null.wrapped 1200 = deep at hnot ⊢
  intro store repl inputs loop
  have heval : repl.evaluation? store (.line "ys") = some ⟨.ok deep, store, []⟩ := by
    refine (Repl.evaluation?_of_line (by decide) (by decide)).trans (congrArg some ?_)
    have hsymbol : evaluate nestingLimit 0 (.symbol "ys") store = ⟨.ok deep, store, []⟩ :=
      Action.lookup_of_some rfl
    show evaluateText nestingLimit 0 false "ys" store = _
    rw [evaluateText, hread, ← hsymbol]
    rfl
  have hunshown : repl.isUnshown store (.line "ys") = true := by
    rw [Repl.isUnshown, heval, Option.map_some]
    show (!deep.isRenderable) = true
    rw [hnot, Bool.not_false]
  have hends : repl.EndsAt store inputs 0 :=
    Repl.Ends.endsAt_zero (Or.inr (Or.inr hunshown)) _
  refine ⟨by decide, by rw [Repl.exit?, heval]; rfl, Repl.prompts_of_endsAt hends,
    Repl.answers_of_endsAt hends, ?_⟩
  show (repl.run inputs store).outcome = _
  rw [Repl.run_of_endsAt hends]
  show repl.ending store (.line "ys") = _
  rw [Repl.ending, hunshown, if_pos rfl]

end TinyLisp
