import DeferredInit.Proofs.Deferral.Reference

/-!
# Watching a program assign before use

A program that has not been lowered can be run as it is.  Deferred variables and properties are nothing special then:
a variable without an initializer is unbound until it is assigned, and a field without one holds null.  `Watched` is
such a run under watch.  It halts as soon as one of these happens (`breach`):

* a deferred variable is read that is unbound or holds null;
* the getter of a genuine deferred property returns null;
* a deferred variable is declared where it already holds something;
* it is asked whether a property is initialized: the library is called for it, or the call is begun and has operands
  besides the reference to the property.

It also halts where it would leave what can be reached.  Otherwise a watched run is what it watches
(`Watched.runs_tied`): no breach, no difference.
-/

namespace DeferredInit

namespace Watched

variable (w : Lowering) (m : Machine) (eval : ExprId → EvalM Value)

/-- What must not happen has happened: the run halts. -/
def breach {α : Type} : EvalM α := throw (.halt .dangling)

/-- The value of a variable; a deferred one has to have been assigned. -/
def getValue (d : DeclId) : EvalM Value := do
  let decl ← m.decl d
  if decl.isDeferredVariable then
    match ← EvalM.local? d with
    | some v => if v.isNull then breach else return v
    | none => breach
  else m.getValue d

/-- Brings a variable into being; a deferred one must not have been assigned. -/
def declare (d : DeclId) : EvalM Unit := do
  let decl ← m.decl d
  if decl.isDeferredVariable then
    match ← EvalM.local? d with
    | some _ => breach
    | none => m.declare (m.program.inside eval) d
  else m.declare (m.program.inside eval) d

/-- What a getter does, if it does not come to null. -/
def assigned (getter : EvalM Value) : EvalM Value := fun s =>
  match getter s with
  | .ok v s => if v.isNull then breach s else .ok v s
  | .error (.ret function v) s => if v.isNull then breach s else .error (.ret function v) s
  | .error u s => .error u s

/-- What calling a function does. -/
def body (function : DeclId) (f : FunctionDecl) : Option (EvalM Value) :=
  f.body.map fun e =>
    if (m.program.guardedField? function).isSome then assigned (m.program.inside eval e) else m.program.inside eval e

/-- Calls a function. -/
def invoke (function : DeclId) (this extension : Option Value) (args : List Value) : RunM Value :=
  m.invokeWith (body m eval function) function this extension args

/-- What nodes do once their operands are evaluated. -/
def operations : Operations where
  getValue := getValue m
  setValue := EvalM.setLocal
  declare := declare m eval
  getField := m.loadField (m.program.inside eval)
  setField := m.storeField
  call
    | .declared function, this, extension, args => (invoke m eval function this extension args).evaluated
    | .library hash, _, _, args =>
      if hash = w.intrinsics.isInitializedGetter then breach else EvalM.fail (m.libraryFault hash args)
  construct := m.instantiate (m.program.inside eval)

/-- Whether a query has operands that the reference does not evaluate. -/
def asksMore : ExprForm → Bool
  | .call (.library hash) dispatch _ args =>
    hash = w.intrinsics.isInitializedGetter && (dispatch.isSome || !args.isEmpty)
  | _ => false

/-- Evaluates one node. -/
def node (e : ExprId) : EvalM Value := do
  let node ← m.expr e
  if asksMore w node.form then breach else (operations w m eval).evalNode eval node.form

/-- **A machine under watch.** -/
def semantics : Semantics where
  node := node w m
  invoke := invoke m
  instantiate eval := m.instantiate (m.program.inside eval)
  stray := m.strayReturn

/-! ## Watching changes nothing -/

/-- How a watched run is compared with the run that it watches: everything is the same, unless it halts. -/
abbrev same : Tie := .unlessLeft .dangling

/-- A getter under watch halts, or ends like the getter and without returning null. -/
theorem assigned_cases (x : EvalM Value) (s : State) :
    (∃ s', assigned x s = .error (.halt .dangling) s') ∨
      assigned x s = x s ∧ ∀ function v s', x s = .error (.ret function v) s' → v.isNull = false := by
  unfold assigned
  cases x s with
  | ok v s' =>
    cases hnull : v.isNull with
    | true => exact .inl ⟨s', by simp [hnull]; rfl⟩
    | false => exact .inr ⟨by simp [hnull], fun _ _ _ h => by cases h⟩
  | error u s' =>
    cases u with
    | ret function v =>
      cases hnull : v.isNull with
      | true => exact .inl ⟨s', by simp [hnull]; rfl⟩
      | false =>
        refine .inr ⟨by simp [hnull], fun _ _ _ h => ?_⟩
        cases h
        exact hnull
    | fault f => exact .inr ⟨rfl, fun _ _ _ h => by cases h⟩
    | halt h => exact .inr ⟨rfl, fun _ _ _ h => by cases h⟩

section

variable {w : Lowering} {m : Machine} {n : Nat}

theorem left_dangling : same.left (.halt .dangling) := rfl

/-- A variable under watch holds what it holds, or the run halts. -/
theorem getValue_cases {d : DeclId} {D : Decl} (hD : m.program.decl? d = some D) (hdef : D.isDeferredVariable = true)
    (s : State) : getValue m d s = .error (.halt .dangling) s ∨
      ∃ v, v.isNull = false ∧ s.local? d = some v ∧ getValue m d s = .ok v s := by
  simp only [getValue, Machine.decl, hD, pure_bind, hdef, if_true]
  simp only [bind, EStateM.bind, EvalM.local?_run]
  cases s.local? d with
  | none => exact .inl rfl
  | some v =>
    cases hnull : v.isNull with
    | true => exact .inl (by simp only [hnull, if_true]; rfl)
    | false => exact .inr ⟨v, hnull, rfl, by simp only [hnull, Bool.false_eq_true, if_false]; rfl⟩

/-- A variable under watch comes into being as it does where it holds nothing yet, or the run halts. -/
theorem declare_cases {d : DeclId} {D : Decl} (hD : m.program.decl? d = some D) (hdef : D.isDeferredVariable = true)
    (eval : ExprId → EvalM Value) (s : State) : declare m eval d s = .error (.halt .dangling) s ∨
      s.local? d = none ∧ declare m eval d s = m.declare (m.program.inside eval) d s := by
  simp only [declare, Machine.decl, hD, pure_bind, hdef, if_true]
  simp only [bind, EStateM.bind, EvalM.local?_run]
  cases s.local? d with
  | none => exact .inr ⟨rfl, rfl⟩
  | some v => exact .inl rfl

theorem getValue_tied (d : DeclId) : Tied same.evals (· = ·) (getValue m d) (m.getValue d) := by
  cases hD : m.program.decl? d with
  | none =>
    unfold getValue Machine.decl
    rw [hD]
    exact Tie.left_halt left_dangling
  | some D =>
    cases hdef : D.isDeferredVariable with
    | false =>
      have heq : getValue m d = m.getValue d := by
        simp only [getValue, Machine.decl, hD, pure_bind, hdef, Bool.false_eq_true, if_false]
      rw [heq]
      exact Tie.getValue (Tie.machines_refl same m) fun _ _ => id
    | true =>
      intro s t hst
      rcases getValue_cases hD hdef s with hs | ⟨v, _, hv, hs⟩
      · rw [hs]
        exact .left ⟨_, left_dangling, rfl⟩
      · have hlocal : s.local? d = t.local? d := State.Resembles.local? hst rfl
        rw [hs, m.getValue_of_local? (hlocal ▸ hv)]
        exact .ok rfl hst

variable (h : ∀ e, Tied same.evals (· = ·) ((semantics w m).eval n e) (m.eval n e))
include h

theorem entered_tied (e : ExprId) :
    Tied same.evals (· = ·) (m.program.inside ((semantics w m).eval n) e) (m.eval n e) :=
  m.program.inside_tied left_dangling fun _ => h e

theorem declare_tied (d : DeclId) :
    Tied same.evals (· = ·) (declare m ((semantics w m).eval n) d) (m.declare (m.eval n) d) := by
  have henter := Tie.declare_of_enter m (entered_tied h) d
  cases hD : m.program.decl? d with
  | none =>
    unfold declare Machine.decl
    rw [hD]
    exact Tie.left_halt left_dangling
  | some D =>
    cases hdef : D.isDeferredVariable with
    | false =>
      have heq : declare m ((semantics w m).eval n) d =
          m.declare (m.program.inside ((semantics w m).eval n)) d := by
        simp only [declare, Machine.decl, hD, pure_bind, hdef, Bool.false_eq_true, if_false]
      rw [heq]
      exact henter
    | true =>
      intro s t hst
      rcases declare_cases hD hdef ((semantics w m).eval n) s with hs | ⟨_, hs⟩
      · rw [hs]
        exact .left ⟨_, left_dangling, rfl⟩
      · rw [hs]
        exact henter s t hst

theorem invoke_tied (function : DeclId) (this extension : Option Value) (args : List Value) :
    Tied same.runs (· = ·) (invoke m ((semantics w m).eval n) function this extension args)
      (m.invoke (m.eval n) function this extension args) := by
  refine Tie.invokeWith (Tie.machines_refl same m) (fun D D' f f' hD hD' hf hf' => ?_) this extension args
  rw [hD] at hD'
  obtain rfl := Option.some.inj hD'
  rw [hf] at hf'
  obtain rfl := DeclForm.function.inj hf'
  unfold body
  cases f.body with
  | none => exact .none
  | some e =>
    refine .some fun s t hst _ => ?_
    have hentered := entered_tied h e s t hst
    split
    · show Agree _ _ (assigned (m.program.inside ((semantics w m).eval n) e) s) _
      rcases assigned_cases (m.program.inside ((semantics w m).eval n) e) s with ⟨s', hs⟩ | ⟨hs, _⟩
      · rw [hs]
        exact .left ⟨_, left_dangling, rfl⟩
      · rw [hs]
        exact hentered
    · exact hentered

/-- What a node does under watch is what it does, unless it is a breach. -/
theorem performs (form : ExprForm) :
    same.Performs (operations w m ((semantics w m).eval n)) (m.operations (m.eval n)) form := by
  have henter : same.Performs (m.operations (m.program.inside ((semantics w m).eval n))) (m.operations (m.eval n)) form :=
    Tie.performs_of_enter m (entered_tied h) fun _ _ _ _ => id
  cases form with
  | getValue d => exact getValue_tied d
  | declare d => exact declare_tied h d
  | call callee _ _ _ =>
    intro this extension args
    cases callee with
    | declared function => exact Tie.evaluated (invoke_tied h function this extension args)
    | library hash =>
      show Tied _ _ (if hash = w.intrinsics.isInitializedGetter then breach else EvalM.fail (m.libraryFault hash args)) _
      split
      · exact Tie.left_halt left_dangling
      · exact Tie.fail _
  | _ => exact henter

omit h in
/-- **Evaluating under watch** is evaluating, unless there is a breach. -/
theorem eval_tied (e : ExprId) : Tied same.evals (· = ·) ((semantics w m).eval n e) (m.eval n e) := by
  induction n generalizing e with
  | zero => exact Tie.halt .exhausted
  | succ n ih =>
    refine .bind (Tie.expr_tied m e) fun E E' ⟨hE, _⟩ => ?_
    subst hE
    split
    · exact Tie.left_halt left_dangling
    · exact Tie.evalNode_tied (performs ih E.form) fun c _ => ih c

end

theorem step_tied (w : Lowering) (m : Machine) (n : Nat) (step : Step) :
    Tied same.runs (· = ·) ((semantics w m).step n step) (m.semantics.step n step) := by
  have h := eval_tied (w := w) (m := m) (n := n)
  cases step with
  | callFunction function args =>
    rw [m.semantics_step]
    exact invoke_tied h function none none args
  | callMethod function receiver args =>
    rw [m.semantics_step]
    exact invoke_tied h function (some receiver) none args
  | construct cls =>
    refine Tie.construct ?_ (Tie.strayReturn (Tie.machines_refl same m))
    rw [m.semantics_eval]
    have henter := entered_tied h
    exact Tie.instantiate (Tie.machines_refl same m) (Tie.initialField_of_enter m henter) cls

/-- **A watched run is the run that it watches**, unless it halts for a breach. -/
theorem runs_tied (w : Lowering) (m : Machine) (n : Nat) (steps : List Step) (s : State) :
    same.Runs ((semantics w m).run n steps s) (m.semantics.run n steps s) := by
  have hleft (f : RuntimeFault) : ¬same.left (.fault f) := nofun
  have hright (f : RuntimeFault) : ¬same.right (.fault f) := id
  exact Tie.takeSteps hleft hright (step_tied w m n) steps (.refl (fun _ _ => rfl) s)

end Watched

end DeferredInit
