import DeferredInit.Machine.Run
import DeferredInit.Proofs.Machine.Renamed

/-!
# Ways to run a program

A machine is one way to give expressions, calls and instances a meaning; a reference that says what a program ought
to do is another.  A `Semantics` consists of the three, each told how to evaluate what lies deeper.  It is run from
outside through `Step`s, and `run` records how each step ended and in which state.

A machine itself evaluates down to one fixed depth (`Machine.run_depthBound`).  To run it down to any other depth
changes nothing, as long as neither depth is exhausted (`eval_deeper`).
-/

namespace DeferredInit

/-- **A semantics**: what a node, a call and a new instance amount to, given how to evaluate expressions. -/
structure Semantics where
  node : (ExprId → EvalM Value) → ExprId → EvalM Value
  invoke : (ExprId → EvalM Value) → DeclId → Option Value → Option Value → List Value → RunM Value
  instantiate : (ExprId → EvalM Value) → DeclId → EvalM Value
  stray : DeclId → RunM RuntimeFault

/-- **What a machine is told from outside.** -/
inductive Step where
  /-- Call a function. -/
  | callFunction (function : DeclId) (args : List Value)
  /-- Call a method of a receiver. -/
  | callMethod (function : DeclId) (receiver : Value) (args : List Value)
  /-- Make an instance of a class. -/
  | construct (cls : DeclId)
deriving DecidableEq

/-- How a step ended, and the state that it left. -/
abbrev Answer := Except RuntimeFault Value × State

/-- The result of a step that ended with an answer. -/
def Answer.result : Answer → EStateM.Result (Stop RuntimeFault) State Value
  | (.ok v, t) => .ok v t
  | (.error f, t) => .error (.fault f) t

/-- **Answers that look the same from outside**: the same value or fault, the same fields of objects and static
fields, and the same number of field reads.  A missing field of an object counts as null. -/
structure Answer.Alike (a b : Answer) : Prop where
  value_eq : a.1 = b.1
  reads_eq : a.2.reads = b.2.reads
  statics_eq : ∀ field, a.2.statics.get? field = b.2.statics.get? field
  size_eq : a.2.objects.size = b.2.objects.size
  fields : ∀ o, Table.SameContents (a.2.fieldsOf o) (b.2.fieldsOf o)

theorem Answer.Alike.symm {a b : Answer} (h : a.Alike b) : b.Alike a where
  value_eq := h.value_eq.symm
  reads_eq := h.reads_eq.symm
  statics_eq field := (h.statics_eq field).symm
  size_eq := h.size_eq.symm
  fields o field := (h.fields o field).symm

theorem Answer.Alike.trans {a b c : Answer} (h : a.Alike b) (h' : b.Alike c) : a.Alike c where
  value_eq := h.value_eq.trans h'.value_eq
  reads_eq := h.reads_eq.trans h'.reads_eq
  statics_eq field := (h.statics_eq field).trans (h'.statics_eq field)
  size_eq := h.size_eq.trans h'.size_eq
  fields o field := (h.fields o field).trans (h'.fields o field)

theorem Answer.forall₂_trans {as bs cs : List Answer} (h : List.Forall₂ Answer.Alike as bs)
    (h' : List.Forall₂ Answer.Alike bs cs) : List.Forall₂ Answer.Alike as cs := by
  induction h generalizing cs with
  | nil => exact h'
  | cons hab _ ih =>
    cases h' with
    | cons hbc hrest => exact .cons (hab.trans hbc) (ih hrest)

/-- Takes steps one after the other, each from the state that the one before has left. -/
def takeSteps (take : Step → RunM Value) : List Step → State → Except Halt (List Answer)
  | [], _ => .ok []
  | step :: rest, s =>
    match take step s with
    | .ok v t => (takeSteps take rest t).map ((.ok v, t) :: ·)
    | .error (.fault f) t => (takeSteps take rest t).map ((.error f, t) :: ·)
    | .error (.halt h) _ => .error h

/-- A step that ends with an answer is followed by the others. -/
theorem takeSteps_cons {take : Step → RunM Value} {step : Step} {s : State} {a : Answer} (h : take step s = a.result)
    (rest : List Step) : takeSteps take (step :: rest) s = (takeSteps take rest a.2).map (a :: ·) := by
  obtain ⟨_ | _, t⟩ := a <;> rw [takeSteps, h] <;> rfl

namespace Semantics

variable (S : Semantics)

/-- Evaluates an expression, going no deeper than a depth. -/
def eval : Nat → ExprId → EvalM Value
  | 0, _ => throw (.halt .exhausted)
  | depth + 1, e => S.node (eval depth) e

/-- Makes an instance of a class; a `return` from what its fields hold at first is stray. -/
def construct (depth : Nat) (cls : DeclId) : RunM Value := fun s =>
  match S.instantiate (S.eval depth) cls s with
  | .ok v s => .ok v s
  | .error (.ret target _) s => (do throw (.fault (← S.stray target)) : RunM Value) s
  | .error (.fault f) s => .error (.fault f) s
  | .error (.halt h) s => .error (.halt h) s

/-- Takes one step. -/
def step (depth : Nat) : Step → RunM Value
  | .callFunction function args => S.invoke (S.eval depth) function none none args
  | .callMethod function receiver args => S.invoke (S.eval depth) function (some receiver) none args
  | .construct cls => S.construct depth cls

/-- **Runs a program**, with evaluations down to a depth. -/
def run (depth : Nat) (steps : List Step) (s : State) : Except Halt (List Answer) :=
  takeSteps (S.step depth) steps s

end Semantics

namespace Machine

variable (m : Machine)

/-- What a machine does. -/
def semantics : Semantics where
  node eval e := do
    let node ← m.expr e
    (m.operations eval).evalNode eval node.form
  invoke := m.invoke
  instantiate := m.instantiate
  stray := m.strayReturn

/-- What a machine does when it takes a step. -/
def take : Step → RunM Value
  | .callFunction function args => m.callFunction function args
  | .callMethod function receiver args => m.callMethod function receiver args
  | .construct cls => m.construct cls

theorem semantics_eval (depth : Nat) : m.semantics.eval depth = m.eval depth := by
  induction depth with
  | zero => rfl
  | succ depth ih =>
    funext e
    rw [Semantics.eval, ih]
    rfl

/-- A step that a machine takes with a way to evaluate. -/
def takeWith (enter : ExprId → EvalM Value) : Step → RunM Value
  | .callFunction function args => m.invoke enter function none none args
  | .callMethod function receiver args => m.invoke enter function (some receiver) none args
  | .construct cls => fun s =>
    match m.instantiate enter cls s with
    | .ok v s => .ok v s
    | .error (.ret target _) s => (do throw (.fault (← m.strayReturn target)) : RunM Value) s
    | .error (.fault f) s => .error (.fault f) s
    | .error (.halt h) s => .error (.halt h) s

theorem semantics_step (depth : Nat) : m.semantics.step depth = m.takeWith (m.eval depth) := by
  rw [← semantics_eval]
  funext step
  cases step <;> rfl

theorem take_eq : m.take = m.takeWith m.evaluate := by
  funext step
  cases step <;> rfl

/-- **A machine takes steps as its semantics says**, to the depth that it goes. -/
theorem step_depthBound : m.semantics.step m.depthBound = m.take := by
  rw [semantics_step, take_eq]
  exact congrArg m.takeWith (funext fun e => (evaluate.eq_1 m e).symm)

theorem run_depthBound (steps : List Step) (s : State) :
    m.semantics.run m.depthBound steps s = takeSteps m.take steps s := by
  rw [Semantics.run, step_depthBound]

/-- One node, evaluated one deeper than its operands. -/
theorem eval_succ {e : ExprId} {E : Expr} (he : m.program.expr? e = some E) (depth : Nat) :
    m.eval (depth + 1) e = (m.operations (m.eval depth)).evalNode (m.eval depth) E.form := by
  funext s
  simp only [eval, expr, he, bind, EStateM.bind, pure, EStateM.pure]

end Machine

/-! ## Comparing runs -/

namespace Tie

variable {T : Tie}

/-- Answers that are alike. -/
structure Answers (T : Tie) (a b : Answer) : Prop where
  value : (∃ v, a.1 = .ok v ∧ b.1 = .ok v) ∨ ∃ f g, a.1 = .error f ∧ b.1 = .error g ∧ T.fault f g
  state : a.2.Resembles T.locals b.2

theorem Answers.alike {a b : Answer} (h : T.Answers a b) (hfault : ∀ f g, T.fault f g → f = g) : a.Alike b where
  value_eq := by
    rcases h.value with ⟨v, ha, hb⟩ | ⟨f, g, ha, hb, hfg⟩
    · rw [ha, hb]
    · rw [ha, hb, hfault f g hfg]
  reads_eq := h.state.reads_eq
  statics_eq := h.state.statics_eq
  size_eq := h.state.size_eq
  fields := h.state.fields

/-- Runs that are alike, or one of which is excused. -/
inductive Runs (T : Tie) : Except Halt (List Answer) → Except Halt (List Answer) → Prop
  | ok {as bs : List Answer} : List.Forall₂ T.Answers as bs → Runs T (.ok as) (.ok bs)
  | halt (h : Halt) : Runs T (.error h) (.error h)
  | left {h : Halt} {r : Except Halt (List Answer)} : T.left (.halt h) → Runs T (.error h) r
  | right {h : Halt} {r : Except Halt (List Answer)} : T.right (.halt h) → Runs T r (.error h)

theorem Runs.cons {r r' : Except Halt (List Answer)} (h : T.Runs r r') {a b : Answer} (hab : T.Answers a b) :
    T.Runs (r.map (a :: ·)) (r'.map (b :: ·)) := by
  cases h with
  | ok hs => exact .ok (.cons hab hs)
  | halt h => exact .halt h
  | left hl => exact .left hl
  | right hr => exact .right hr

/-- A run that comes to its end on the left does so on the right, unless the right one is excused. -/
theorem Runs.of_left {r r' : Except Halt (List Answer)} (h : T.Runs r r') {as : List Answer} (hr : r = .ok as) :
    (∃ bs, r' = .ok bs ∧ List.Forall₂ T.Answers as bs) ∨ ∃ halt, r' = .error halt ∧ T.right (.halt halt) := by
  subst hr
  cases h with
  | ok hs => exact .inl ⟨_, rfl, hs⟩
  | right hr => exact .inr ⟨_, rfl, hr⟩

/-- A run that comes to its end on the right does so on the left, unless the left one is excused. -/
theorem Runs.of_right {r r' : Except Halt (List Answer)} (h : T.Runs r r') {bs : List Answer} (hr : r' = .ok bs) :
    (∃ as, r = .ok as ∧ List.Forall₂ T.Answers as bs) ∨ ∃ halt, r = .error halt ∧ T.left (.halt halt) := by
  subst hr
  cases h with
  | ok hs => exact .inl ⟨_, rfl, hs⟩
  | left hl => exact .inr ⟨_, rfl, hl⟩

/-- **Steps that end alike make runs that are alike**, if faults are no excuse. -/
theorem takeSteps {take₁ take₂ : Step → RunM Value} (hleft : ∀ f, ¬T.left (.fault f))
    (hright : ∀ f, ¬T.right (.fault f)) (h : ∀ step, Tied T.runs (· = ·) (take₁ step) (take₂ step))
    (steps : List Step) {s t : State} (hst : s.Resembles T.locals t) :
    T.Runs (DeferredInit.takeSteps take₁ steps s) (DeferredInit.takeSteps take₂ steps t) := by
  induction steps generalizing s t with
  | nil => exact .ok .nil
  | cons step rest ih =>
    have hstep := h step s t hst
    unfold DeferredInit.takeSteps
    generalize take₁ step s = r, take₂ step t = r' at hstep
    cases hstep with
    | ok hv hst' =>
      subst hv
      exact (ih hst').cons ⟨.inl ⟨_, rfl, rfl⟩, hst'⟩
    | error huv hst' =>
      cases huv with
      | fault hfg => exact (ih hst').cons ⟨.inr ⟨_, _, rfl, rfl, hfg⟩, hst'⟩
      | halt h => exact .halt h
    | @left u _ _ hl =>
      cases u with
      | fault f => exact absurd hl (hleft f)
      | halt h => exact .left hl
    | @right v _ _ hr =>
      cases v with
      | fault f => exact absurd hr (hright f)
      | halt h => exact .right hr

/-- Instances that are made alike are made alike from outside. -/
theorem construct {S₁ S₂ : Semantics} {n k : Nat} {cls : DeclId}
    (h : Tied T.evals (· = ·) (S₁.instantiate (S₁.eval n) cls) (S₂.instantiate (S₂.eval k) cls))
    (hstray : ∀ d, Tied T.runs (· = ·) (S₁.stray d) (S₂.stray d)) :
    Tied T.runs (· = ·) (S₁.construct n cls) (S₂.construct k cls) := by
  intro s t hst
  have h := h s t hst
  simp only [Semantics.construct]
  generalize S₁.instantiate (S₁.eval n) cls s = r, S₂.instantiate (S₂.eval k) cls t = r' at h
  cases h with
  | ok hv hst' => exact .ok hv hst'
  | error huv hst' =>
    cases huv with
    | ret d v =>
      refine Tied.bind (hstray d) (fun f g hfg => ?_) _ _ hst'
      subst hfg
      exact .throw (.fault (T.fault_refl f))
    | @stop a b hstop =>
      cases hstop with
      | fault hfg => exact .error (.fault hfg) hst'
      | halt h => exact .error (.halt h) hst'
  | left hl =>
    obtain ⟨stop, hl, rfl⟩ := hl
    cases stop <;> exact .left hl
  | right hr =>
    obtain ⟨stop, hr, rfl⟩ := hr
    cases stop <;> exact .right hr

/-! ## Depth -/

/-- Everything is the same on both sides, unless the left one halts for this reason. -/
def unlessLeft (h : Halt) : Tie where
  locals _ a b := a = b
  locals_refl _ _ := rfl
  fault f g := f = g
  fault_refl _ := rfl
  left stop := stop = .halt h
  right _ := False

theorem machines_refl (T : Tie) (m : Machine) : T.Machines m m := (Machine.Renamed.refl m).machines T

section Enter

variable (m : Machine) {enter₁ enter₂ : ExprId → EvalM Value}
variable (h : ∀ e, Tied T.evals (· = ·) (enter₁ e) (enter₂ e))
include h

theorem initialField_of_enter (field : DeclId) : T.InitialField m m enter₁ enter₂ field :=
  (Machine.Renamed.refl m).initialField (fun _ _ _ e _ => h e) field

theorem declare_of_enter (d : DeclId) : Tied T.evals (· = ·) (m.declare enter₁ d) (m.declare enter₂ d) :=
  (Machine.Renamed.refl m).declare (fun _ _ _ e _ => h e) d

/-- The operations of one machine end alike if what they enter does. -/
theorem performs_of_enter {form : ExprForm} (hT : ∀ d, form = .getValue d → T.Tight d) :
    T.Performs (m.operations enter₁) (m.operations enter₂) form :=
  (Machine.Renamed.refl m).performs (fun _ _ _ e _ => h e) hT

end Enter

/-- Steps end alike if what they enter does. -/
theorem step_of_enter {σ : ExprId → ExprId} {m m' : Machine} (h : Machine.Renamed σ m m') {n k : Nat}
    (henter : ∀ d D, m.program.decl? d = some D → ∀ e ∈ D.form.ownedExprs,
      Tied T.evals (· = ·) (m.eval n e) (m'.eval k (σ e))) (step : Step) :
    Tied T.runs (· = ·) (m.semantics.step n step) (m'.semantics.step k step) := by
  cases step with
  | callFunction function args =>
    rw [m.semantics_step, m'.semantics_step]
    exact h.invoke henter function none none args
  | callMethod function receiver args =>
    rw [m.semantics_step, m'.semantics_step]
    exact h.invoke henter function (some receiver) none args
  | construct cls =>
    refine Tie.construct ?_ (Tie.strayReturn (h.machines T))
    rw [m.semantics_eval, m'.semantics_eval]
    exact Tie.instantiate (h.machines T) (h.initialField henter) cls

theorem expr_tied (m : Machine) (e : ExprId) :
    Tied T.evals (fun E E' => E = E' ∧ m.program.expr? e = some E) (m.expr e) (m.expr e) := by
  unfold Machine.expr
  cases m.program.expr? e with
  | none => exact halt .dangling
  | some E => exact .pure ⟨rfl, rfl⟩

/-- **Going deeper changes nothing** where the lesser depth is not exhausted. -/
theorem eval_deeper (m : Machine) {n k : Nat} (hnk : n ≤ k) (e : ExprId) :
    Tied (unlessLeft .exhausted).evals (· = ·) (m.eval n e) (m.eval k e) := by
  induction n generalizing k e with
  | zero => exact left_halt rfl
  | succ n ih =>
    obtain ⟨k, rfl⟩ : ∃ j, k = j + 1 := ⟨k - 1, by omega⟩
    have h : ∀ e, Tied (unlessLeft .exhausted).evals (· = ·) (m.eval n e) (m.eval k e) := fun e => ih (by omega) e
    refine .bind (expr_tied m e) fun E E' ⟨hE, _⟩ => ?_
    subst hE
    exact evalNode_tied (performs_of_enter m h fun _ _ _ _ => id) fun e' _ => h e'

/-- What ends alike at some depth does so at any lesser one, if it is excused when exhausted. -/
theorem of_deeper (hright : T.right (.halt .exhausted)) {m : Machine} {n k : Nat} (hnk : n ≤ k) {e : ExprId}
    {t : State} {r : EStateM.Result Unwind State Value} (h : Agree T.evals (· = ·) r (m.eval k e t)) :
    Agree T.evals (· = ·) r (m.eval n e t) := by
  have hdeeper := eval_deeper m hnk e t t (.refl (fun _ _ => rfl) t)
  generalize m.eval n e t = r₁, m.eval k e t = r₂ at h hdeeper
  have hback {s u v : State} (hsv : s.Resembles T.locals v) (huv : u.Resembles (unlessLeft .exhausted).locals v) :
      s.Resembles T.locals u := by
    have hvu : v.Resembles (unlessLeft .exhausted).locals u := huv.symm fun _ _ _ h => h.symm
    exact hsv.trans hvu fun _ _ _ _ h h' => h' ▸ h
  cases hdeeper with
  | ok hv hst =>
    subst hv
    cases h with
    | ok hv hst' => exact .ok hv (hback hst' hst)
    | left hl => exact .left hl
  | @error u v s₁ t₁ huv hst =>
    have hvu : v = u := by
      cases huv with
      | ret d v => rfl
      | stop hstop =>
        cases hstop with
        | fault hfg => rw [hfg]
        | halt h => rfl
    subst hvu
    cases h with
    | error huv' hst' => exact .error huv' (hback hst' hst)
    | left hl => exact .left hl
    | right hr => exact .right hr
  | left hl =>
    obtain ⟨stop, hl, rfl⟩ := hl
    obtain rfl := hl
    exact .right ⟨_, hright, rfl⟩
  | right hr =>
    obtain ⟨_, hr, _⟩ := hr
    exact hr.elim

end Tie

end DeferredInit
