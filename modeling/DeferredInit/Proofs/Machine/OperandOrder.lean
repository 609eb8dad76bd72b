import DeferredInit.Proofs.Machine.Logged
import DeferredInit.Proofs.Program.Sample

/-!
# In which order operands are evaluated

`ExprForm.children` lists the sub-expressions of a node.  The evaluator goes through them in that order, and leaves out
the branch that a condition does not take.  A reference to a property holds one receiver at most, so it evaluates one at
most: where both are written down, the second is left out as well (`ExprForm.evaluated`).

To see it, the operands of a node are evaluated under a log, each with how it ended (`Machine.watchNode`).  If the node
comes to a value, the log has all operands in order.  If one of them ends with a `return` or a fault, the log ends with
that one.  `Operands` says so of a list of operands and a log, and `eval_operands` of every node.
-/

namespace DeferredInit

/-- **The sub-expressions that are evaluated**, in order, if a condition takes this branch: the children without the
branch that is not taken, and without the second receiver of a reference that has two. -/
def ExprForm.evaluated (taken : Bool) : ExprForm → List ExprId
  | cond condition thenBranch elseBranch => condition :: if taken then [thenBranch] else elseBranch.toList
  | propertyRef _ (some receiver) _ => [receiver]
  | form => form.children

/-- Only a condition takes branches. -/
theorem ExprForm.evaluated_eq {form : ExprForm} (hform : ∀ c t e, form ≠ .cond c t e) (a b : Bool) :
    form.evaluated a = form.evaluated b := by
  cases form with
  | cond c t e => exact absurd rfl (hform c t e)
  | propertyRef _ dispatch _ => cases dispatch <;> rfl
  | _ => rfl

/-- An operand, and how its evaluation has ended. -/
abbrev Operand := ExprId × Except Unwind Value

/-- **What is logged of operands** that are to be evaluated in order, and how it ends. -/
inductive Operands : List ExprId → Option Unwind → List Operand → Prop
  /-- All have come to values. -/
  | nil : Operands [] none []
  /-- One has come to a value, and then the others follow. -/
  | cons {c : ExprId} {cs : List ExprId} {v : Value} {stop : Option Unwind} {log : List Operand} :
      Operands cs stop log → Operands (c :: cs) stop ((c, .ok v) :: log)
  /-- One has stopped, and none after it is evaluated. -/
  | stopped {c : ExprId} {cs : List ExprId} {u : Unwind} : Operands (c :: cs) (some u) [(c, .error u)]
  /-- None has stopped, but what is done with their values has. -/
  | failed {cs : List ExprId} {u : Unwind} : Operands cs (some u) []

namespace Operands

variable {cs ds : List ExprId} {u : Unwind} {stop stop' : Option Unwind} {log log' : List Operand}

/-- Operands that have stopped are followed by others that are not evaluated. -/
theorem append_right (h : Operands cs stop log) (hstop : stop ≠ none) (ds : List ExprId) :
    Operands (cs ++ ds) stop log := by
  induction h with
  | nil => exact absurd rfl hstop
  | cons _ ih => exact .cons (ih hstop)
  | stopped => exact .stopped
  | failed => exact .failed

/-- Operands that have come to values are followed by others. -/
theorem append (h : Operands cs stop log) (hstop : stop = none) (h' : Operands ds stop' log') :
    Operands (cs ++ ds) stop' (log ++ log') := by
  induction h with
  | nil => exact h'
  | cons _ ih => exact .cons (ih hstop)
  | stopped => cases hstop
  | failed => cases hstop

end Operands

namespace LogM

variable {α β : Type}

/-- **Evaluates an operand under a log**, which is told how the operand has ended. -/
def watch (eval : ExprId → EvalM Value) (c : ExprId) : LogM Operand Unwind Value := fun l =>
  match eval c l.state with
  | .ok v t => .ok v ⟨t, l.log ++ [(c, .ok v)]⟩
  | .error u t => .error u ⟨t, l.log ++ [(c, .error u)]⟩

theorem Erases.watch (eval : ExprId → EvalM Value) (c : ExprId) : Erases (LogM.watch eval c) (eval c) := by
  intro l
  unfold LogM.watch
  cases eval c l.state <;> rfl

/-- **A computation evaluates operands in order.** -/
def InOrder (cs : List ExprId) (x : LogM Operand Unwind α) : Prop := ∀ l, Adds (fun _ => True) (Operands cs) l (x l)

namespace InOrder

variable {cs ds : List ExprId} {x : LogM Operand Unwind α}

/-- What evaluates no operands logs none. -/
theorem lift (y : EvalM α) : InOrder [] (liftM y : LogM Operand Unwind α) := by
  intro l
  show Adds _ _ l (silent y l)
  unfold silent
  cases y l.state with
  | ok a t => exact .ok_nil trivial .nil
  | error u t => exact .error_nil trivial .failed

theorem pure (a : α) : InOrder [] (Pure.pure a : LogM Operand Unwind α) := lift (Pure.pure a)

theorem watch (eval : ExprId → EvalM Value) (c : ExprId) : InOrder [c] (LogM.watch eval c) := by
  intro l
  unfold LogM.watch
  cases eval c l.state with
  | ok v t => exact .ok trivial (.cons .nil)
  | error u t => exact .error trivial .stopped

theorem bind (hx : InOrder cs x) {f : α → LogM Operand Unwind β} (hf : ∀ a, InOrder ds (f a)) :
    InOrder (cs ++ ds) (x >>= f) := by
  intro l
  refine (hx l).bind (fun u _ h => h.append_right nofun ds) fun a t log _ hlog => ?_
  exact (hf a _).after (List.append_nil _).symm (fun _ => id) fun _ _ hnext => hlog.append rfl hnext

/-- What comes after the operands evaluates no more of them. -/
theorem finish (hx : InOrder cs x) {f : α → LogM Operand Unwind β} (hf : ∀ a, InOrder [] (f a)) :
    InOrder cs (x >>= f) := by
  have h := hx.bind hf
  rwa [List.append_nil] at h

theorem map (hx : InOrder cs x) (f : α → β) : InOrder cs (f <$> x) := by
  rw [← bind_pure_comp]
  exact hx.finish fun a => pure (f a)

section Nodes

variable (eval : ExprId → EvalM Value)

theorem evalOption (o : Option ExprId) : InOrder o.toList (Operations.evalOption (LogM.watch eval) o) := by
  cases o with
  | none => exact pure none
  | some c => exact (watch eval c).map some

theorem evalList (cs : List ExprId) : InOrder cs (Operations.evalList (LogM.watch eval) cs) := by
  induction cs with
  | nil => exact pure []
  | cons c rest ih =>
    have hrest (v : Value) := ih.finish fun vs => pure (v :: vs)
    exact (watch eval c).bind hrest

theorem evalBlock (last : Value) (cs : List ExprId) : InOrder cs (Operations.evalBlock (LogM.watch eval) last cs) := by
  induction cs generalizing last with
  | nil => exact pure last
  | cons c rest ih => exact (watch eval c).bind fun v => ih v

/-- **A node that is no condition evaluates its operands in order.** -/
theorem evalNode (ops : Operations) {form : ExprForm} (hform : ∀ c t e, form ≠ .cond c t e) (taken : Bool) :
    InOrder (form.evaluated taken) (ops.evalNode (LogM.watch eval) form) := by
  have hunit {y : EvalM Unit} : InOrder [] (do liftM y; Pure.pure .unit : LogM Operand Unwind Value) :=
    (lift y).finish fun _ => pure _
  cases form with
  | const c => exact pure _
  | getValue d => exact lift _
  | setValue target value => exact (watch eval value).finish fun _ => hunit
  | declare d => exact hunit
  | getField field receiver => exact (evalOption eval receiver).finish fun _ => lift _
  | setField field receiver value =>
    exact (evalOption eval receiver).bind fun _ => (watch eval value).finish fun _ => hunit
  | call callee dispatch extension args =>
    show InOrder (dispatch.toList ++ extension.toList ++ args) _
    rw [List.append_assoc]
    exact (evalOption eval dispatch).bind fun _ => (evalOption eval extension).bind fun _ =>
      (evalList eval args).finish fun _ => lift _
  | propertyRef property dispatch extension =>
    cases dispatch with
    | some receiver => exact (evalOption eval (some receiver)).finish fun _ => pure _
    | none => exact (evalOption eval extension).finish fun _ => pure _
  | block stmts => exact evalBlock eval .unit stmts
  | cond c t e => exact absurd rfl (hform c t e)
  | binary op lhs rhs =>
    have hrest (a : Value) := (watch eval rhs).finish fun b => lift (Machine.applyBinary op a b)
    exact (watch eval lhs).bind hrest
  | ret function value => exact (evalOption eval value).finish fun _ => lift _
  | construct cls => exact lift _

/-- A condition that has come to a truth value evaluates the branch that it takes. -/
theorem branch (t : ExprId) (e : Option ExprId) (taken : Bool) :
    InOrder (if taken then [t] else e.toList) (if taken then LogM.watch eval t
      else match e with
        | some e => LogM.watch eval e
        | none => Pure.pure .unit) := by
  cases taken with
  | true => exact watch eval t
  | false =>
    cases e with
    | none => exact pure _
    | some e => exact watch eval e

end Nodes

end InOrder

/-- Whether a condition has come to true, as the log of its operands shows. -/
def cameTrue : List Operand → Bool
  | (_, .ok (.bool taken)) :: _ => taken
  | _ => false

/-- **A condition evaluates itself and then the branch that it takes.** -/
theorem cond_adds (eval : ExprId → EvalM Value) (ops : Operations) (c t : ExprId) (e : Option ExprId) (s : State) :
    Adds (fun _ => True) (fun stop log => Operands ((ExprForm.cond c t e).evaluated (cameTrue log)) stop log) ⟨s, []⟩
      (ops.evalNode (watch eval) (.cond c t e) ⟨s, []⟩) := by
  simp only [Operations.evalNode, Bind.bind, EStateM.bind, watch]
  cases eval c s with
  | error u s' => exact .error trivial .stopped
  | ok v s' =>
    cases v with
    | bool taken =>
      have hfirst : Operands [c] none [(c, .ok (.bool taken))] := .cons .nil
      exact (InOrder.branch eval t e taken ⟨s', [(c, .ok (.bool taken))]⟩).after rfl (fun _ => id) fun _ _ hbranch =>
        hfirst.append rfl hbranch
    | _ => exact .error trivial (.cons .failed)

end LogM

namespace Machine

variable (m : Machine)

/-- Evaluates a node, with its operands under a log. -/
def watchNode (depth : Nat) (e : ExprId) : LogM Operand Unwind Value := do
  let node ← m.expr e
  (m.operations (m.eval depth)).evalNode (LogM.watch (m.eval depth)) node.form

/-- To evaluate a node under a log is to evaluate it. -/
theorem watchNode_erases (depth : Nat) (e : ExprId) : LogM.Erases (m.watchNode depth e) (m.eval (depth + 1) e) :=
  (LogM.Erases.lift _).bind fun node => LogM.Erases.evalNode (LogM.Erases.watch (m.eval depth)) _ node.form

/-- **Operands are evaluated in the order in which they are listed.**  If a node comes to a value, then all of them
have, except the branch that a condition does not take and the second receiver of a reference that has two.  If one of
them ends with a `return` or a fault, so does the node, and those before it are the ones that have been evaluated. -/
theorem eval_operands {e : ExprId} {E : Expr} (he : m.program.expr? e = some E) (depth : Nat) (s : State) :
    LogM.erase (m.watchNode depth e ⟨s, []⟩) = m.eval (depth + 1) e s ∧
      match m.watchNode depth e ⟨s, []⟩ with
      | .ok _ l => Operands (E.form.evaluated (LogM.cameTrue l.log)) none l.log
      | .error u l => Operands (E.form.evaluated (LogM.cameTrue l.log)) (some u) l.log := by
  refine ⟨m.watchNode_erases depth e _, ?_⟩
  have hnode : m.watchNode depth e ⟨s, []⟩ =
      (m.operations (m.eval depth)).evalNode (LogM.watch (m.eval depth)) E.form ⟨s, []⟩ := by
    have hexpr : m.expr e = pure E := by rw [expr, he]
    rw [watchNode, hexpr]
    rfl
  have hadds : LogM.Adds (fun _ => True) (fun stop log => Operands (E.form.evaluated (LogM.cameTrue log)) stop log) ⟨s, []⟩
      (m.watchNode depth e ⟨s, []⟩) := by
    rw [hnode]
    by_cases hform : ∃ c t x, E.form = .cond c t x
    · obtain ⟨c, t, x, hform⟩ := hform
      rw [hform]
      exact LogM.cond_adds _ _ c t x s
    · have hform (c t : ExprId) (x : Option ExprId) : E.form ≠ .cond c t x := fun h => hform ⟨c, t, x, h⟩
      refine (LogM.InOrder.evalNode (m.eval depth) (m.operations (m.eval depth)) hform true ⟨s, []⟩).after rfl (fun _ => id) ?_
      intro stop log hlog
      rwa [ExprForm.evaluated_eq hform true (LogM.cameTrue log)] at hlog
  generalize m.watchNode depth e ⟨s, []⟩ = r at hadds ⊢
  cases hadds with
  | ok _ h => exact h
  | error _ h => exact h

/-- In the sample program, a store into a field of a variable that is not bound yet evaluates its receiver, and not what
is to be stored. -/
theorem eval_operands_sample :
    let m : Machine := ⟨sample, Library.standard, 256⟩
    let unbound : Unwind := .fault (.unboundValue "x")
    m.eval 2 ⟨13⟩ {} = .error unbound {} ∧
      m.watchNode 1 ⟨13⟩ ⟨{}, []⟩ = .error unbound ⟨{}, [(⟨11⟩, .error unbound)]⟩ ∧
      Operands [⟨11⟩, ⟨12⟩] (some unbound) [(⟨11⟩, .error unbound)] := by
  intro m unbound
  exact ⟨rfl, rfl, (m.eval_operands (e := ⟨13⟩) rfl 1 {}).2⟩

/-- A reference to a property with two receivers, both of them null. -/
def twoReceivers : Program where
  name := "receivers"
  decls := #[{ name := "p", span := .unknown, form := .property { ty := .any } }]
  exprs := #[⟨.unknown, .nullableAny, .const .null⟩, ⟨.unknown, .nullableAny, .const .null⟩,
    ⟨.unknown, .any, .propertyRef ⟨0⟩ (some ⟨0⟩) (some ⟨1⟩)⟩]
  topLevel := [⟨0⟩]

/-- Not all children are evaluated, even of nodes that are no conditions: of two receivers, only the first one is. -/
theorem exists_child_not_evaluated : ¬∀ (m : Machine) (depth : Nat) (e : ExprId) (E : Expr) (s : State) (v : Value)
    (l : Logged Operand), m.program.Closed → m.program.expr? e = some E → (∀ c t x, E.form ≠ .cond c t x) →
      m.watchNode depth e ⟨s, []⟩ = .ok v l → l.log.map Prod.fst = E.form.children := by
  intro h
  have hclosed : twoReceivers.Closed := by decide
  have hlog := h ⟨twoReceivers, Library.standard, 256⟩ 1 ⟨2⟩ _ {} (.boundRef ⟨0⟩ .null) ⟨{}, [(⟨0⟩, .ok .null)]⟩ hclosed
    rfl nofun rfl
  exact absurd hlog (by decide)

end Machine

end DeferredInit
