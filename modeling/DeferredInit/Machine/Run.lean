import DeferredInit.Machine.Eval

/-!
# Running a machine

From outside, a machine is told to call a function, to call a method of an object, or to make an instance of
a class.  Each ends with a value or a fault, and the next one goes on from the state that it left.
-/

namespace DeferredInit

namespace Machine

variable (m : Machine)

/-- How deep an evaluation may go.  As long as no code is part of itself, all the expressions that are being
evaluated between one call and the next are different, and no more calls are active than may be at once.
Code that is part of itself can come to an end at any depth. -/
def depthBound : Nat := (m.maxDepth + 1) * (m.program.exprs.size + 1) + ampleDepth

/-- Evaluates an expression as deep as it goes. -/
def evaluate (e : ExprId) : EvalM Value := m.eval m.depthBound e

/-- **Calls a function.** -/
def callFunction (function : DeclId) (args : List Value) : RunM Value :=
  m.invoke m.evaluate function none none args

/-- **Calls a method** of a receiver. -/
def callMethod (function : DeclId) (receiver : Value) (args : List Value) : RunM Value :=
  m.invoke m.evaluate function (some receiver) none args

/-- **Makes an instance** of a class. -/
def construct (cls : DeclId) : RunM Value := fun s =>
  match m.instantiate m.evaluate cls s with
  | .ok v s => .ok v s
  | .error (.ret target _) s => (do throw (.fault (← m.strayReturn target)) : RunM Value) s
  | .error (.fault f) s => .error (.fault f) s
  | .error (.halt h) s => .error (.halt h) s

end Machine

end DeferredInit
