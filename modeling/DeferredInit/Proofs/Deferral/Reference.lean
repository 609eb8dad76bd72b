import DeferredInit.Proofs.Machine.Semantics
import DeferredInit.Proofs.Lowering.Order

/-!
# What deferred initialization means

A program with deferred variables and properties has a meaning before it is lowered.  The **reference** gives it: a
semantics that differs from that of a machine in four points, one for each construct that lowering changes.

* A deferred variable holds null when it is declared.
* To read a deferred variable that holds null is an access before initialization.
* To ask whether a property is initialized is to read the property's field, of the receiver that its reference is
  bound to, and to see whether it is null.  Nothing else of the question is evaluated.
* The getter of a genuine deferred property reads the field once, and either returns what it holds or reports an
  access before initialization.

Null stands for "not yet assigned" in all of them (`assigned`).

Lowering does its work on the nodes that can be reached from the outermost declarations, so the reference is about
runs of these alone.  It halts where a run would leave them, by entering a body or an initializer that is none of
theirs (`inside`).
-/

namespace DeferredInit

namespace Program

variable (p : Program)

/-- The bodies and initializers of the declarations that can be reached. -/
def entrances : List ExprId :=
  p.nodes.flatMap fun
    | .decl d => (p.decl? d).elim [] (·.form.ownedExprs)
    | .expr _ => []

/-- Enters a body or an initializer that can be reached; any other halts. -/
def inside (eval : ExprId → EvalM Value) (e : ExprId) : EvalM Value :=
  if e ∈ p.entrances then eval e else throw (.halt .dangling)

/-- What is entered ends alike, if only what can be reached has to. -/
theorem inside_tied {T : Tie} (hT : T.left (.halt .dangling)) {eval : ExprId → EvalM Value} {e : ExprId}
    {y : EvalM Value} (h : e ∈ p.entrances → Tied T.evals (· = ·) (eval e) y) :
    Tied T.evals (· = ·) (p.inside eval e) y := by
  unfold inside
  split
  · next he => exact h he
  · exact Tie.left_halt hT

/-- **What a getter guards**: the field of the genuine deferred property whose getter it is, and the field's name.
An inherited property has no getter of its own. -/
def guardedField? (getter : DeclId) : Option (DeclId × String) :=
  p.nodes.findSome? fun
    | .expr _ => none
    | .decl d => do
      let D ← p.decl? d
      let property ← D.form.property?
      if D.isDeferredInit ∧ ¬D.modifiers.isFakeOverride ∧ property.getter = some getter then
        let field ← property.backingField
        return (field, (← p.decl? field).name)
      else none

end Program

/-- **What a query asks for**: the field of the property that is referred to, and the receiver that the reference is
bound to. -/
def Lowering.queried? (w : Lowering) (p : Program) : ExprForm → Option (DeclId × Option ExprId)
  | .call (.library hash) _ (some reference) _ => do
    let node ← p.expr? reference
    match node.form with
    | .propertyRef property dispatch none =>
      if hash = w.intrinsics.isInitializedGetter then
        let property ← (← p.decl? property).form.property?
        return (← property.backingField, dispatch)
      else none
    | _ => none
  | _ => none

/-- What a field holds of a function's receiver, if the function has one. -/
def Machine.loadReceived (m : Machine) (enter : ExprId → EvalM Value) (receiver : Option DeclId) (field : DeclId) :
    EvalM Value := do
  let this ← match receiver with
    | none => pure none
    | some r => some <$> m.getValue r
  m.loadField enter field this

namespace Reference

variable (w : Lowering) (m : Machine) (eval : ExprId → EvalM Value)

/-- The fault of an access before initialization; it carries the name if reports do. -/
def uninitialized (name : String) : RuntimeFault :=
  .uninitializedAccess (if w.options.namesInReports then some name else none)

/-- What storage holds that has been assigned; null stands for "not yet". -/
def assigned (name : String) (v : Value) : EvalM Value :=
  if v.isNull then EvalM.fail (uninitialized w name) else pure v

/-- The value of a variable. -/
def getValue (d : DeclId) : EvalM Value := do
  let decl ← m.decl d
  let v ← m.getValue d
  if decl.isDeferredVariable then assigned w decl.name v else return v

/-- Brings a variable into being: a deferred one holds null. -/
def declare (d : DeclId) : EvalM Unit := do
  let decl ← m.decl d
  if decl.isDeferredVariable then EvalM.setLocal d .null else m.declare (m.program.inside eval) d

/-- **The getter of a deferred property.** -/
def readProperty (getter : DeclId) (receiver : Option DeclId) (field : DeclId) (name : String) : EvalM Value := do
  let v ← m.loadReceived (m.program.inside eval) receiver field
  throw (.ret getter (← assigned w name v))

/-- What calling a function does. -/
def body (function : DeclId) (f : FunctionDecl) : Option (EvalM Value) :=
  match m.program.guardedField? function with
  | some (field, name) => some (readProperty w m eval function f.dispatchReceiver field name)
  | none => f.body.map (m.program.inside eval)

/-- Calls a function. -/
def invoke (function : DeclId) (this extension : Option Value) (args : List Value) : RunM Value :=
  m.invokeWith (body w m eval function) function this extension args

/-- What nodes do once their operands are evaluated. -/
def operations : Operations where
  getValue := getValue w m
  setValue := EvalM.setLocal
  declare := declare m eval
  getField := m.loadField (m.program.inside eval)
  setField := m.storeField
  call
    | .declared function, this, extension, args => (invoke w m eval function this extension args).evaluated
    | .library hash, _, _, args => EvalM.fail (m.libraryFault hash args)
  construct := m.instantiate (m.program.inside eval)

/-- **A query**: whether a field holds anything but null. -/
def query (field : DeclId) (subject : Option ExprId) : EvalM Value := do
  let receiver ← Operations.evalOption eval subject
  let v ← m.loadField (m.program.inside eval) field receiver
  return .bool !v.isNull

/-- Evaluates one node. -/
def node (e : ExprId) : EvalM Value := do
  let node ← m.expr e
  match w.queried? m.program node.form with
  | some (field, subject) => query m eval field subject
  | none => (operations w m eval).evalNode eval node.form

/-- **The reference**, for the program and the library of a machine. -/
def semantics : Semantics where
  node := node w m
  invoke := invoke w m
  instantiate eval := m.instantiate (m.program.inside eval)
  stray := m.strayReturn

end Reference

/-- What is asked of the sample program: to probe, to greet, to make an instance, and to get its name. -/
def Sample.steps : List Step :=
  [.callFunction ⟨5⟩ [], .callFunction ⟨6⟩ [], .construct ⟨0⟩, .callMethod ⟨3⟩ (.object ⟨2, some ⟨0⟩⟩) []]

end DeferredInit
