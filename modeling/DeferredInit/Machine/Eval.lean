import DeferredInit.Machine.State
import DeferredInit.Symbol.Standard

/-!
# Evaluating

What a node does once its operands are evaluated is an operation.  A machine gets its `Operations` from its
program, its library and `enter`, a way to evaluate the code that an operation starts somewhere else, which is
the body of a function or an initializer.  One node of an expression is evaluated by `Operations.evalNode`,
which is given a way to evaluate the node's own operands.  `eval` closes the circle, down to a depth.

Operands may be evaluated in any monad above `EvalM`, so that one can watch them being evaluated.
-/

namespace DeferredInit

/-- **A machine**: a program to run, the library it runs in, and how many functions may run at once. -/
structure Machine where
  /-- The program. -/
  program : Program
  /-- The library. -/
  library : Library
  /-- How many functions may run at once. -/
  maxDepth : Nat := 256
deriving DecidableEq

/-- **What nodes do** once their operands are evaluated. -/
structure Operations where
  /-- The value of a variable or parameter. -/
  getValue : DeclId → EvalM Value
  /-- Assigns a variable or parameter. -/
  setValue : DeclId → Value → EvalM Unit
  /-- Brings a declaration into being. -/
  declare : DeclId → EvalM Unit
  /-- The content of a field: of the receiver, or static. -/
  getField : DeclId → Option Value → EvalM Value
  /-- Stores into a field. -/
  setField : DeclId → Option Value → Value → EvalM Unit
  /-- Calls a function, for a receiver, for a value it extends, and with arguments. -/
  call : Callee → Option Value → Option Value → List Value → EvalM Value
  /-- A fresh instance of a class. -/
  construct : DeclId → EvalM Value

namespace Machine

variable (m : Machine)

/-- The library function that reports an access before initialization. -/
def throwFunction? : Option SymbolHash :=
  (m.library.functionsNamed (.parse Standard.throwUninitialized)).head?.map (·.hash)

/-- The declaration of a handle. -/
def decl (d : DeclId) : EvalM Decl :=
  match m.program.decl? d with
  | some decl => pure decl
  | none => throw (.halt .dangling)

/-- The expression of a handle. -/
def expr (e : ExprId) : EvalM Expr :=
  match m.program.expr? e with
  | some expr => pure expr
  | none => throw (.halt .dangling)

/-! ## Operations without operands of their own -/

/-- What a call of a library function amounts to: none returns. -/
def libraryFault (hash : SymbolHash) (args : List Value) : RuntimeFault :=
  if m.throwFunction? = some hash then .uninitializedAccess (args.head?.bind Value.str?)
  else
    match m.library.function? hash with
    | some f => if f.property.isSome then .unloweredIntrinsic f.name.text else .unknownFunction hash
    | none => .unknownFunction hash

/-- Applies an operator to its operands. -/
def applyBinary (op : BinaryOp) (a b : Value) : EvalM Value :=
  match op, a, b with
  | .eq, a, b => pure (.bool (a.equals b))
  | .ne, a, b => pure (.bool (!a.equals b))
  | .add, .int a, .int b => pure (.int (a + b))
  | .add, .double a, .double b => pure (.double (a + b))
  | .add, .str a, .str b => pure (.str (a ++ b))
  | .add, a, b => EvalM.fail (.typeMismatch op.symbol (a.text ++ " and " ++ b.text))

/-- The value of a variable. -/
def getValue (d : DeclId) : EvalM Value := do
  match ← EvalM.local? d with
  | some v => return v
  | none => EvalM.fail (.unboundValue (← m.decl d).name)

/-- The object whose field is accessed. -/
def instanceOf (field : Decl) (op : String) : Option Value → EvalM ObjectRef
  | some (.object o) => pure o
  | some v => EvalM.fail (.typeMismatch op v.text)
  | none => EvalM.fail (.missingReceiver field.name)

/-- Which branch a condition takes. -/
def truth (v : Value) : EvalM Bool :=
  match v.bool? with
  | some b => pure b
  | none => EvalM.fail (.typeMismatch "if" v.text)

/-- The fault of a `return` from a function that is not running. -/
def strayReturn (function : DeclId) : RunM RuntimeFault :=
  match m.program.decl? function with
  | some decl => pure (.unexpectedDecl decl.name "function on the call stack")
  | none => throw (.halt .dangling)

/-- The field that a member of a class stores its content in. -/
def storageOf (member : DeclId) : EvalM (Option DeclId) := do
  match (← m.decl member).form with
  | .property q => return q.backingField
  | .field _ => return some member
  | _ => return none

/-! ## Operations that enter other code -/

variable (enter : ExprId → EvalM Value)

/-- Stores a field's initial content, if the field has an initializer. -/
def initField (fields : Table DeclId Value) (member : DeclId) : EvalM (Table DeclId Value) := do
  match ← m.storageOf member with
  | none => return fields
  | some field =>
    match (← m.decl field).form.field?.bind (·.initializer) with
    | none => return fields
    | some init => return fields.insert field (← enter init)

/-- Makes an instance of a class, member by member. -/
def instantiate (cls : DeclId) : EvalM Value := do
  let decl ← m.decl cls
  match decl.form.cls? with
  | none => EvalM.fail (.unexpectedDecl decl.name "class")
  | some c => EvalM.newObject (some cls) (← c.members.foldlM (initField m enter) ∅)

/-- What a static field holds; the first to ask has it initialized. -/
def staticField (field : DeclId) (decl : Decl) : EvalM Value := do
  match ← EvalM.static? field with
  | some v => return v
  | none =>
    let v ← match decl.form.field?.bind (·.initializer) with
      | some init => enter init
      | none => pure .null
    EvalM.writeStatic field v
    return v

/-- What the receivers and parameters of a function hold at first. -/
def arguments (f : FunctionDecl) (this extension : Option Value) (args : List Value) :
    Table DeclId Value :=
  let receivers := [(f.dispatchReceiver, this), (f.extensionReceiver, extension)].filterMap
    fun (param, v) => do return (← param, ← v)
  .ofList (receivers ++ f.params.zip args)

/-- Brings a variable into being: it starts out with its initializer, if it has one. -/
def declare (d : DeclId) : EvalM Unit := do
  match (← m.decl d).form.var?.bind (·.initializer) with
  | none => return ()
  | some init => EvalM.setLocal d (← enter init)

/-- Reads a field: of the receiver, or static. -/
def loadField (field : DeclId) (receiver : Option Value) : EvalM Value := do
  EvalM.countRead
  let decl ← m.decl field
  if decl.modifiers.isStatic then staticField enter field decl
  else EvalM.readField (← instanceOf decl "field read" receiver) field

/-- Stores into a field: of the receiver, or static. -/
def storeField (field : DeclId) (receiver : Option Value) (v : Value) : EvalM Unit := do
  let decl ← m.decl field
  if decl.modifiers.isStatic then EvalM.writeStatic field v
  else EvalM.writeField (← instanceOf decl "field write" receiver) field v

/-- Calls a function, given what its body does.  A `return` from it ends the call; a `return` from any other
is a fault here. -/
def invokeWith (body : FunctionDecl → Option (EvalM Value)) (function : DeclId)
    (this extension : Option Value) (args : List Value) : RunM Value := do
  if m.maxDepth ≤ (← get).frames.length then throw (.fault (.callDepthExceeded m.maxDepth))
  let some decl := m.program.decl? function | throw (.halt .dangling)
  let some f := decl.form.function? | throw (.fault (.unexpectedDecl decl.name "function"))
  if f.params.length ≠ args.length then
    throw (.fault (.arityMismatch decl.name f.params.length args.length))
  let some run := body f | throw (.fault (.noBody decl.name))
  match ← RunM.inFrame ⟨function, arguments f this extension args⟩ run with
  | .ok v => return v
  | .error (.ret target v) =>
    if target = function then return v else throw (.fault (← m.strayReturn target))
  | .error (.fault f) => throw (.fault f)
  | .error (.halt h) => throw (.halt h)

/-- Calls a function. -/
def invoke (function : DeclId) (this extension : Option Value) (args : List Value) : RunM Value :=
  m.invokeWith (fun f => f.body.map enter) function this extension args

/-- Calls whatever is called. -/
def call (callee : Callee) (this extension : Option Value) (args : List Value) : EvalM Value :=
  match callee with
  | .declared function => (m.invoke enter function this extension args).evaluated
  | .library hash => EvalM.fail (m.libraryFault hash args)

/-- The operations of a machine. -/
def operations : Operations where
  getValue := m.getValue
  setValue := EvalM.setLocal
  declare := m.declare enter
  getField := m.loadField enter
  setField := m.storeField
  call := m.call enter
  construct := m.instantiate enter

end Machine

/-! ## Nodes -/

namespace Operations

section Operands

variable {μ : Type → Type} [Monad μ] (operand : ExprId → μ Value)

/-- Evaluates an operand that may be missing. -/
@[specialize] def evalOption : Option ExprId → μ (Option Value)
  | none => pure none
  | some e => some <$> operand e

/-- Evaluates operands in order. -/
@[specialize] def evalList : List ExprId → μ (List Value)
  | [] => pure []
  | e :: rest => do
    let v ← operand e
    let vs ← evalList rest
    return v :: vs

/-- Evaluates operands in order and keeps the last value. -/
@[specialize] def evalBlock (last : Value) : List ExprId → μ Value
  | [] => pure last
  | e :: rest => do evalBlock (← operand e) rest

end Operands

/-- **Evaluates one node.**  Operands go first, in order, and then what the node does with them; a reference
to a property evaluates one receiver at most. -/
@[specialize] def evalNode {μ : Type → Type} [Monad μ] [MonadLiftT EvalM μ] (ops : Operations)
    (operand : ExprId → μ Value) (form : ExprForm) : μ Value := do
  match form with
  | .const c => return Value.ofConstant c
  | .getValue d => liftM (ops.getValue d)
  | .setValue target value => do
    let v ← operand value
    liftM (ops.setValue target v)
    return .unit
  | .declare d => do
    liftM (ops.declare d)
    return .unit
  | .getField field receiver => do
    let receiver ← evalOption operand receiver
    liftM (ops.getField field receiver)
  | .setField field receiver value => do
    let receiver ← evalOption operand receiver
    let v ← operand value
    liftM (ops.setField field receiver v)
    return .unit
  | .call callee dispatch extension args => do
    let this ← evalOption operand dispatch
    let extension ← evalOption operand extension
    let args ← evalList operand args
    liftM (ops.call callee this extension args)
  | .propertyRef property dispatch extension => do
    let receiver ← evalOption operand (dispatch <|> extension)
    return .reference property receiver
  | .block stmts => evalBlock operand .unit stmts
  | .cond condition thenBranch elseBranch => do
    let taken ← liftM (Machine.truth (← operand condition))
    if taken then operand thenBranch
    else
      match elseBranch with
      | some e => operand e
      | none => return .unit
  | .binary op lhs rhs => do
    let a ← operand lhs
    let b ← operand rhs
    liftM (Machine.applyBinary op a b)
  | .ret function value => do
    let v ← evalOption operand value
    liftM (throw (.ret function (v.getD .unit)) : EvalM Value)
  | .construct cls => liftM (ops.construct cls)

end Operations

/-- **Evaluates an expression**, going no deeper than a depth. -/
def Machine.eval (m : Machine) : Nat → ExprId → EvalM Value
  | 0, _ => throw (.halt .exhausted)
  | depth + 1, e => do
    let node ← m.expr e
    (m.operations (eval m depth)).evalNode (eval m depth) node.form

end DeferredInit
