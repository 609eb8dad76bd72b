import DeferredInit.Lowering.Guard
import DeferredInit.Program.Ownership

/-!
# The rules of lowering

Four constructs change when a program is lowered, each by a rule of its own:

* a deferred variable starts out holding null (`initVariable`);
* a read of a deferred variable is guarded (`guardRead`);
* a query whether a property is initialized compares its field with null (`replaceQuery`);
* a deferred property's field starts out holding null, and its getter is guarded (`guardProperty`).

A rule checks all it expects before it changes anything, except that a property's getter is guarded before
its field is checked for an initializer.
-/

namespace DeferredInit

/-- How often each rule was applied. -/
structure LoweringStats where
  /-- Variables given null. -/
  vars : Nat := 0
  /-- Reads guarded. -/
  reads : Nat := 0
  /-- Queries replaced. -/
  queries : Nat := 0
  /-- Properties guarded. -/
  properties : Nat := 0
deriving DecidableEq, Repr

/-- How often any rule was applied. -/
def LoweringStats.total (s : LoweringStats) : Nat := s.vars + s.reads + s.queries + s.properties

/-- How far a lowering has come. -/
structure Progress where
  /-- The program as it is by now. -/
  program : Program
  /-- The rules applied so far. -/
  stats : LoweringStats := {}
deriving DecidableEq

/-- **Lowering**: a computation that changes a program and keeps count, and that can stop halfway. -/
abbrev LowerM := EStateM (Stop LoweringFault) Progress

namespace LowerM

/-- Builds code. -/
def build {α : Type} (act : BuildM α) : LowerM α := fun s =>
  match act s.program with
  | .ok a program => .ok a { s with program }
  | .error h program => .error (.halt h) { s with program }

/-- Stops with a fault. -/
def fail {α : Type} (fault : LoweringFault) : LowerM α := throw (.fault fault)

/-- The declaration of a handle. -/
def decl (d : DeclId) : LowerM Decl := build (BuildM.decl d)

/-- The expression of a handle. -/
def expr (e : ExprId) : LowerM Expr := build (BuildM.expr e)

/-- Counts. -/
def count (change : LoweringStats → LoweringStats) : LowerM Unit :=
  modify fun s => { s with stats := change s.stats }

/-- Only a reference can hold null. -/
def requireReference (name : String) (ty : Ty) (span : Span) : LowerM Unit :=
  if ty.isPrimitive then fail (.primitiveType name ty span) else pure ()

end LowerM

namespace Lowering

open LowerM

variable (w : Lowering)

/-- A deferred variable starts out holding null. -/
def initVariable (d : DeclId) (decl : Decl) (v : VariableDecl) : LowerM Unit := do
  if v.initializer.isSome then fail (.initializerPresent decl.name decl.span)
  requireReference decl.name v.ty decl.span
  build do
    let null ← BuildM.null decl.span v.ty
    BuildM.modifyDecl d (·.withInitializer null)
  count fun s => { s with vars := s.vars + 1 }

/-- A read of a deferred variable is guarded; the guard has the read's handle, position and type. -/
def guardRead (e : ExprId) (read : Expr) (x : DeclId) (decl : Decl) (v : VariableDecl) :
    LowerM Unit := do
  requireReference decl.name v.ty read.span
  build do
    let form ← w.guardedRead read.span x decl.name
    discard (BuildM.replaceExpr e { read with form })
  count fun s => { s with reads := s.reads + 1 }

/-- A query becomes a comparison of the property's field with null.  The receiver that the reference was
bound to moves from there to the read of the field. -/
def replaceQuery (e : ExprId) (query : Expr) (subject : Option ExprId) : LowerM Unit := do
  let span := query.span
  let some reference := subject | fail (.malformedQuery span)
  let node ← expr reference
  let .propertyRef property dispatch extension := node.form | fail (.malformedQuery span)
  let target ← decl property
  if extension.isSome then fail (.extensionProperty target.name span)
  let some q := target.form.property? | fail (.unexpectedDecl target.name "property" span)
  requireReference target.name q.ty span
  let some field := q.backingField | fail (.missingField target.name span)
  build do
    discard (BuildM.replaceExpr reference { node with form := .propertyRef property none extension })
    let form ← presence span field dispatch
    discard (BuildM.replaceExpr e { span, ty := .boolean, form })
  count fun s => { s with queries := s.queries + 1 }

/-- A getter is guarded. -/
def guardGetter (getter field : DeclId) (name : String) : LowerM Unit := do
  let decl ← decl getter
  let some f := decl.form.function? | fail (.unexpectedDecl decl.name "function" decl.span)
  build do
    let body ← w.guardedBody decl.span getter f.dispatchReceiver field name
    BuildM.modifyDecl getter fun d => { d with form := .function { f with body := some body } }

/-- A deferred property's getter is guarded, and its field starts out holding null. -/
def guardProperty (decl : Decl) (q : PropertyDecl) : LowerM Unit := do
  let span := decl.span
  if decl.modifiers.isExtension then fail (.extensionProperty decl.name span)
  let some field := q.backingField | fail (.missingField decl.name span)
  let some getter := q.getter | fail (.missingGetter decl.name span)
  let storage ← LowerM.decl field
  let some content := storage.form.field? | fail (.unexpectedDecl storage.name "field" storage.span)
  requireReference decl.name content.ty span
  w.guardGetter getter field storage.name
  if content.initializer.isSome then fail (.fieldInitialized decl.name span)
  build do
    let null ← BuildM.null span content.ty
    BuildM.modifyDecl field (·.withInitializer null)
  count fun s => { s with properties := s.properties + 1 }

/-- The rule for a declaration. -/
def declRule (d : DeclId) : LowerM Unit := do
  let decl ← decl d
  if decl.isDeferredInit then
    match decl.form with
    | .var v => initVariable d decl v
    -- an inherited property forwards to the genuine one, which is lowered on its own
    | .property q => if decl.modifiers.isFakeOverride then pure () else w.guardProperty decl q
    | _ => pure ()

/-- The rule for an expression. -/
def exprRule (e : ExprId) : LowerM Unit := do
  let node ← expr e
  match node.form with
  | .getValue x =>
    let decl ← decl x
    if decl.isDeferredInit then
      match decl.form with
      | .var v => w.guardRead e node x decl v
      | _ => pure ()
  | .call (.library hash) _ extension _ =>
    if hash = w.intrinsics.isInitializedGetter then replaceQuery e node extension
  | _ => pure ()

/-- The rule for a node. -/
def rule : NodeId → LowerM Unit
  | .decl d => w.declRule d
  | .expr e => w.exprRule e

end Lowering

end DeferredInit
