import DeferredInit.Program.Basic

/-!
# Building nodes

A node is built in two ways: exactly as given, or from its parts, the type being worked out from what they
refer to.  Only the second kind has to look something up, and so only it can meet a handle that no node has.

Each builder takes the position of the new node first, and adds exactly the nodes that it names, operands
before the node that uses them.
-/

namespace DeferredInit

/-- **Building**: a computation that changes a program and may meet a dangling handle. -/
abbrev BuildM := EStateM Halt Program

namespace BuildM

/-- The declaration of a handle. -/
def decl (d : DeclId) : BuildM Decl := do
  match (← get).decl? d with
  | some decl => pure decl
  | none => throw .dangling

/-- The expression of a handle. -/
def expr (e : ExprId) : BuildM Expr := do
  match (← get).expr? e with
  | some expr => pure expr
  | none => throw .dangling

/-- Adds a declaration. -/
def addDecl (d : Decl) : BuildM DeclId :=
  modifyGet fun p => (p.nextDecl, p.pushDecl d)

/-- Adds an expression. -/
def addExpr (span : Span) (form : ExprForm) (ty : Ty) : BuildM ExprId :=
  modifyGet fun p => (p.nextExpr, p.pushExpr ⟨span, ty, form⟩)

/-- Overwrites a declaration with what `change` makes of it. -/
def modifyDecl (d : DeclId) (change : Decl → Decl) : BuildM Unit := do
  let old ← decl d
  modify (·.setDecl d (change old))

/-- Overwrites an expression and returns the old one. -/
def replaceExpr (e : ExprId) (new : Expr) : BuildM Expr := do
  let old ← expr e
  modify (·.setExpr e new)
  pure old

/-- The type of what a handle declares; a class counts as having no value. -/
def declType (d : DeclId) : BuildM Ty := do
  return ((← decl d).form.ty?).getD .unit

variable (span : Span)

/-! ## Leaves -/

/-- Null, at a type. -/
def null (ty : Ty) : BuildM ExprId := addExpr span (.const .null) ty.makeNullable

/-- A text. -/
def string (value : String) : BuildM ExprId := addExpr span (.const (.str value)) .string

/-- A whole number. -/
def int (value : Int64) : BuildM ExprId := addExpr span (.const (.int value)) .int

/-- Reads a variable or parameter. -/
def getValue (d : DeclId) : BuildM ExprId := do
  addExpr span (.getValue d) (← declType d)

/-- Reads a receiver, if there is one. -/
def this (receiver : Option DeclId) : BuildM (Option ExprId) := do
  match receiver with
  | none => return none
  | some r => return some (← getValue span r)

/-! ## Storage -/

/-- Assigns a variable or parameter. -/
def setValue (target : DeclId) (value : ExprId) : BuildM ExprId :=
  addExpr span (.setValue target value) .unit

/-- Reads a field. -/
def getField (field : DeclId) (receiver : Option ExprId) : BuildM ExprId := do
  addExpr span (.getField field receiver) (← declType field)

/-- Stores into a field. -/
def setField (field : DeclId) (receiver : Option ExprId) (value : ExprId) : BuildM ExprId :=
  addExpr span (.setField field receiver value) .unit

/-! ## Calls and operators -/

/-- Calls a function. -/
def call (callee : Callee) (ty : Ty) (dispatch extension : Option ExprId) (args : List ExprId) :
    BuildM ExprId :=
  addExpr span (.call callee dispatch extension args) ty

/-- Refers to a property, of a receiver or of none. -/
def propertyRef (property : DeclId) (receiver : Option ExprId) (ty : Ty) : BuildM ExprId :=
  addExpr span (.propertyRef property receiver none) ty

/-- Joins two operands. -/
def binary (op : BinaryOp) (lhs rhs : ExprId) (ty : Ty) : BuildM ExprId :=
  addExpr span (.binary op lhs rhs) ty

/-- Adds two operands; the sum has the type of the first. -/
def add (lhs rhs : ExprId) : BuildM ExprId := do
  binary span .add lhs rhs (← expr lhs).ty

/-- Compares with null. -/
def compareNull (op : BinaryOp) (value : ExprId) : BuildM ExprId := do
  let null ← null span .nullableAny
  binary span op value null .boolean

/-- Asks whether a value is null. -/
def equalsNull (value : ExprId) : BuildM ExprId := compareNull span .eq value

/-- Asks whether a value is anything but null. -/
def notEqualsNull (value : ExprId) : BuildM ExprId := compareNull span .ne value

/-! ## Control -/

/-- Does something on a condition. -/
def ifThen (condition thenBranch : ExprId) : BuildM ExprId :=
  addExpr span (.cond condition thenBranch none) .unit

/-- Chooses between two expressions. -/
def ifThenElse (ty : Ty) (condition thenBranch elseBranch : ExprId) : BuildM ExprId :=
  addExpr span (.cond condition thenBranch (some elseBranch)) ty

/-- One expression after the other. -/
def block (ty : Ty) (stmts : List ExprId) : BuildM ExprId := addExpr span (.block stmts) ty

/-- Ends a running function. -/
def ret (function : DeclId) (value : Option ExprId) : BuildM ExprId :=
  addExpr span (.ret function value) .nothing

/-- Makes an instance of a class. -/
def construct (cls : DeclId) : BuildM ExprId := do
  let ty := match (← decl cls).form.cls? with
    | some c => Ty.reference c.hash false
    | none => Ty.unit
  addExpr span (.construct cls) ty

/-- Declares a variable that holds a value from the start, and returns it with the declaring expression. -/
def declare (name : String) (value : ExprId) : BuildM (DeclId × ExprId) := do
  let ty := (← expr value).ty
  let d ← addDecl ((Decl.var name ty span).withInitializer value)
  let e ← addExpr span (.declare d) .unit
  return (d, e)

/-- Declares a variable under a name that nothing else need know. -/
def temporary (value : ExprId) : BuildM (DeclId × ExprId) := do
  let count := (← get).decls.size
  declare span ("tmp" ++ toString count) value

end BuildM

end DeferredInit
