import DeferredInit.Number.Double
import DeferredInit.Program.Id
import DeferredInit.Program.Span
import DeferredInit.Program.Ty

/-!
# Expressions

An expression has a form, a static type and a position.  Its sub-expressions are handles, listed by
`ExprForm.children` in the order in which they are evaluated; declarations that it names without owning them
are handles as well.
-/

namespace DeferredInit

/-- The constants a program can write down. -/
inductive Constant where
  | null
  | bool (b : Bool)
  | int (n : Int64)
  | double (d : Double)
  | str (s : String)
deriving DecidableEq

/-- What a call calls. -/
inductive Callee where
  /-- A function of the program. -/
  | declared (function : DeclId)
  /-- A function from outside. -/
  | library (hash : SymbolHash)
deriving DecidableEq

/-- The operators between two operands. -/
inductive BinaryOp where
  | eq
  | ne
  | add
deriving DecidableEq

/-- An operator as it is written. -/
def BinaryOp.symbol : BinaryOp → String
  | eq => "=="
  | ne => "!="
  | add => "+"

/-- **What an expression does.** -/
inductive ExprForm where
  /-- A constant. -/
  | const (value : Constant)
  /-- The value of a variable or parameter. -/
  | getValue (decl : DeclId)
  /-- Assigns a variable or parameter. -/
  | setValue (target : DeclId) (value : ExprId)
  /-- The content of a field: of the receiver, or static. -/
  | getField (field : DeclId) (receiver : Option ExprId)
  /-- Stores into a field. -/
  | setField (field : DeclId) (receiver : Option ExprId) (value : ExprId)
  /-- Calls a function. -/
  | call (callee : Callee) (dispatch extension : Option ExprId) (args : List ExprId)
  /-- A reference to a property, possibly bound to a receiver. -/
  | propertyRef (property : DeclId) (dispatch extension : Option ExprId)
  /-- One expression after the other; the value is the last one's. -/
  | block (stmts : List ExprId)
  /-- A choice. -/
  | cond (condition thenBranch : ExprId) (elseBranch : Option ExprId)
  /-- An operator between two operands. -/
  | binary (op : BinaryOp) (lhs rhs : ExprId)
  /-- Brings a declaration into being. -/
  | declare (decl : DeclId)
  /-- Ends a running function. -/
  | ret (function : DeclId) (value : Option ExprId)
  /-- A fresh instance of a class. -/
  | construct (cls : DeclId)
deriving DecidableEq

/-- **An expression.** -/
structure Expr where
  /-- Position. -/
  span : Span
  /-- Static type. -/
  ty : Ty
  /-- What it does. -/
  form : ExprForm
deriving DecidableEq

instance : Inhabited Expr := ⟨⟨.unknown, .unit, .const .null⟩⟩

/-- The sub-expressions, in the order in which they are evaluated. -/
def ExprForm.children : ExprForm → List ExprId
  | const _ | getValue _ | declare _ | construct _ => []
  | setValue _ value => [value]
  | getField _ receiver => receiver.toList
  | setField _ receiver value => receiver.toList ++ [value]
  | call _ dispatch extension args => dispatch.toList ++ extension.toList ++ args
  | propertyRef _ dispatch extension => dispatch.toList ++ extension.toList
  | block stmts => stmts
  | cond condition thenBranch elseBranch => condition :: thenBranch :: elseBranch.toList
  | binary _ lhs rhs => [lhs, rhs]
  | ret _ value => value.toList

/-! ## Sameness

Two nodes are the same if they agree in every part, where constants that a program does not tell apart count
as equal.  -/

/-- The representative of a constant. -/
def Constant.canonical : Constant → Constant
  | double d => double d.canonical
  | c => c

/-- The representative of a form. -/
def ExprForm.canonical : ExprForm → ExprForm
  | const c => const c.canonical
  | form => form

/-- The representative of an expression. -/
def Expr.canonical (e : Expr) : Expr := { e with form := e.form.canonical }

/-- Whether two expressions agree in every part. -/
def Expr.sameAs (a b : Expr) : Bool := a.canonical = b.canonical

end DeferredInit
