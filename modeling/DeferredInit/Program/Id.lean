/-!
# Handles

A program stores its declarations and its expressions in two arrays.  A handle is an index into one of them,
and means something only together with the program that gave it out.
-/

namespace DeferredInit

/-- **The handle of a declaration.** -/
structure DeclId where
  /-- Place in the array of declarations. -/
  index : Nat
deriving DecidableEq, Repr, Inhabited

/-- **The handle of an expression.** -/
structure ExprId where
  /-- Place in the array of expressions. -/
  index : Nat
deriving DecidableEq, Repr, Inhabited

/-- A declaration's handle as it is shown. -/
def DeclId.text (d : DeclId) : String := "decl#" ++ toString d.index

/-- An expression's handle as it is shown. -/
def ExprId.text (e : ExprId) : String := "expr#" ++ toString e.index

/-- **The handle of either kind of node.** -/
inductive NodeId where
  | decl (d : DeclId)
  | expr (e : ExprId)
deriving DecidableEq, Repr, Inhabited

end DeferredInit
