import DeferredInit.Program.NodeSet

/-!
# Who owns what

A declaration owns the declarations and expressions it is made of, an expression owns its operands, and an
expression that declares something owns that declaration.  A program whose nodes have one owner each is a
forest under its outermost declarations.  Names do not own: an expression that reads a variable, or a getter
that points back to its property, only mentions it.

`findShared` looks for a node that is reached twice.
-/

namespace DeferredInit

/-- The declaration that an expression brings into being. -/
def ExprForm.declared? : ExprForm → Option DeclId
  | declare d => some d
  | _ => none

/-- The nodes that an expression owns, in order. -/
def ExprForm.owned (form : ExprForm) : List NodeId :=
  match form with
  | declare d => [.decl d]
  | form => form.children.map .expr

/-- The nodes that a declaration owns, in order. -/
def DeclForm.owned (form : DeclForm) : List NodeId :=
  form.ownedDecls.map .decl ++ form.ownedExprs.map .expr

namespace Program

/-- **The nodes that a node owns**, in order. -/
def owned? (p : Program) : NodeId → Option (List NodeId)
  | .decl d => (p.decl? d).map (·.form.owned)
  | .expr e => (p.expr? e).map (·.form.owned)

/-- Visits the nodes still to come, marking each in `seen`, until one comes up that is marked already.
Expressions go first: all that a declaration owns are visited before the next declaration. -/
def search (p : Program) (fuel : Nat) (seen : NodeSet) (exprs : List ExprId) (decls : List DeclId) :
    Except Halt (Option NodeId) :=
  match fuel, exprs, decls with
  | _, [], [] => .ok none
  | 0, _, _ => .error .exhausted
  | fuel + 1, e :: exprs, decls =>
    if seen.contains (.expr e) then .ok (some (.expr e))
    else
      match p.expr? e with
      | none => .error .dangling
      | some expr =>
        p.search fuel (seen.insert (.expr e)) (expr.form.children ++ exprs)
          (expr.form.declared?.toList ++ decls)
  | fuel + 1, [], d :: decls =>
    if seen.contains (.decl d) then .ok (some (.decl d))
    else
      match p.decl? d with
      | none => .error .dangling
      | some decl =>
        p.search fuel (seen.insert (.decl d)) decl.form.ownedExprs (decl.form.ownedDecls ++ decls)

/-- **A node with more than one owner**: the first that is reached a second time from the outermost
declarations.  Every step but the last marks a node that was not marked before, so there is one step for each
node and one more. -/
def findShared (p : Program) : Except Halt (Option NodeId) :=
  p.search (p.size + 1) (.empty p) [] p.topLevel

end Program

end DeferredInit
