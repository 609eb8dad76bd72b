import DeferredInit.Program.Decl
import DeferredInit.Program.Expr

/-!
# Programs

A program keeps its declarations and its expressions in two arrays and refers to them by handle.  Nodes are
added at the end and never removed, so a handle once given out stays good; what a handle stands for can be
overwritten in place.

Nothing makes sure that the handles stored inside nodes are good.  Whatever follows them can meet one that is
not, and ends there with `Halt.dangling`.
-/

namespace DeferredInit

/-- **Why an operation gives no answer at all.** -/
inductive Halt where
  /-- It followed a handle that no node has. -/
  | dangling
  /-- It went deeper than the number of steps it was given. -/
  | exhausted
deriving DecidableEq, Repr

/-- More levels than any memory has room for.  Recursion over nodes that may be parts of themselves goes down
to a depth so that it is total; with this many levels to spare, whatever comes to an end does so before they
run out. -/
def ampleDepth : Nat := 0x1000000000000

/-- Why an operation ends without a value: a fault of the kind it can report, or no answer at all. -/
inductive Stop (ε : Type) where
  | fault (e : ε)
  | halt (h : Halt)
deriving DecidableEq, Repr

/-- **A program**: its nodes, and the declarations that no other declaration owns. -/
structure Program where
  /-- The name of the program. -/
  name : String
  /-- The declarations, by handle. -/
  decls : Array Decl := #[]
  /-- The expressions, by handle. -/
  exprs : Array Expr := #[]
  /-- The outermost declarations, in order. -/
  topLevel : List DeclId := []
deriving DecidableEq, Inhabited

namespace Program

/-! ## Reading -/

/-- The declaration of a handle. -/
def decl? (p : Program) (d : DeclId) : Option Decl := p.decls[d.index]?

/-- The expression of a handle. -/
def expr? (p : Program) (e : ExprId) : Option Expr := p.exprs[e.index]?

/-- How many nodes there are. -/
def size (p : Program) : Nat := p.decls.size + p.exprs.size

/-- The first declaration with a name. -/
def find? (p : Program) (name : String) : Option DeclId :=
  (p.decls.toList.findIdx? (·.name == name)).map DeclId.mk

/-! ## Writing -/

/-- The handle that the next declaration gets. -/
def nextDecl (p : Program) : DeclId := ⟨p.decls.size⟩

/-- The handle that the next expression gets. -/
def nextExpr (p : Program) : ExprId := ⟨p.exprs.size⟩

/-- Adds a declaration, as `nextDecl`. -/
def pushDecl (p : Program) (d : Decl) : Program := { p with decls := p.decls.push d }

/-- Adds an expression, as `nextExpr`. -/
def pushExpr (p : Program) (e : Expr) : Program := { p with exprs := p.exprs.push e }

/-- Adds an outermost declaration, after the others. -/
def addTopLevel (p : Program) (d : DeclId) : Program := { p with topLevel := p.topLevel ++ [d] }

/-- Overwrites a declaration; a handle that no node has changes nothing. -/
def setDecl (p : Program) (d : DeclId) (decl : Decl) : Program :=
  { p with decls := p.decls.setIfInBounds d.index decl }

/-- Overwrites an expression; a handle that no node has changes nothing. -/
def setExpr (p : Program) (e : ExprId) (expr : Expr) : Program :=
  { p with exprs := p.exprs.setIfInBounds e.index expr }

/-! ## What writing does to reading -/

variable (p : Program)

@[simp] theorem decl?_pushDecl (q : DeclId) (d : Decl) :
    (p.pushDecl d).decl? q = if q = p.nextDecl then some d else p.decl? q := by
  obtain ⟨i⟩ := q
  simp [decl?, pushDecl, nextDecl, Array.getElem?_push]

@[simp] theorem expr?_pushExpr (q : ExprId) (e : Expr) :
    (p.pushExpr e).expr? q = if q = p.nextExpr then some e else p.expr? q := by
  obtain ⟨i⟩ := q
  simp [expr?, pushExpr, nextExpr, Array.getElem?_push]

@[simp] theorem expr?_pushDecl (q : ExprId) (d : Decl) : (p.pushDecl d).expr? q = p.expr? q := rfl

@[simp] theorem decl?_pushExpr (q : DeclId) (e : Expr) : (p.pushExpr e).decl? q = p.decl? q := rfl

@[simp] theorem decl?_addTopLevel (q d : DeclId) : (p.addTopLevel d).decl? q = p.decl? q := rfl

@[simp] theorem expr?_addTopLevel (q : ExprId) (d : DeclId) :
    (p.addTopLevel d).expr? q = p.expr? q := rfl

/-- Overwriting a declaration that exists changes that one and no other. -/
theorem decl?_setDecl {d : DeclId} {old : Decl} (h : p.decl? d = some old) (q : DeclId) (new : Decl) :
    (p.setDecl d new).decl? q = if q = d then some new else p.decl? q := by
  obtain ⟨i⟩ := q
  obtain ⟨j⟩ := d
  have hj : j < p.decls.size := (Array.getElem?_eq_some_iff.1 h).1
  by_cases hij : i = j
  · subst hij
    simp [decl?, setDecl, hj]
  · simp [decl?, setDecl, hij, Ne.symm hij]

/-- Overwriting an expression that exists changes that one and no other. -/
theorem expr?_setExpr {e : ExprId} {old : Expr} (h : p.expr? e = some old) (q : ExprId) (new : Expr) :
    (p.setExpr e new).expr? q = if q = e then some new else p.expr? q := by
  obtain ⟨i⟩ := q
  obtain ⟨j⟩ := e
  have hj : j < p.exprs.size := (Array.getElem?_eq_some_iff.1 h).1
  by_cases hij : i = j
  · subst hij
    simp [expr?, setExpr, hj]
  · simp [expr?, setExpr, hij, Ne.symm hij]

@[simp] theorem expr?_setDecl (q : ExprId) (d : DeclId) (new : Decl) :
    (p.setDecl d new).expr? q = p.expr? q := rfl

@[simp] theorem decl?_setExpr (q : DeclId) (e : ExprId) (new : Expr) :
    (p.setExpr e new).decl? q = p.decl? q := rfl

/-- A handle is good exactly if it lies below the number of declarations. -/
theorem isSome_decl?_iff (d : DeclId) : (p.decl? d).isSome ↔ d.index < p.decls.size := by
  simp [decl?]

/-- A handle is good exactly if it lies below the number of expressions. -/
theorem isSome_expr?_iff (e : ExprId) : (p.expr? e).isSome ↔ e.index < p.exprs.size := by
  simp [expr?]

end Program

end DeferredInit
