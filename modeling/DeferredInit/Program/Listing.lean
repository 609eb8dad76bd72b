import DeferredInit.Program.Basic
import DeferredInit.Text.Quoted

/-!
# Listings

A program is listed one declaration a line, each indented below its owner, with expressions on the line of
the declaration that owns them:

```text
class Holder {
  lateinit var name: String
    field name: String
    fun <get-name>(): String { return this.#name }
}
```

Declarations go by their names, so a listing tells nothing about handles.  Functions from outside go by the
names that `LibraryNames` gives them, or else by their hashes.
-/

namespace DeferredInit

/-- The names of functions from outside. -/
abbrev LibraryNames := SymbolHash → Option String

namespace Listing

variable (p : Program) (names : LibraryNames)

/-- The declaration of a handle. -/
def lookup (d : DeclId) : Except Halt Decl :=
  match p.decl? d with
  | some decl => .ok decl
  | none => .error .dangling

/-- A constant as it is written. -/
def constant : Constant → String
  | .null => "null"
  | .bool b => toString b
  | .int n => toString n.toInt
  | .double d => d.text
  | .str s => Quoted.encode s

/-- The words before the name of something that is stored. -/
def keywords (d : Decl) : String :=
  (if d.isDeferredInit then "lateinit " else "") ++
    (if d.modifiers.isMutable || d.isDeferredInit then "var " else "val ")

/-- What is stored, with its type. -/
def storage (d : Decl) : String :=
  keywords d ++ d.name ++ ": " ++ (d.form.ty?.map Ty.text).getD ""

/-- What comes before a member: its receiver and a point. -/
def receiver (expr : ExprId → Except Halt String) : Option ExprId → Except Halt String
  | none => .ok ""
  | some e => return (← expr e) ++ "."

/-- What comes after storage: its initializer. -/
def initializer (expr : ExprId → Except Halt String) : Option ExprId → Except Halt String
  | none => .ok ""
  | some e => return " = " ++ (← expr e)

/-- The callee of a call. -/
def callee : Callee → Except Halt String
  | .declared d => return (← lookup p d).name
  | .library hash => .ok ((names hash).getD hash.text)

/-- The text of a form, given the texts of its operands. -/
def form (expr : ExprId → Except Halt String) : ExprForm → Except Halt String
  | .const c => .ok (constant c)
  | .getValue d => return (← lookup p d).name
  | .setValue target value => return (← lookup p target).name ++ " = " ++ (← expr value)
  | .getField field r => return (← receiver expr r) ++ "#" ++ (← lookup p field).name
  | .setField field r value =>
    return (← receiver expr r) ++ "#" ++ (← lookup p field).name ++ " = " ++ (← expr value)
  | .call target dispatch extension args => do
    let target ← callee p names target
    let dispatch ← receiver expr dispatch
    let extension ← receiver expr extension
    let args ← args.mapM expr
    return dispatch ++ extension ++ target ++ "(" ++ ", ".intercalate args ++ ")"
  | .propertyRef property dispatch extension => do
    let bound ← match dispatch <|> extension with
      | some e => expr e
      | none => pure ""
    return bound ++ "::" ++ (← lookup p property).name
  | .block [] => .ok "\x7b \x7d"
  | .block stmts => return "\x7b " ++ "; ".intercalate (← stmts.mapM expr) ++ " \x7d"
  | .cond condition thenBranch elseBranch => do
    let condition ← expr condition
    let thenText ← expr thenBranch
    let elseText ← match elseBranch with
      | some e => pure (" else " ++ (← expr e))
      | none => pure ""
    return "if (" ++ condition ++ ") " ++ thenText ++ elseText
  | .binary op lhs rhs => return "(" ++ (← expr lhs) ++ " " ++ op.symbol ++ " " ++ (← expr rhs) ++ ")"
  | .declare d => do
    let decl ← lookup p d
    return storage decl ++ (← initializer expr (decl.form.var?.bind (·.initializer)))
  | .ret _ none => .ok "return"
  | .ret _ (some value) => return "return " ++ (← expr value)
  | .construct cls => return (← lookup p cls).name ++ "()"

/-- The text of an expression, followed down to a depth. -/
def expr : Nat → ExprId → Except Halt String
  | 0, _ => .error .exhausted
  | depth + 1, e =>
    match p.expr? e with
    | some node => form p names (expr depth) node.form
    | none => .error .dangling

/-- A line at an indentation. -/
def line (indent : Nat) (text : String) : String :=
  String.join (List.replicate indent "  ") ++ text ++ "\n"

/-- The parameters of a function. -/
def parameter (d : DeclId) : Except Halt String := do
  let decl ← lookup p d
  return decl.name ++ ": " ++ (decl.form.ty?.map Ty.text).getD ""

/-- The first line of a declaration, given the texts of its expressions; a class ends its own. -/
def headline (expr : ExprId → Except Halt String) (d : Decl) : Except Halt String :=
  match d.form with
  | .cls _ => .ok ("class " ++ d.name ++ " \x7b")
  | .property _ => .ok (storage d)
  | .var v => return storage d ++ (← initializer expr v.initializer)
  | .field f => return "field " ++ d.name ++ ": " ++ f.ty.text ++ (← initializer expr f.initializer)
  | .parameter q => .ok (d.name ++ ": " ++ q.ty.text)
  | .function f => do
    let params ← f.params.mapM (parameter p)
    let head := "fun " ++ d.name ++ "(" ++ ", ".intercalate params ++ "): " ++ f.returnType.text
    match f.body with
    | some body => return head ++ " " ++ (← expr body)
    | none => return head ++ ";"

/-- The declarations listed below a declaration's first line. -/
def inner : DeclForm → List DeclId
  | .cls c => c.members
  | .property q => (DeclForm.property q).ownedDecls
  | _ => []

/-- The lines of a declaration, followed down to a depth. -/
def decl : Nat → Nat → DeclId → Except Halt String
  | 0, _, _ => .error .exhausted
  | depth + 1, indent, d => do
    let node ← lookup p d
    let head ← headline p (expr p names (p.size + 1)) node
    let inside ← (inner node.form).mapM (decl depth (indent + 1))
    let tail := if node.form.cls?.isSome then line indent "\x7d" else ""
    return line indent head ++ String.join inside ++ tail

end Listing

namespace Program

/-- **The listing of a program**, outermost declarations in order. -/
def listing (p : Program) (names : LibraryNames) : Except Halt String :=
  return String.join (← p.topLevel.mapM (Listing.decl p names (p.size + 1) 0))

/-- The text of an expression. -/
def exprText (p : Program) (names : LibraryNames) (e : ExprId) : Except Halt String :=
  Listing.expr p names (p.size + 1) e

end Program

end DeferredInit
