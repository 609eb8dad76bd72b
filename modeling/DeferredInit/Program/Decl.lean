import DeferredInit.Program.Id
import DeferredInit.Program.Modifiers
import DeferredInit.Program.Span
import DeferredInit.Program.Ty

/-!
# Declarations

Everything a program gives a name to is a declaration: classes, functions and their parameters, variables,
properties and the fields behind them.  A property is a bundle of other declarations, its backing field and
its accessors; it owns them, and they point back to it.
-/

namespace DeferredInit

/-- A variable inside a function. -/
structure VariableDecl where
  /-- Type of the content. -/
  ty : Ty
  /-- What it holds once declared. -/
  initializer : Option ExprId := none
deriving DecidableEq

/-- A property: a value read and written through accessors. -/
structure PropertyDecl where
  /-- Type of the value. -/
  ty : Ty
  /-- The class whose member it is. -/
  owner : Option DeclId := none
  /-- The field that stores the value. -/
  backingField : Option DeclId := none
  /-- The function that reads it. -/
  getter : Option DeclId := none
  /-- The function that writes it. -/
  setter : Option DeclId := none
deriving DecidableEq

/-- A field, of each instance or static. -/
structure FieldDecl where
  /-- Type of the content. -/
  ty : Ty
  /-- The class whose instances have it. -/
  owner : Option DeclId := none
  /-- The property whose value it stores. -/
  property : Option DeclId := none
  /-- What it holds at first. -/
  initializer : Option ExprId := none
deriving DecidableEq

/-- A function. -/
structure FunctionDecl where
  /-- Type of the result. -/
  returnType : Ty
  /-- The parameters, in order. -/
  params : List DeclId := []
  /-- The parameter that stands for the instance whose member it is. -/
  dispatchReceiver : Option DeclId := none
  /-- The parameter that stands for the value it extends. -/
  extensionReceiver : Option DeclId := none
  /-- What it does; a function from elsewhere has no body. -/
  body : Option ExprId := none
  /-- The property whose accessor it is. -/
  property : Option DeclId := none
deriving DecidableEq

/-- A parameter. -/
structure ParameterDecl where
  /-- Type of the argument. -/
  ty : Ty
  /-- Place among the parameters; a receiver has none. -/
  index : Option Nat
deriving DecidableEq

/-- A class. -/
structure ClassDecl where
  /-- The hash by which types refer to it. -/
  hash : SymbolHash
  /-- The members, in order. -/
  members : List DeclId := []
deriving DecidableEq

/-- **What kind of declaration it is**, with what that kind has. -/
inductive DeclForm where
  | var (v : VariableDecl)
  | property (p : PropertyDecl)
  | field (f : FieldDecl)
  | function (f : FunctionDecl)
  | parameter (p : ParameterDecl)
  | cls (c : ClassDecl)
deriving DecidableEq

/-- **A declaration.** -/
structure Decl where
  /-- The name it gives. -/
  name : String
  /-- Position. -/
  span : Span
  /-- Modifiers. -/
  modifiers : Modifiers := .none
  /-- What is declared. -/
  form : DeclForm
deriving DecidableEq

instance : Inhabited Decl := ⟨{ name := "", span := .unknown, form := .var { ty := .unit } }⟩

namespace DeclForm

/-- The variable, if it is one. -/
def var? : DeclForm → Option VariableDecl
  | var v => some v
  | _ => none

/-- The property, if it is one. -/
def property? : DeclForm → Option PropertyDecl
  | property p => some p
  | _ => none

/-- The field, if it is one. -/
def field? : DeclForm → Option FieldDecl
  | field f => some f
  | _ => none

/-- The function, if it is one. -/
def function? : DeclForm → Option FunctionDecl
  | function f => some f
  | _ => none

/-- The class, if it is one. -/
def cls? : DeclForm → Option ClassDecl
  | cls c => some c
  | _ => none

/-- The type of what is declared; a class has none. -/
def ty? : DeclForm → Option Ty
  | var v => some v.ty
  | property p => some p.ty
  | field f => some f.ty
  | function f => some f.returnType
  | parameter p => some p.ty
  | cls _ => none

/-- The declarations that it owns, in order. -/
def ownedDecls : DeclForm → List DeclId
  | property p => p.backingField.toList ++ p.getter.toList ++ p.setter.toList
  | function f => f.dispatchReceiver.toList ++ f.extensionReceiver.toList ++ f.params
  | cls c => c.members
  | var _ | field _ | parameter _ => []

/-- The expressions that it owns. -/
def ownedExprs : DeclForm → List ExprId
  | var v => v.initializer.toList
  | field f => f.initializer.toList
  | function f => f.body.toList
  | property _ | parameter _ | cls _ => []

/-- The same storage with another initializer; other declarations stay as they are. -/
def withInitializer (initializer : ExprId) : DeclForm → DeclForm
  | var v => var { v with initializer := some initializer }
  | field f => field { f with initializer := some initializer }
  | form => form

end DeclForm

namespace Decl

/-- A variable without an initializer. -/
def var (name : String) (ty : Ty) (span : Span) : Decl :=
  { name, span, form := .var { ty } }

/-- A parameter at a place among the parameters. -/
def parameter (name : String) (ty : Ty) (index : Nat) (span : Span) : Decl :=
  { name, span, form := .parameter { ty, index := some index } }

/-- A receiver. -/
def receiver (ty : Ty) (span : Span) : Decl :=
  { name := "this", span, form := .parameter { ty, index := none } }

/-- A function without parameters and without a body. -/
def function (name : String) (returnType : Ty) (span : Span) : Decl :=
  { name, span, form := .function { returnType } }

/-- Adds modifiers. -/
def addModifiers (d : Decl) (modifiers : Modifiers) : Decl :=
  { d with modifiers := d.modifiers ∪ modifiers }

/-- Gives storage an initializer. -/
def withInitializer (d : Decl) (initializer : ExprId) : Decl :=
  { d with form := d.form.withInitializer initializer }

/-- Whether it is assigned after its declaration and before its first use. -/
def isDeferredInit (d : Decl) : Bool := d.modifiers.isDeferredInit

/-- Whether it is a variable that is assigned after its declaration. -/
def isDeferredVariable (d : Decl) : Bool := d.isDeferredInit && d.form.var?.isSome

end Decl

end DeferredInit
