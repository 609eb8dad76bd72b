import DeferredInit.Program.Build

/-!
# Declaring classes, functions and properties

What a front end emits.  A property is declared together with its parts: a backing field, a getter that
returns the field's content and, if the property is mutable, a setter that stores into it.  Inside a class,
functions and accessors have a receiver; at the outermost level there is none, and a property is static.
-/

namespace DeferredInit

/-- **The handles of a property and of its parts.** -/
structure PropertyParts where
  /-- The property. -/
  property : DeclId
  /-- Its backing field. -/
  field : DeclId
  /-- The function that reads it. -/
  getter : DeclId
  /-- The function that writes it, if it is mutable. -/
  setter : Option DeclId
deriving DecidableEq, Repr

namespace BuildM

/-- The type of a class's instances; an owner that is no class counts as the class above all. -/
def instanceType (cls : DeclId) : BuildM Ty := do
  match (← decl cls).form.cls? with
  | some c => return .reference c.hash false
  | none => return .any

/-- Makes a declaration a member of its owner; without an owner, or if the owner is no class, an outermost
one. -/
def attach (owner : Option DeclId) (member : DeclId) : BuildM Unit := do
  match owner with
  | none => modify (·.addTopLevel member)
  | some o =>
    let d ← decl o
    match d.form.cls? with
    | some c => modify (·.setDecl o { d with form := .cls { c with members := c.members ++ [member] } })
    | none => modify (·.addTopLevel member)

variable (span : Span)

/-- The receiver of a member. -/
def receiver (owner : Option DeclId) : BuildM (Option DeclId) := do
  match owner with
  | none => return none
  | some cls =>
    let ty ← instanceType cls
    return some (← addDecl (Decl.receiver ty span))

/-- Gives a function its body. -/
def setBody (function : DeclId) (body : ExprId) : BuildM Unit :=
  modifyDecl function fun d =>
    match d.form with
    | .function f => { d with form := .function { f with body := some body } }
    | _ => d

/-- Declares an outermost class by its qualified name. -/
def declareClass (name : String) : BuildM DeclId := do
  let name := QualifiedName.parse name
  let cls ← addDecl { name := name.simple, span, form := .cls { hash := name.hash } }
  modify (·.addTopLevel cls)
  return cls

/-- Declares a function without parameters and without a body. -/
def declareFunction (owner : Option DeclId) (name : String) (returnType : Ty) : BuildM DeclId := do
  let receiver ← receiver span owner
  let function ← addDecl
    { name, span, form := .function { returnType, dispatchReceiver := receiver } }
  attach owner function
  return function

/-- Declares the getter of a property: it returns the content of the field. -/
def declareGetter (owner : Option DeclId) (property field : DeclId) (name : String) (ty : Ty) :
    BuildM DeclId := do
  let receiver ← receiver span owner
  let getter ← addDecl
    { name := "<get-" ++ name ++ ">", span,
      form := .function { returnType := ty, dispatchReceiver := receiver, property := some property } }
  let this ← this span receiver
  let read ← getField span field this
  let result ← ret span getter (some read)
  setBody getter (← block span .unit [result])
  return getter

/-- Declares the setter of a property: it stores its argument into the field. -/
def declareSetter (owner : Option DeclId) (property field : DeclId) (name : String) (ty : Ty) :
    BuildM DeclId := do
  let receiver ← receiver span owner
  let value ← addDecl (Decl.parameter "value" ty 0 span)
  let setter ← addDecl
    { name := "<set-" ++ name ++ ">", span,
      form := .function
        { returnType := .unit, params := [value], dispatchReceiver := receiver, property := some property } }
  let this ← this span receiver
  let newValue ← getValue span value
  let store ← setField span field this newValue
  setBody setter (← block span .unit [store])
  return setter

/-- Declares a property with its parts.  The field starts without an initializer and takes over, of the
property's modifiers, those that say where and how often it is assigned. -/
def declareProperty (owner : Option DeclId) (name : String) (ty : Ty) (modifiers : Modifiers) :
    BuildM PropertyParts := do
  let modifiers := if owner.isNone then modifiers ∪ .static else modifiers
  let property ← addDecl { name, span, modifiers, form := .property { ty, owner } }
  let field ← addDecl
    { name, span, modifiers := modifiers ∩ (.static ∪ .mutable),
      form := .field { ty, owner, property := some property } }
  let getter ← declareGetter span owner property field name ty
  let setter ←
    if modifiers.isMutable then some <$> declareSetter span owner property field name ty
    else pure none
  modifyDecl property fun d =>
    { d with form := .property { ty, owner, backingField := some field, getter := some getter, setter } }
  attach owner property
  return { property, field, getter, setter }

end BuildM

end DeferredInit
