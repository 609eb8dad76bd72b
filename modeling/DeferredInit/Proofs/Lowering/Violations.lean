import DeferredInit.Lowering.Rules

/-!
# What a program can do wrong

Lowering expects of each construct that it changes what the front end has checked.  `violations` lists, of one node
of a program as it stands, the expectations that it breaks, with what is reported of each.  A list names all of
them, whether or not another one is broken as well, in the order in which they are looked at.

Nothing here says when lowering looks.  That it reports the first violation of the original program, in the order
in which its nodes are left, is shown where the traversal is.
-/

namespace DeferredInit

/-- What is reported if something is the case, and nothing otherwise. -/
def LoweringFault.reportIf (broken : Bool) (f : LoweringFault) : List LoweringFault := if broken then [f] else []

open LoweringFault

/-- Only a reference can hold null. -/
def Ty.violations (name : String) (span : Span) (ty : Ty) : List LoweringFault :=
  reportIf ty.isPrimitive (.primitiveType name ty span)

/-- A deferred variable is assigned later, and it can hold null until then. -/
def VariableDecl.violations (D : Decl) (v : VariableDecl) : List LoweringFault :=
  reportIf v.initializer.isSome (.initializerPresent D.name D.span) ++ v.ty.violations D.name D.span

namespace Program

variable (p : Program)

/-- A query asks of a reference, and the reference is to a property whose field can hold null. -/
def queryViolations (span : Span) (subject : Option ExprId) : List LoweringFault :=
  match subject.bind fun e => (p.expr? e).map Expr.form with
  | some (.propertyRef property _ extension) =>
    (p.decl? property).elim [] fun P =>
      reportIf extension.isSome (.extensionProperty P.name span) ++
        match P.form with
        | .property q => q.ty.violations P.name span ++ reportIf q.backingField.isNone (.missingField P.name span)
        | _ => [.unexpectedDecl P.name "property" span]
  | _ => [.malformedQuery span]

/-- A field holds the value of a deferred property, which can be null. -/
def fieldViolations (D : Decl) (field : DeclId) : List LoweringFault :=
  (p.decl? field).elim [] fun F =>
    match F.form with
    | .field content => content.ty.violations D.name D.span
    | _ => [.unexpectedDecl F.name "field" F.span]

/-- A getter is a function. -/
def getterViolations (getter : DeclId) : List LoweringFault :=
  (p.decl? getter).elim [] fun G => reportIf G.form.function?.isNone (.unexpectedDecl G.name "function" G.span)

/-- The field of a deferred property is assigned later. -/
def assignmentViolations (D : Decl) (field : DeclId) : List LoweringFault :=
  (p.decl? field).elim [] fun F => reportIf (F.form.field?.bind (·.initializer)).isSome (.fieldInitialized D.name D.span)

/-- A deferred property has storage and a getter of its own. -/
def propertyViolations (D : Decl) (q : PropertyDecl) : List LoweringFault :=
  reportIf D.modifiers.isExtension (.extensionProperty D.name D.span) ++
    reportIf q.backingField.isNone (.missingField D.name D.span) ++
    reportIf q.getter.isNone (.missingGetter D.name D.span) ++
    q.backingField.elim [] (p.fieldViolations D) ++
    q.getter.elim [] p.getterViolations ++
    q.backingField.elim [] (p.assignmentViolations D)

end Program

/-- **What a node violates**: all that lowering expects of it and does not find, in order. -/
def Lowering.violations (w : Lowering) (p : Program) : NodeId → List LoweringFault
  | .decl d =>
    (p.decl? d).elim [] fun D =>
      match D.isDeferredInit, D.form with
      | true, .var v => v.violations D
      | true, .property q => if D.modifiers.isFakeOverride then [] else p.propertyViolations D q
      | _, _ => []
  | .expr e =>
    (p.expr? e).elim [] fun E =>
      match E.form with
      | .getValue x =>
        (p.decl? x).elim [] fun X =>
          match X.isDeferredInit, X.form with
          | true, .var v => v.ty.violations X.name E.span
          | _, _ => []
      | .call (.library hash) _ subject _ =>
        if hash = w.intrinsics.isInitializedGetter then p.queryViolations E.span subject else []
      | _ => []

end DeferredInit
