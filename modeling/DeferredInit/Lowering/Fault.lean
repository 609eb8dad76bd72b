import DeferredInit.Program.Span
import DeferredInit.Program.Ty

/-!
# What lowering can reject

Lowering expects of a program what its front end has checked.  Each expectation that a program can break is a
fault, with the name and the position of what breaks it.
-/

namespace DeferredInit

/-- **Why a program is not lowered.** -/
inductive LoweringFault where
  /-- A variable is assigned where it is declared. -/
  | initializerPresent (name : String) (span : Span)
  /-- A property's field is assigned where it is declared. -/
  | fieldInitialized (name : String) (span : Span)
  /-- The type has no null to stand for "not yet assigned". -/
  | primitiveType (name : String) (ty : Ty) (span : Span)
  /-- An extension property has no storage of its own. -/
  | extensionProperty (name : String) (span : Span)
  /-- What is asked whether it is initialized is no reference to a property. -/
  | malformedQuery (span : Span)
  /-- A property has no backing field. -/
  | missingField (name : String) (span : Span)
  /-- A property has no getter. -/
  | missingGetter (name : String) (span : Span)
  /-- A declaration is of another kind than its use demands. -/
  | unexpectedDecl (name expected : String) (span : Span)
  /-- The library does not have exactly one symbol for a purpose. -/
  | ambiguousSymbol (name : String) (candidates : Nat)
deriving DecidableEq, Repr

namespace LoweringFault

/-- Where the program breaks the expectation; a fault of the library is nowhere in the program. -/
def span? : LoweringFault → Option Span
  | initializerPresent _ span | fieldInitialized _ span | primitiveType _ _ span
  | extensionProperty _ span | malformedQuery span | missingField _ span | missingGetter _ span
  | unexpectedDecl _ _ span => some span
  | ambiguousSymbol _ _ => none

/-- A sentence about a position. -/
def located (span : Span) (sentence : String) : String := "at " ++ span.text ++ ": " ++ sentence

/-- A name in quotes. -/
def quoted (name : String) : String := "'" ++ name ++ "'"

/-- The fault in words. -/
def message : LoweringFault → String
  | initializerPresent name span =>
    located span ("deferred-init variable " ++ quoted name ++ " must not have an initializer")
  | fieldInitialized name span =>
    located span ("deferred-init property " ++ quoted name ++ " must not have an initializer")
  | primitiveType name ty span =>
    located span
      ("deferred-init is not allowed on primitive type " ++ ty.text ++ " (" ++ quoted name ++ ")")
  | extensionProperty name span =>
    located span ("deferred-init is not allowed on extension property " ++ quoted name)
  | malformedQuery span => located span "is-initialized receiver must be a property reference"
  | missingField name span =>
    located span ("deferred-init property " ++ quoted name ++ " has no backing field")
  | missingGetter name span =>
    located span ("deferred-init property " ++ quoted name ++ " has no getter")
  | unexpectedDecl name expected span => located span (quoted name ++ " is not a " ++ expected)
  | ambiguousSymbol name candidates =>
    "well-known symbol " ++ quoted name ++ " resolved to " ++ toString candidates
      ++ " candidates, expected exactly one"

end LoweringFault

end DeferredInit
