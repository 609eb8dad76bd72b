import DeferredInit.Symbol.Library

/-!
# The standard library

The symbols that deferred initialization needs: the types that references to properties have, the property
`isInitialized` on each of them, and the function that reports an access before initialization.
-/

namespace DeferredInit

namespace Standard

/-- The class above all classes. -/
def any : String := "lang::Any"

/-- The class of texts. -/
def string : String := "lang::String"

/-- References to properties whose receiver, if any, is bound. -/
def propertyRef0 : String := "lang::reflect::PropertyRef0"

/-- References to properties that still want a receiver. -/
def propertyRef1 : String := "lang::reflect::PropertyRef1"

/-- Asks of a reference whether its property has been assigned. -/
def isInitialized : String := "lang::isInitialized"

/-- Reports an access before initialization. -/
def throwUninitialized : String := "lang::throwUninitializedPropertyAccessException"

/-- The types, in the order in which they are added. -/
def types : List TypeEntry := [any, string, propertyRef0, propertyRef1].map fun name => .ofName (.parse name)

/-- The properties, in the order in which they are added. -/
def properties : List PropertyEntry :=
  [propertyRef0, propertyRef1].map fun receiver =>
    PropertyEntry.extension isInitialized (SymbolHash.ofName receiver) .boolean

/-- The one function. -/
def throwFunction : FunctionEntry :=
  FunctionEntry.ofSignature throwUninitialized [Ty.string.makeNullable] .nothing

end Standard

namespace Library

/-- One way to add to a library. -/
inductive Addition where
  | type (t : TypeEntry)
  | function (f : FunctionEntry)
  | property (p : PropertyEntry)
deriving DecidableEq, Repr

/-- Adds one entry. -/
def add (l : Library) : Addition → Except LibraryFault Library
  | .type t => l.addType t
  | .function f => l.addFunction f
  | .property p => l.addProperty p

/-- Adds entries up to the first that is refused; those before it stay. -/
def addAll (l : Library) : List Addition → Library × Option LibraryFault
  | [] => (l, none)
  | a :: rest =>
    match l.add a with
    | .ok l => l.addAll rest
    | .error fault => (l, some fault)

/-- What the standard library adds, in order. -/
def standardAdditions : List Addition :=
  Standard.types.map .type ++ Standard.properties.map .property ++ [.function Standard.throwFunction]

/-- Adds the standard library. -/
def addStandard (l : Library) : Library × Option LibraryFault := l.addAll standardAdditions

/-- **The standard library by itself.** -/
def standard : Library := (addStandard ∅).1

end Library

end DeferredInit
