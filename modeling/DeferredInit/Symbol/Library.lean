import DeferredInit.Data.Table
import DeferredInit.Symbol.Entry

/-!
# Libraries

A library is what programs know of the world outside: types, functions and properties, added one by one and
looked up by name or by hash.  Several functions, or several properties, may share a name; a hash belongs to
one of them.  An entry that would break this is refused, and then nothing has changed.
-/

namespace DeferredInit

/-- **Why an entry is refused.** -/
inductive LibraryFault where
  /-- The name is taken by another type. -/
  | duplicateType (name : String)
  /-- The hash is taken by another function. -/
  | duplicateFunction (name : String)
  /-- The hash is taken by another property. -/
  | duplicateProperty (name : String)
  /-- The type that the entry extends is not in the library. -/
  | typeNotFound (name : String)
deriving DecidableEq, Repr

/-- The fault in words. -/
def LibraryFault.message : LibraryFault → String
  | duplicateType name => "duplicate type: " ++ name
  | duplicateFunction name => "duplicate function: " ++ name
  | duplicateProperty name => "duplicate property: " ++ name
  | typeNotFound name => "type not found: " ++ name

/-- **A library.**  Entries are kept by name; the name of an entry is kept by its hash. -/
structure Library where
  /-- Types by name. -/
  types : Table QualifiedName TypeEntry := ∅
  /-- Names of types by hash. -/
  typeNames : Table SymbolHash QualifiedName := ∅
  /-- Functions by name. -/
  functions : Table QualifiedName (List FunctionEntry) := ∅
  /-- Names of functions by hash. -/
  functionNames : Table SymbolHash QualifiedName := ∅
  /-- Properties by name. -/
  properties : Table QualifiedName (List PropertyEntry) := ∅
  /-- Names of properties by hash. -/
  propertyNames : Table SymbolHash QualifiedName := ∅
deriving DecidableEq

namespace Library

/-- The library without entries. -/
def empty : Library := {}

instance : EmptyCollection Library := ⟨empty⟩

instance : Inhabited Library := ⟨empty⟩

/-! ## Looking up -/

variable (l : Library)

/-- The type with a name. -/
def type? (name : QualifiedName) : Option TypeEntry := l.types.get? name

/-- The type with a hash; of several, the one added last. -/
def typeOfHash? (hash : SymbolHash) : Option TypeEntry :=
  (l.typeNames.get? hash).bind l.type?

/-- The functions with a name, oldest first. -/
def functionsNamed (name : QualifiedName) : List FunctionEntry := (l.functions.get? name).getD []

/-- The function with a hash. -/
def function? (hash : SymbolHash) : Option FunctionEntry :=
  (l.functionNames.get? hash).bind fun name => (l.functionsNamed name).find? (·.hash == hash)

/-- The properties with a name, oldest first. -/
def propertiesNamed (name : QualifiedName) : List PropertyEntry := (l.properties.get? name).getD []

/-- The property with a hash. -/
def property? (hash : SymbolHash) : Option PropertyEntry :=
  (l.propertyNames.get? hash).bind fun name => (l.propertiesNamed name).find? (·.hash == hash)

/-- The simple name of the function with a hash. -/
def functionName? (hash : SymbolHash) : Option String := (l.function? hash).map (·.name.simple)

/-- How many types there are. -/
def typeCount : Nat := l.types.size

/-- How many functions there are. -/
def functionCount : Nat := l.functionNames.size

/-! ## Adding -/

/-- Whether a receiver is a type of the library; no receiver needs none. -/
def checkReceiver : Option SymbolHash → Except LibraryFault Unit
  | none => .ok ()
  | some hash => if l.typeNames.contains hash then .ok () else .error (.typeNotFound hash.text)

/-- Adds a type. -/
def addType (t : TypeEntry) : Except LibraryFault Library :=
  if l.types.contains t.name then .error (.duplicateType t.name.text)
  else .ok { l with types := l.types.insert t.name t, typeNames := l.typeNames.insert t.hash t.name }

/-- Adds a function. -/
def addFunction (f : FunctionEntry) : Except LibraryFault Library := do
  if l.functionNames.contains f.hash then throw (.duplicateFunction f.name.text)
  l.checkReceiver f.receiver
  return { l with
    functions := l.functions.insert f.name (l.functionsNamed f.name ++ [f])
    functionNames := l.functionNames.insert f.hash f.name }

/-- Adds a property, and with it its getter if it has one. -/
def addProperty (p : PropertyEntry) : Except LibraryFault Library := do
  if l.propertyNames.contains p.hash then throw (.duplicateProperty p.name.text)
  l.checkReceiver p.receiver
  let l ← if p.getter.isSome then l.addFunction (.getter p) else pure l
  return { l with
    properties := l.properties.insert p.name (l.propertiesNamed p.name ++ [p])
    propertyNames := l.propertyNames.insert p.hash p.name }

end Library

end DeferredInit
