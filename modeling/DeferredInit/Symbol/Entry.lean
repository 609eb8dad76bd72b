import DeferredInit.Program.Ty

/-!
# Library entries

What is known of a type, a function or a property that lives outside every program.  An entry made by one of
the constructors here has the hash that its name and signature give it; hashes can also be set by hand.
-/

namespace DeferredInit

/-- **A library type.** -/
structure TypeEntry where
  /-- Its name. -/
  name : QualifiedName
  /-- The hash by which programs know it. -/
  hash : SymbolHash
deriving DecidableEq, Repr

/-- **A library function.** -/
structure FunctionEntry where
  /-- Its name. -/
  name : QualifiedName
  /-- The hash by which programs know it. -/
  hash : SymbolHash
  /-- The types of its parameters. -/
  params : List Ty
  /-- The type of its result. -/
  returnType : Ty
  /-- The type it extends. -/
  receiver : Option SymbolHash := none
  /-- The property whose getter it is. -/
  property : Option SymbolHash := none
deriving DecidableEq, Repr

/-- **A library property.** -/
structure PropertyEntry where
  /-- Its name. -/
  name : QualifiedName
  /-- The hash by which programs know it. -/
  hash : SymbolHash
  /-- The type of its value. -/
  ty : Ty
  /-- The type it extends. -/
  receiver : Option SymbolHash := none
  /-- The function that reads it. -/
  getter : Option SymbolHash := none
deriving DecidableEq, Repr

/-- The type of this name. -/
def TypeEntry.ofName (name : QualifiedName) (digest : String → UInt64 := Digest.ofString) : TypeEntry where
  name
  hash := name.hash digest

/-- The function of this name and signature. -/
def FunctionEntry.ofSignature (name : QualifiedName) (params : List Ty) (returnType : Ty)
    (digest : String → UInt64 := Digest.ofString) : FunctionEntry where
  name
  hash := SymbolHash.ofFunction name.text (params.map (·.identity digest)) digest
  params
  returnType

/-- The property of this name on a receiver, with a getter. -/
def PropertyEntry.extension (name : QualifiedName) (receiver : SymbolHash) (ty : Ty)
    (digest : String → UInt64 := Digest.ofString) : PropertyEntry :=
  let hash := SymbolHash.ofProperty name.text (some receiver) digest
  { name, hash, ty, receiver := some receiver, getter := some hash.getterOf }

/-- The property of this name on no receiver, without a getter. -/
def PropertyEntry.global (name : QualifiedName) (ty : Ty) (digest : String → UInt64 := Digest.ofString) :
    PropertyEntry where
  name
  hash := SymbolHash.ofProperty name.text none digest
  ty

/-- The function that reads a property. -/
def FunctionEntry.getter (property : PropertyEntry) : FunctionEntry where
  name := property.name.sibling ("<get-" ++ property.name.simple ++ ">")
  hash := property.hash.getterOf
  params := []
  returnType := property.ty
  receiver := property.receiver
  property := some property.hash

end DeferredInit
