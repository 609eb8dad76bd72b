import DeferredInit.Lowering.Fault
import DeferredInit.Symbol.Standard

/-!
# Intrinsics

The two library symbols that lowering has to know: the getter of `isInitialized` on bound references, calls
of which it replaces, and the function that reports an access before initialization, calls of which it
emits.  A library that does not have exactly one of each cannot host the lowering.
-/

namespace DeferredInit

/-- **The library symbols that lowering knows.** -/
structure Intrinsics where
  /-- The getter of `isInitialized` on a bound reference. -/
  isInitializedGetter : SymbolHash
  /-- The function that reports an access before initialization. -/
  throwUninitialized : SymbolHash
deriving DecidableEq, Repr

namespace Intrinsics

/-- The getter of the one property `isInitialized` on bound references. -/
def findGetter (l : Library) (digest : String → UInt64 := Digest.ofString) :
    Except LoweringFault SymbolHash :=
  let receiver := SymbolHash.ofName Standard.propertyRef0 digest
  let candidates :=
    (l.propertiesNamed (.parse Standard.isInitialized)).filter (·.receiver == some receiver)
  match candidates with
  | [property] =>
    match property.getter with
    | some getter =>
      if (l.function? getter).isSome then .ok getter
      else .error (.ambiguousSymbol (Standard.isInitialized ++ ".getter") 0)
    | none => .error (.ambiguousSymbol (Standard.isInitialized ++ ".getter") 0)
  | _ => .error (.ambiguousSymbol Standard.isInitialized candidates.length)

/-- The one function that reports an access before initialization. -/
def findThrow (l : Library) : Except LoweringFault SymbolHash :=
  match l.functionsNamed (.parse Standard.throwUninitialized) with
  | [function] => .ok function.hash
  | overloads => .error (.ambiguousSymbol Standard.throwUninitialized overloads.length)

/-- **Finds both symbols in a library**, the getter first. -/
def resolve (l : Library) (digest : String → UInt64 := Digest.ofString) :
    Except LoweringFault Intrinsics := do
  let isInitializedGetter ← findGetter l digest
  let throwUninitialized ← findThrow l
  return { isInitializedGetter, throwUninitialized }

end Intrinsics

end DeferredInit
