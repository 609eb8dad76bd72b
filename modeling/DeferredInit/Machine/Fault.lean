import DeferredInit.Symbol.Hash

/-!
# What running code can report
-/

namespace DeferredInit

/-- **Why running code ends without a value.** -/
inductive RuntimeFault where
  /-- Something was read before it was assigned. -/
  | uninitializedAccess (name : Option String)
  /-- A library function was called that only lowering knows how to replace. -/
  | unloweredIntrinsic (name : String)
  /-- A library function was called that nothing here can do. -/
  | unknownFunction (hash : SymbolHash)
  /-- A variable has no value yet. -/
  | unboundValue (name : String)
  /-- A field of an instance was accessed without an instance. -/
  | missingReceiver (name : String)
  /-- A function without a body was called. -/
  | noBody (name : String)
  /-- A declaration is of another kind than its use demands. -/
  | unexpectedDecl (name expected : String)
  /-- A function was called with the wrong number of arguments. -/
  | arityMismatch (function : String) (expected found : Nat)
  /-- An operation does not apply to its operands. -/
  | typeMismatch (op operands : String)
  /-- Too many functions were running at once. -/
  | callDepthExceeded (limit : Nat)
deriving DecidableEq, Repr

/-- The fault in words. -/
def RuntimeFault.message : RuntimeFault → String
  | uninitializedAccess (some name) => "lateinit property " ++ name ++ " has not been initialized"
  | uninitializedAccess none => "lateinit property has not been initialized"
  | unloweredIntrinsic name => "intrinsic '" ++ name ++ "' reached the evaluator unlowered"
  | unknownFunction hash => "unknown library function " ++ hash.text
  | unboundValue name => "variable '" ++ name ++ "' is not bound"
  | missingReceiver name => "field '" ++ name ++ "' needs a receiver"
  | noBody name => "function '" ++ name ++ "' has no body"
  | unexpectedDecl name expected => "'" ++ name ++ "' is not a " ++ expected
  | arityMismatch function expected found =>
    "function '" ++ function ++ "' expects " ++ toString expected ++ " arguments, got " ++ toString found
  | typeMismatch op operands => "operator " ++ op ++ " cannot be applied to " ++ operands
  | callDepthExceeded limit => "call depth exceeded " ++ toString limit

end DeferredInit
