import DeferredInit.Program.Build
import DeferredInit.Symbol.Intrinsics

/-!
# Guards

Null stands for "not yet assigned", and a guard is the code that tells: it reads storage that may hold null
and reports an access before initialization where it does.  Each function here builds the code of one guard;
no node of it existed before, apart from the receiver that a query hands over.
-/

namespace DeferredInit

/-- How lowering can be adjusted. -/
structure LoweringOptions where
  /-- Whether a report carries the name of what was accessed. -/
  namesInReports : Bool := false
deriving DecidableEq, Repr

/-- **A lowering**: what it knows of the library, and how it is adjusted. -/
structure Lowering where
  /-- The library symbols it knows. -/
  intrinsics : Intrinsics
  /-- Its adjustment. -/
  options : LoweringOptions := {}
deriving DecidableEq, Repr

namespace Lowering

open BuildM

variable (w : Lowering) (span : Span)

/-- Reports an access before initialization. -/
def report (name : String) : BuildM ExprId := do
  let args ← if w.options.namesInReports then List.singleton <$> string span name else pure []
  call span (.library w.intrinsics.throwUninitialized) .nothing none none args

/-- What takes the place of a variable's read: `if (x == null) report; x` as one block. -/
def guardedRead (x : DeclId) (name : String) : BuildM ExprForm := do
  let tested ← getValue span x
  let test ← equalsNull span tested
  let failure ← w.report span name
  let check ← ifThen span test failure
  let value ← getValue span x
  return .block [check, value]

/-- The body of a property's getter: it reads the field once, and returns what it read unless that is
null. -/
def guardedBody (getter : DeclId) (receiver : Option DeclId) (field : DeclId) (name : String) :
    BuildM ExprId := do
  let this ← this span receiver
  let current ← getField span field this
  let (held, declaration) ← temporary span current
  let tested ← getValue span held
  let test ← notEqualsNull span tested
  let result ← getValue span held
  let success ← ret span getter (some result)
  let failure ← w.report span name
  let choice ← ifThenElse span .nothing test success failure
  block span .unit [declaration, choice]

/-- What takes the place of a query: whether the field of the receiver holds anything but null. -/
def presence (field : DeclId) (receiver : Option ExprId) : BuildM ExprForm := do
  let value ← getField span field receiver
  let null ← null span .nullableAny
  return .binary .ne value null

end Lowering

end DeferredInit
