import DeferredInit.Number.Double
import DeferredInit.Program.Expr
import DeferredInit.Program.Id

/-!
# Values

What expressions evaluate to.  An object is known by its serial number, which no other object of a run has;
what it contains is kept elsewhere, so that a value never changes.
-/

namespace DeferredInit

/-- **An object's identity**: its serial number, and the class that it was made from. -/
structure ObjectRef where
  /-- The number that tells it from every other object. -/
  serial : Nat
  /-- The class that it is an instance of. -/
  cls : Option DeclId
deriving DecidableEq, Repr

/-- **A value.** -/
inductive Value where
  /-- The value of what has none of interest. -/
  | unit
  | null
  | bool (b : Bool)
  | int (n : Int64)
  | double (d : Double)
  | str (s : String)
  | object (o : ObjectRef)
  /-- A reference to a property. -/
  | propertyRef (property : DeclId)
  /-- A reference to the property of a receiver. -/
  | boundRef (property : DeclId) (receiver : Value)
deriving DecidableEq

namespace Value

instance : Inhabited Value := ⟨unit⟩

/-- The value of a constant. -/
def ofConstant : Constant → Value
  | .null => null
  | .bool b => bool b
  | .int n => int n
  | .double d => double d
  | .str s => str s

/-- A reference to a property, bound if there is a receiver. -/
def reference (property : DeclId) : Option Value → Value
  | none => propertyRef property
  | some receiver => boundRef property receiver

/-- **Equality as the language has it**: numbers compare as numbers, objects by identity, references by the
property and the receiver, and values of different kinds are never equal. -/
def equals : Value → Value → Bool
  | unit, unit => true
  | null, null => true
  | bool a, bool b => a == b
  | int a, int b => a == b
  | double a, double b => a.numericEq b
  | str a, str b => a == b
  | object a, object b => a.serial == b.serial
  | propertyRef p, propertyRef q => p == q
  | boundRef p a, boundRef q b => p == q && a.equals b
  | _, _ => false

/-- A value as it is shown; a bound reference does not show its receiver. -/
def text : Value → String
  | unit => "Unit"
  | null => "null"
  | bool b => toString b
  | int n => toString n.toInt
  | double d => d.text
  | str s => s
  | object o =>
    match o.cls with
    | some cls => "object(" ++ cls.text ++ ")"
    | none => "object"
  | propertyRef p | boundRef p _ => "::" ++ p.text

/-! ## Views -/

/-- Whether the value is null. -/
def isNull : Value → Bool
  | null => true
  | _ => false

/-- The truth value, if it is one. -/
def bool? : Value → Option Bool
  | bool b => some b
  | _ => none

/-- The whole number, if it is one. -/
def int? : Value → Option Int64
  | int n => some n
  | _ => none

/-- The text, if it is one. -/
def str? : Value → Option String
  | str s => some s
  | _ => none

/-- The object, if it is one. -/
def object? : Value → Option ObjectRef
  | object o => some o
  | _ => none

end Value

end DeferredInit
