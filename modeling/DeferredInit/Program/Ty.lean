import DeferredInit.Symbol.Name

/-!
# Static types

What a declaration or an expression is known to be before the program runs: a primitive, a reference to an
instance of some class that may or may not be null, a computation that never returns, or no value of
interest.  Classes are known by their hash alone.
-/

namespace DeferredInit

/-- The primitive types. -/
inductive Primitive where
  | boolean
  | char
  | byte
  | short
  | int
  | long
  | float
  | double
deriving DecidableEq, Repr

/-- The name under which the language knows a primitive type. -/
def Primitive.name : Primitive → String
  | boolean => "Boolean"
  | char => "Char"
  | byte => "Byte"
  | short => "Short"
  | int => "Int"
  | long => "Long"
  | float => "Float"
  | double => "Double"

/-- **A static type.** -/
inductive Ty where
  /-- A primitive, which is never null. -/
  | primitive (kind : Primitive)
  /-- An instance of a class, or null if `nullable`. -/
  | reference (cls : SymbolHash) (nullable : Bool)
  /-- The type of what never returns. -/
  | nothing
  /-- The type of what returns no value of interest. -/
  | unit
deriving DecidableEq, Repr

namespace Ty

instance : Inhabited Ty := ⟨unit⟩

/-- The truth values. -/
abbrev boolean : Ty := primitive .boolean

/-- The whole numbers an integer literal has. -/
abbrev int : Ty := primitive .int

/-- Instances of the class whose name is spelt exactly so. -/
def ofClass (name : String) : Ty := reference (SymbolHash.ofName name) false

/-- The class above all classes. -/
def any : Ty := ofClass "lang::Any"

/-- The class of texts. -/
def string : Ty := ofClass "lang::String"

/-- Whether the type is primitive. -/
def isPrimitive : Ty → Bool
  | primitive _ => true
  | _ => false

/-- Whether null is among the values. -/
def isNullable : Ty → Bool
  | reference _ nullable => nullable
  | _ => false

/-- The type with null among its values; only references can have it. -/
def makeNullable : Ty → Ty
  | reference cls _ => reference cls true
  | ty => ty

/-- The type without null among its values. -/
def makeNotNull : Ty → Ty
  | reference cls _ => reference cls false
  | ty => ty

/-- The class of anything, null included. -/
def nullableAny : Ty := any.makeNullable

/-- A type as it is written: two classes go by their names, every other one by its hash. -/
def text : Ty → String
  | primitive kind => kind.name
  | reference cls nullable =>
    let name :=
      if cls = SymbolHash.ofName "lang::Any" then "Any"
      else if cls = SymbolHash.ofName "lang::String" then "String"
      else "ref(" ++ cls.text ++ ")"
    if nullable then name ++ "?" else name
  | nothing => "Nothing"
  | unit => "Unit"

/-- What a signature keeps of a type: its class, whether or not it may be null. -/
def identity (ty : Ty) (digest : String → UInt64 := Digest.ofString) : SymbolHash :=
  match ty with
  | primitive kind => SymbolHash.ofName kind.name digest
  | reference cls _ => cls
  | nothing => SymbolHash.ofName "Nothing" digest
  | unit => SymbolHash.ofName "Unit" digest

end Ty

end DeferredInit
