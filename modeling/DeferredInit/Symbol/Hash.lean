import DeferredInit.Symbol.Digest

/-!
# Symbol hashes

Types, functions, properties and getters that live outside a program are known to it by a 64-bit hash.  A
hash is made from the digest of the symbol's name, and each kind of symbol starts from a constant of its own,
so that a type, a function and a property of one name stay apart.

Every construction takes the digest as its last argument, XXH64 unless said otherwise: what makes two
signatures or two receivers differ is the arithmetic here (`mixParams`, `mixReceiver`), whatever the digest.
-/

namespace DeferredInit

/-- **The identity of a library symbol.** -/
structure SymbolHash where
  /-- The hash as a 64-bit word. -/
  val : UInt64
deriving DecidableEq, Repr, Inhabited

namespace SymbolHash

/-- What the hash of a type starts from. -/
def typeDomain : UInt64 := 0x2fac10b63a6cc57c

/-- What the hash of a function starts from. -/
def functionDomain : UInt64 := 0x5ea77ffbcdf5f302

/-- What the hash of a property starts from. -/
def propertyDomain : UInt64 := 0x7d3c8b4a92e15f6d

/-- What the hash of a getter starts from. -/
def getterDomain : UInt64 := 0x3e9f5d2a8c7b1403

/-- The multiplier between two parameters; it is odd, so multiplying by it loses nothing. -/
def mix : UInt64 := 0x4bc94d6bd06053ad

/-- Its multiples mark the positions of parameters. -/
def paramSeed : UInt64 := 0x9e3779b97f4a7c15

/-- Takes the hashes of the parameters from position `i` on into `acc`, each marked by its position. -/
def mixParams (acc : UInt64) (i : Nat) : List SymbolHash → UInt64
  | [] => acc
  | p :: rest => mixParams (acc * mix + ((paramSeed * (i + 1).toUInt64) ^^^ p.val)) (i + 1) rest

/-- Takes the hash of a receiver, zero where there is none, into `acc`. -/
def mixReceiver (acc : UInt64) (receiver : Option SymbolHash) : UInt64 :=
  acc * mix + (receiver.map val).getD 0

/-- The hash of the type with this name. -/
def ofName (name : String) (digest : String → UInt64 := Digest.ofString) : SymbolHash :=
  ⟨typeDomain ^^^ digest name⟩

/-- The hash of the function with this name and these parameter types. -/
def ofFunction (name : String) (params : List SymbolHash)
    (digest : String → UInt64 := Digest.ofString) : SymbolHash :=
  ⟨mixParams (functionDomain ^^^ digest name) 0 params⟩

/-- The hash of the property with this name on this receiver, or of the global one. -/
def ofProperty (name : String) (receiver : Option SymbolHash)
    (digest : String → UInt64 := Digest.ofString) : SymbolHash :=
  ⟨mixReceiver (propertyDomain ^^^ digest name) receiver⟩

/-- The hash of the getter of a property. -/
def getterOf (property : SymbolHash) : SymbolHash :=
  ⟨getterDomain ^^^ Digest.rotateLeft property.val 17⟩

/-! ## Text -/

/-- The last `width` hexadecimal digits of a number. -/
def hexDigits : Nat → Nat → List Char
  | 0, _ => []
  | width + 1, n => hexDigits width (n / 16) ++ [Nat.digitChar (n % 16)]

/-- A hash is written with all its sixteen hexadecimal digits. -/
def text (h : SymbolHash) : String := "0x" ++ String.ofList (hexDigits 16 h.val.toNat)

/-- A hash with its kind in front, for diagnostics. -/
def debugText (h : SymbolHash) : String := "TypeHash(" ++ h.text ++ ")"

end SymbolHash

end DeferredInit
