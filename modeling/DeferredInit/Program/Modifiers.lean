/-!
# Modifiers

The modifiers of a declaration are a set of bits.  Five of them have a meaning; any other bit is carried
along and shown in hexadecimal.
-/

namespace DeferredInit

/-- **The modifiers of a declaration**, as a set of bits. -/
structure Modifiers where
  /-- The set, one bit for each modifier. -/
  bits : UInt32
deriving DecidableEq, Repr, Inhabited

namespace Modifiers

/-- No modifier. -/
def none : Modifiers := ⟨0⟩

/-- Assigned after its declaration and before its first use. -/
def deferredInit : Modifiers := ⟨1⟩

/-- Assigned any number of times. -/
def mutable : Modifiers := ⟨2⟩

/-- Declared on a receiver from outside its class. -/
def extension : Modifiers := ⟨4⟩

/-- Inherited, and listed again only for look-ups; it forwards to the genuine declaration. -/
def fakeOverride : Modifiers := ⟨8⟩

/-- Held once for the whole program and not by each instance. -/
def static : Modifiers := ⟨16⟩

/-- The modifiers of either set. -/
def union (a b : Modifiers) : Modifiers := ⟨a.bits ||| b.bits⟩

/-- The modifiers of both sets. -/
def inter (a b : Modifiers) : Modifiers := ⟨a.bits &&& b.bits⟩

/-- The modifiers of exactly one of the two sets. -/
def symmDiff (a b : Modifiers) : Modifiers := ⟨a.bits ^^^ b.bits⟩

/-- The modifiers of `a` that `b` lacks. -/
def diff (a b : Modifiers) : Modifiers := ⟨a.bits &&& ~~~b.bits⟩

instance : Union Modifiers := ⟨union⟩

instance : Inter Modifiers := ⟨inter⟩

instance : SDiff Modifiers := ⟨diff⟩

/-- Whether `a` has every modifier of `b`. -/
def contains (a b : Modifiers) : Bool := a ∩ b == b

/-- Whether the two sets have a modifier in common. -/
def intersects (a b : Modifiers) : Bool := a ∩ b != none

/-- The modifiers that have a meaning, with their names. -/
def named : List (String × Modifiers) :=
  [("DEFERRED_INIT", deferredInit), ("MUTABLE", mutable), ("EXTENSION", extension),
    ("FAKE_OVERRIDE", fakeOverride), ("STATIC", static)]

/-- All modifiers that have a meaning. -/
def all : Modifiers := named.foldl (fun set m => set ∪ m.2) none

/-- Only the modifiers that have a meaning. -/
def truncate (a : Modifiers) : Modifiers := a ∩ all

/-- Whether every modifier in the set has a meaning. -/
def isKnown (a : Modifiers) : Bool := a \ all == none

/-- Whether the declaration is assigned after it is declared. -/
def isDeferredInit (a : Modifiers) : Bool := a.contains deferredInit

/-- Whether the declaration can be assigned again. -/
def isMutable (a : Modifiers) : Bool := a.contains mutable

/-- Whether the declaration is an extension. -/
def isExtension (a : Modifiers) : Bool := a.contains extension

/-- Whether the declaration is an inherited one. -/
def isFakeOverride (a : Modifiers) : Bool := a.contains fakeOverride

/-- Whether the declaration is held once for the program. -/
def isStatic (a : Modifiers) : Bool := a.contains static

/-- A number in hexadecimal, without leading zeros. -/
def hexText (n : UInt32) : String := "0x" ++ String.ofList (Nat.toDigits 16 n.toNat)

/-- The set for diagnostics: the names of its modifiers, then the bits that have no name. -/
def debugText (a : Modifiers) : String :=
  let names := (named.filter (fun m => a.contains m.2)).map Prod.fst
  let unnamed := a \ all
  let rest := if unnamed == none then [] else [hexText unnamed.bits]
  let items := if a == none then [hexText 0] else names ++ rest
  "DeclFlags(" ++ " | ".intercalate items ++ ")"

end Modifiers

end DeferredInit
