import DeferredInit.Number.Shortest

/-!
# Floating-point numbers

A double is given by its 64 bits.  Three ways to compare doubles live side by side, and they differ only on
zeros and on what is not a number:

* `=` compares bits;
* `numericEq` is the language's own equality: a NaN equals nothing, and the two zeros are equal;
* `canonical` picks one bit pattern for all NaNs and one for both zeros, so that `a.canonical = b.canonical`
  holds for any two NaNs as well: the way two constants in a program are compared.
-/

namespace DeferredInit

/-- **A double**, as its IEEE 754 bits. -/
structure Double where
  /-- Sign, exponent and fraction. -/
  bits : UInt64
deriving DecidableEq, Repr, Inhabited

namespace Double

/-- The bits of positive infinity: all ones in the exponent, no fraction. -/
def infinityBits : UInt64 := 0x7FF0000000000000

/-- The bits without the sign. -/
def magnitudeBits (d : Double) : UInt64 := d.bits &&& 0x7FFFFFFFFFFFFFFF

/-- Whether the sign bit is set. -/
def isNegative (d : Double) : Bool := d.bits >>> 63 == 1

/-- Whether the bits stand for no number. -/
def isNaN (d : Double) : Bool := infinityBits < d.magnitudeBits

/-- Whether the number is one of the two infinities. -/
def isInfinite (d : Double) : Bool := d.magnitudeBits == infinityBits

/-- Whether the number is one of the two zeros. -/
def isZero (d : Double) : Bool := d.magnitudeBits == 0

/-- Equality of numbers. -/
def numericEq (a b : Double) : Bool :=
  !a.isNaN && !b.isNaN && (a.bits == b.bits || a.isZero && b.isZero)

/-- The representative of a double among those that a program does not tell apart in a constant. -/
def canonical (d : Double) : Double :=
  if d.isNaN then ⟨0x7FF8000000000000⟩ else if d.isZero then ⟨0⟩ else d

/-- The sum, rounded to nearest. -/
def add (a b : Double) : Double := ⟨(Float.ofBits a.bits + Float.ofBits b.bits).toBits⟩

instance : Add Double := ⟨add⟩

/-! ## Text -/

/-- How many numbers there are from one power of two to the next. -/
def fractions : Nat := 0x10000000000000

/-- The reals that round to a positive finite double. -/
def interval (d : Double) : Shortest.Interval :=
  let fraction := d.magnitudeBits.toNat % fractions
  let biased := d.magnitudeBits.toNat / fractions
  let significand := if biased = 0 then fraction else fractions + fraction
  { centre := 4 * significand
    -- at a power of two the numbers underneath lie twice as close
    below := if fraction = 0 && 1 < biased then 1 else 2
    above := 2
    exponent := (max biased 1 : Nat) - 1077
    closed := significand % 2 = 0 }

/-- A number is written with the fewest digits that read back as it, never with an exponent. -/
def text (d : Double) : String :=
  if d.isNaN then "NaN"
  else
    let size :=
      if d.isInfinite then "inf"
      else if d.isZero then "0"
      else (d.interval.shortest?.map Shortest.Decimal.text).getD ""
    if d.isNegative then "-" ++ size else size

end Double

end DeferredInit
