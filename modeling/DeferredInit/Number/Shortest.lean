/-!
# Shortest decimals

A binary floating-point number stands for every real that rounds to it.  Among the decimals in that interval
`shortest?` finds one with the fewest digits, and of those the nearest to the number itself.

All arithmetic is exact, in natural numbers.  An interval is given in units of a power of two small enough
that its ends are whole, and a decimal is an integer times a power of ten.
-/

namespace DeferredInit.Shortest

/-- **The reals that round to a positive floating-point number**, around the number itself. -/
structure Interval where
  /-- The number, in units of `2 ^ exponent`. -/
  centre : Nat
  /-- How far down the interval reaches. -/
  below : Nat
  /-- How far up it reaches. -/
  above : Nat
  /-- The unit is two to this power. -/
  exponent : Int
  /-- Whether the ends round to the number too. -/
  closed : Bool

/-- A decimal: an integer times a power of ten. -/
structure Decimal where
  /-- The integer. -/
  coefficient : Nat
  /-- The power of ten. -/
  exponent : Int
deriving DecidableEq, Repr

namespace Interval

/-- The power of two, as a factor of numerators. -/
def factor (i : Interval) : Nat := Nat.pow 2 i.exponent.toNat

/-- The power of two, as a denominator. -/
def divisor (i : Interval) : Nat := Nat.pow 2 (-i.exponent).toNat

/-- Whether `point` rounds to the number, where one unit of the interval counts `unit`. -/
def admits (i : Interval) (unit point : Nat) : Bool :=
  let low := (i.centre - i.below) * unit
  let high := (i.centre + i.above) * unit
  if i.closed then low ≤ point && point ≤ high else low < point && point < high

/-- The decimals with power of ten `k` next to the number, the ones that round to it, and of those the
nearest; where both are equally near, the greater. -/
def onGrid? (i : Interval) (k : Int) : Option Decimal :=
  -- with `unit` for one unit of the interval, `step` is the distance between two decimals
  let unit := i.factor * Nat.pow 10 (-k).toNat
  let step := i.divisor * Nat.pow 10 k.toNat
  let value := i.centre * unit
  let down := value / step
  let up := down + 1
  let downIn := down != 0 && i.admits unit (down * step)
  let upIn := i.admits unit (up * step)
  if upIn && (!downIn || up * step - value ≤ value - down * step) then some ⟨up, k⟩
  else if downIn then some ⟨down, k⟩
  else none

/-- The power of ten with which the search begins: no decimal in the interval needs a greater one. -/
def magnitude (i : Interval) : Int :=
  let numerator := i.centre * i.factor
  if numerator ≥ i.divisor then ((Nat.toDigits 10 (numerator / i.divisor)).length : Int)
  else 1 - ((Nat.toDigits 10 (i.divisor / numerator)).length : Int)

/-- **The shortest decimal**: the first hit on ever finer grids.  Seventeen digits always suffice. -/
def shortest? (i : Interval) : Option Decimal :=
  (List.range 20).findSome? fun (n : Nat) => i.onGrid? (i.magnitude - n)

end Interval

namespace Decimal

/-- A decimal in positional notation: no exponent, no point after a whole number, and no zeros but those
that keep a place. -/
def text (d : Decimal) : String :=
  let digits := Nat.toDigits 10 d.coefficient
  let digits' := (digits.reverse.dropWhile (· = '0')).reverse
  let exponent := d.exponent + (digits.length - digits'.length : Nat)
  if 0 ≤ exponent then String.ofList (digits' ++ List.replicate exponent.toNat '0')
  else
    let point := digits'.length + exponent
    if 0 < point then
      String.ofList (digits'.take point.toNat ++ '.' :: digits'.drop point.toNat)
    else String.ofList ('0' :: '.' :: List.replicate (-point).toNat '0' ++ digits')

end Decimal

end DeferredInit.Shortest
