/-!
The shortest decimal of a binary floating point number. The reals that round to a number form an
interval around it; its shortest decimal lies in that interval on the coarsest grid of powers of
ten that has a point there, and is the point of that grid nearest to the number.
-/

namespace NovelScript.Decimal

/-- The number `digits * 10 ^ exponent`. -/
structure Scaled where
  digits : Nat
  exponent : Int
deriving DecidableEq, Repr, Inhabited

/-- A positive floating point number `mantissa * 2 ^ exponent`. -/
structure Binary where
  mantissa : Nat
  exponent : Int
  /-- The neighbour below is half as far as the one above. -/
  narrowBelow : Bool
deriving DecidableEq, Repr, Inhabited

/-- The size of a finite number with 64 bits. -/
def Binary.ofBits (bits : UInt64) : Binary :=
  let raised := (bits >>> 52).toNat % 2048
  let fraction := bits.toNat % 0x10000000000000
  if raised = 0 then ⟨fraction, -1074, false⟩
  else ⟨fraction + 0x10000000000000, (raised : Int) - 1075, fraction = 0 && raised > 1⟩

/-- The numerator of `base ^ exponent`. -/
def powerAbove (base : Nat) (exponent : Int) : Nat := Nat.pow base exponent.toNat

/-- The denominator of `base ^ exponent`. -/
def powerBelow (base : Nat) (exponent : Int) : Nat := Nat.pow base (-exponent).toNat

namespace Binary

/-- The multiple of `10 ^ p` that rounds to the number and is nearest to it, if there is one; of
two as near the greater. All lengths are in quarters of the last binary place. -/
def nearestOnGrid? (b : Binary) (p : Int) : Option Nat :=
  let unit := powerAbove 2 (b.exponent - 2) * powerBelow 10 p
  let step := powerAbove 10 p * powerBelow 2 (b.exponent - 2)
  let centre := 4 * b.mantissa * unit
  let low := (4 * b.mantissa - if b.narrowBelow then 1 else 2) * unit
  let high := (4 * b.mantissa + 2) * unit
  let rounds (d : Nat) : Bool :=
    if b.mantissa % 2 = 0 then low ≤ d * step && d * step ≤ high
    else low < d * step && d * step < high
  let below := centre / step
  match rounds below && below > 0, rounds (below + 1) with
  | true, true =>
    if centre - below * step < (below + 1) * step - centre then some below else some (below + 1)
  | true, false => some below
  | false, true => some (below + 1)
  | false, false => none

/-- Tries `n` grids from `10 ^ p` down. -/
def firstGrid (b : Binary) : Nat → Int → Scaled
  | 0, _ => ⟨0, 0⟩
  | n + 1, p =>
    match b.nearestOnGrid? p with
    | some digits => ⟨digits, p⟩
    | none => b.firstGrid n (p - 1)

/-- A power of ten above the whole interval: `10 ^ p` is at least `2 ^ (3 * p)` for a positive
and `2 ^ (4 * p)` for a negative `p`. -/
def coarsest (b : Binary) : Int :=
  let width : Int := (b.mantissa.log2 : Int) + 2 + b.exponent
  if 0 ≤ width then width / 3 + 1 else width / 4 + 1

/-- The shortest decimal that rounds to the number. No number with 64 bits needs more than
seventeen digits, and the search starts fewer than eighty grids above the first of them. -/
def shortest (b : Binary) : Scaled := b.firstGrid 100 b.coarsest

end Binary
end NovelScript.Decimal
