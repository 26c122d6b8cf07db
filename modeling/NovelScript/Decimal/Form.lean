import NovelScript.Decimal.Shortest

/-!
The texts of floating point numbers: the shortest decimal, written with its point in place or
with a power of ten behind it.
-/

namespace NovelScript.Decimal

/-- The decisions of one way to write a number. -/
structure Form where
  /-- Whether the number is written with its point in place and no power of ten. -/
  positional : Float → Bool
  /-- Whether a whole number written with its point in place shows one decimal. -/
  pointed : Float → Bool

/-- The form of number literals: positional from `0.0001` up to `10 ^ 16`, with a decimal. -/
def Form.literal : Form where
  positional x := x == 0 || (1e-4 ≤ x.abs && x.abs < 1e16)
  pointed _ := true

/-- The form of values: always positional, with a decimal below `10 ^ 15`. -/
def Form.value : Form where
  positional _ := true
  pointed x := x.abs < 1e15

/-- A decimal with its point in place. -/
def Scaled.positional (d : Scaled) (pointed : Bool) : String :=
  let digits := Nat.toDigits 10 d.digits
  if 0 ≤ d.exponent then
    String.ofList (digits ++ List.replicate d.exponent.toNat '0' ++
      if pointed then ['.', '0'] else [])
  else
    let places := (-d.exponent).toNat
    let padded := List.replicate (places + 1 - digits.length) '0' ++ digits
    let whole := padded.length - places
    String.ofList (padded.take whole ++ '.' :: padded.drop whole)

/-- A decimal with its point behind the first digit and a power of ten. -/
def Scaled.scientific (d : Scaled) : String :=
  let power := fun (n : Nat) => s!"e{d.exponent + n}"
  match Nat.toDigits 10 d.digits with
  | [digit] => String.ofList [digit] ++ power 0
  | first :: rest => String.ofList (first :: '.' :: rest) ++ power rest.length
  | [] => ""

/-- A number as text. Digits are the fewest that read back as the same number. -/
def Form.write (form : Form) (x : Float) : String :=
  if x.isNaN then "NaN"
  else
    let sign := if x.toBits >>> 63 = 1 then "-" else ""
    let size :=
      if x.isInf then "inf"
      else
        let d := if x == 0 then ⟨0, 0⟩ else (Binary.ofBits x.toBits).shortest
        if form.positional x then d.positional (form.pointed x) else d.scientific
    sign ++ size

end NovelScript.Decimal
