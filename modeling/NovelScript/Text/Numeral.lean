import NovelScript.Text.CharClass

/-!
Whole numbers in decimal text. A numeral is a row of ASCII digits behind an optional sign, and
it is read only if its value fits the range asked for.
-/

namespace NovelScript.Text

/-- The value of a row of decimal digits. -/
def digitsValue (cs : List Char) : Nat :=
  cs.foldl (fun n c => 10 * n + (c.toNat - '0'.toNat)) 0

/-- The value of a row of at least one decimal digit. -/
def readDigits? (cs : List Char) : Option Nat :=
  if !cs.isEmpty && cs.all Char.isDigit then some (digitsValue cs) else none

/-- The value of a row of digits behind an optional plus sign, if it is below `limit`. -/
def readNatural? (limit : Nat) (s : String) : Option Nat :=
  let digits := match s.toList with
    | '+' :: cs => cs
    | cs => cs
  (readDigits? digits).filter (· < limit)

/-- The value of a row of digits behind an optional sign. -/
def readInteger? (s : String) : Option Int :=
  match s.toList with
  | '-' :: cs => (readDigits? cs).map fun n => -(n : Int)
  | '+' :: cs => (readDigits? cs).map Int.ofNat
  | cs => (readDigits? cs).map Int.ofNat

/-- A numeral whose value has 32 bits with a sign. -/
def readInt32? (s : String) : Option Int32 :=
  (readInteger? s).bind fun z =>
    if -2147483648 ≤ z ∧ z < 2147483648 then some (Int32.ofInt z) else none

/-- A numeral without a sign whose value has 32 bits. -/
def readWord32? (s : String) : Option Nat := readNatural? 4294967296 s

/-- A numeral without a sign whose value has 64 bits. -/
def readWord64? (s : String) : Option Nat := readNatural? 18446744073709551616 s

end NovelScript.Text
