import NovelScript.Text.Numeral

/-!
Floating point numbers in decimal text: an optional sign, digits around an optional point and an
optional power of ten, or one of the words for infinity and for no number.
-/

namespace NovelScript.Decimal

/-- The parts of an unsigned numeral: `digits * 10 ^ exponent`. -/
structure Numeral where
  digits : Nat
  exponent : Int
deriving DecidableEq, Repr

/-- The power of ten behind a numeral: nothing, or `e`, an optional sign and digits. -/
def readExponent? : List Char → Option Int
  | [] => some 0
  | c :: cs => if c = 'e' || c = 'E' then Text.readInteger? (String.ofList cs) else none

/-- An unsigned numeral with at least one digit before or behind its point. -/
def readNumeral? (cs : List Char) : Option Numeral :=
  let whole := cs.takeWhile Char.isDigit
  let behind := cs.dropWhile Char.isDigit
  let (places, tail) := match behind with
    | '.' :: ds => (ds.takeWhile Char.isDigit, ds.dropWhile Char.isDigit)
    | ds => ([], ds)
  if whole.isEmpty && places.isEmpty then none
  else (readExponent? tail).map fun e =>
    ⟨Text.digitsValue (whole ++ places), e - places.length⟩

/-- The number nearest to a numeral. Above `10 ^ 310` that is infinity, and below `10 ^ -330`
zero, whatever the digits. -/
def Numeral.toFloat (n : Numeral) : Float :=
  let size : Int := (Nat.toDigits 10 n.digits).length + n.exponent
  if n.digits = 0 || size < -330 then 0.0
  else if size > 310 then 1.0 / 0.0
  else Float.ofScientific n.digits (n.exponent < 0) n.exponent.natAbs

/-- An unsigned number: a word or a numeral. -/
def readUnsigned? (cs : List Char) : Option Float :=
  let word := String.ofList (cs.map Char.toLower)
  if word = "inf" || word = "infinity" then some (1.0 / 0.0)
  else if word = "nan" then some (0.0 / 0.0)
  else (readNumeral? cs).map Numeral.toFloat

/-- A number behind an optional sign. -/
def readFloat? (s : String) : Option Float :=
  match s.toList with
  | '-' :: cs => (readUnsigned? cs).map (-·)
  | '+' :: cs => readUnsigned? cs
  | cs => readUnsigned? cs

end NovelScript.Decimal
