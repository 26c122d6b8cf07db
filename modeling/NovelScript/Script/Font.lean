import NovelScript.Text.CharClass

/-!
Colours and text styles.
-/

namespace NovelScript.Script

/-- A colour: its red, green and blue. -/
structure Color where
  red : UInt8
  green : UInt8
  blue : UInt8
deriving DecidableEq, Repr

namespace Color

/-- The value of a hexadecimal digit. -/
def hexValue (c : Char) : Nat :=
  if c.isDigit then c.toNat - '0'.toNat else 10 + (c.toLower.toNat - 'a'.toNat)

/-- Whether a character is a hexadecimal digit. -/
def isHexDigit (c : Char) : Bool :=
  c.isDigit || ('a' ≤ c && c ≤ 'f') || ('A' ≤ c && c ≤ 'F')

/-- The digits of a colour without what may stand before them. -/
def digits (cs : List Char) : List Char :=
  match cs with
  | '#' :: ds => ds
  | '0' :: 'x' :: ds => ds
  | '0' :: 'X' :: ds => ds
  | ds => ds

/-- Reads six hexadecimal digits, bare or behind `#` or `0x`, with blanks around them. -/
def read? (s : String) : Option Color :=
  match digits (Text.trimBlanks s.toList) with
  | [a, b, c, d, e, f] =>
    if [a, b, c, d, e, f].all isHexDigit then
      let part (high low : Char) : UInt8 := UInt8.ofNat (16 * hexValue high + hexValue low)
      some ⟨part a b, part c d, part e f⟩
    else none
  | _ => none

/-- A number below 256 as two hexadecimal digits. -/
def twoDigits (n : UInt8) : String :=
  String.ofList [Nat.digitChar (n.toNat / 16), Nat.digitChar (n.toNat % 16)]

/-- A colour as text. -/
def «show» (c : Color) : String := "#" ++ twoDigits c.red ++ twoDigits c.green ++ twoDigits c.blue

end Color

/-- A text style. What a style leaves open stays as it is; one that leaves everything open
restores the defaults. -/
structure Font where
  size : Option Int32 := none
  face : Option String := none
  color : Option Color := none
  rubySize : Option Int32 := none
  rubyOffset : Option Int32 := none
  rubyFace : Option String := none
  shadow : Option Bool := none
  shadowColor : Option Color := none
  edge : Option Bool := none
  edgeColor : Option Color := none
  bold : Option Bool := none
deriving DecidableEq, Repr

namespace Font

/-- Whether the style restores the defaults. -/
def isReset (font : Font) : Bool := font = {}

/-- What the style sets, as pairs of a name and a value. -/
def settings (font : Font) : List (String × String) :=
  let integer (n : Int32) : String := toString n.toInt
  [("size", font.size.map integer), ("face", font.face), ("color", font.color.map Color.show),
    ("rubysize", font.rubySize.map integer), ("rubyoffset", font.rubyOffset.map integer),
    ("rubyface", font.rubyFace), ("shadow", font.shadow.map toString),
    ("shadowcolor", font.shadowColor.map Color.show), ("edge", font.edge.map toString),
    ("edgecolor", font.edgeColor.map Color.show), ("bold", font.bold.map toString)].filterMap
      fun (name, value?) => value?.map (name, ·)

/-- A style as text. -/
def «show» (font : Font) : String :=
  if font.isReset then "reset"
  else " ".intercalate (font.settings.map fun (name, value) => name ++ "=" ++ value)

end Font
end NovelScript.Script
